import Calculator.Complex.Token
import Calculator.Number.Reader

/-!
The grammar of complex arithmetic, apart from any way of reading it, and the value of what it
derives:

    Expression := Term (('+' | '-') Term)*
    Term       := Factor (('*' | '/') Factor)*
    Factor     := 'conj' '(' Expression ')' | 'abs' '(' Expression ')' | '(' Expression ')'
                | ('+' | '-')? Number? 'i' | ('+' | '-')? Number

A repetition is written with the phrase so far on its left, so that a derivation already says how
its operands group. Parentheses leave no node.
-/

set_option autoImplicit false
set_option relaxedAutoImplicit false

namespace Calculator.Complex

inductive Sign where
  | plus | minus
deriving DecidableEq

def Sign.operator : Sign → Operator
  | .plus => .add
  | .minus => .sub

def Sign.factor : Option Sign → Float
  | none | some .plus => 1
  | some .minus => -1

/-- An expression over complex literals, as its tokens group. A literal without a magnitude is the
imaginary unit. -/
inductive Expr where
  | imaginary (sign : Option Sign) (magnitude : Option Float)
  | real (sign : Option Sign) (magnitude : Float)
  | add (lhs rhs : Expr)
  | sub (lhs rhs : Expr)
  | mul (lhs rhs : Expr)
  | div (lhs rhs : Expr)
  | conj (arg : Expr)
  | abs (arg : Expr)
deriving DecidableEq

/-- The value of an expression, operands first and the left one before the right one. There is none
if the divisor of a division has a squared modulus that comes out as zero. -/
def Expr.value? : Expr → Option Complex
  | .imaginary sign magnitude => some (.imaginary (Sign.factor sign * magnitude.getD 1))
  | .real sign magnitude => some (.real (Sign.factor sign * magnitude))
  | .add lhs rhs => do
    let z ← lhs.value?
    let w ← rhs.value?
    return z + w
  | .sub lhs rhs => do
    let z ← lhs.value?
    let w ← rhs.value?
    return z - w
  | .mul lhs rhs => do
    let z ← lhs.value?
    let w ← rhs.value?
    return z * w
  | .div lhs rhs => do
    let z ← lhs.value?
    let w ← rhs.value?
    z.div? w
  | .conj arg => do
    let z ← arg.value?
    return z.conj
  | .abs arg => do
    let z ← arg.value?
    return .real z.abs

inductive Phrase where
  | expression | term | factor
deriving DecidableEq

inductive Signs : List (Token Kind) → Option Sign → Prop
  | none : Signs [] none
  | some {token : Token Kind} (sign : Sign) (kind : token.kind = .operator sign.operator) :
      Signs [token] (some sign)

inductive Counts : List (Token Kind) → Option Float → Prop
  | none : Counts [] none
  | some {token : Token Kind} {value : Float} (kind : token.kind = .number)
      (read : Number.read? token.lexeme = some value) : Counts [token] (some value)

/-- The tokens that form a phrase, and the expression it stands for. -/
inductive Derives : Phrase → List (Token Kind) → Expr → Prop
  | imaginary {signs numbers : List (Token Kind)} {unit : Token Kind} {sign : Option Sign}
      {magnitude : Option Float} (signed : Signs signs sign) (counted : Counts numbers magnitude)
      (kind : unit.kind = .unit) :
      Derives .factor (signs ++ (numbers ++ [unit])) (.imaginary sign magnitude)
  | real {signs : List (Token Kind)} {token : Token Kind} {sign : Option Sign} {value : Float}
      (signed : Signs signs sign) (kind : token.kind = .number)
      (read : Number.read? token.lexeme = some value) :
      Derives .factor (signs ++ [token]) (.real sign value)
  | conj {name opening closing : Token Kind} {inner : List (Token Kind)} {arg : Expr}
      (kind : name.kind = .conj) (opens : opening.kind = .opening)
      (closes : closing.kind = .closing)
      (inside : Derives .expression inner arg) :
      Derives .factor (name :: opening :: (inner ++ [closing])) (.conj arg)
  | abs {name opening closing : Token Kind} {inner : List (Token Kind)} {arg : Expr}
      (kind : name.kind = .abs) (opens : opening.kind = .opening) (closes : closing.kind = .closing)
      (inside : Derives .expression inner arg) :
      Derives .factor (name :: opening :: (inner ++ [closing])) (.abs arg)
  | group {opening closing : Token Kind} {inner : List (Token Kind)} {e : Expr}
      (opens : opening.kind = .opening) (closes : closing.kind = .closing)
      (inside : Derives .expression inner e) : Derives .factor (opening :: (inner ++ [closing])) e
  | factor {tokens : List (Token Kind)} {e : Expr} (h : Derives .factor tokens e) :
      Derives .term tokens e
  | times {factors factor : List (Token Kind)} {token : Token Kind} {l r : Expr}
      (lhs : Derives .term factors l) (kind : token.kind = .operator .mul)
      (rhs : Derives .factor factor r) : Derives .term (factors ++ token :: factor) (.mul l r)
  | divided {factors factor : List (Token Kind)} {token : Token Kind} {l r : Expr}
      (lhs : Derives .term factors l) (kind : token.kind = .operator .div)
      (rhs : Derives .factor factor r) : Derives .term (factors ++ token :: factor) (.div l r)
  | term {tokens : List (Token Kind)} {e : Expr} (h : Derives .term tokens e) :
      Derives .expression tokens e
  | plus {terms term : List (Token Kind)} {token : Token Kind} {l r : Expr}
      (lhs : Derives .expression terms l) (kind : token.kind = .operator .add)
      (rhs : Derives .term term r) : Derives .expression (terms ++ token :: term) (.add l r)
  | minus {terms term : List (Token Kind)} {token : Token Kind} {l r : Expr}
      (lhs : Derives .expression terms l) (kind : token.kind = .operator .sub)
      (rhs : Derives .term term r) : Derives .expression (terms ++ token :: term) (.sub l r)

/-- What a `+` or a `-` is. -/
inductive Role where
  | sign | operator
deriving DecidableEq

def Expr.roles : Expr → List Role
  | .imaginary sign _ | .real sign _ => sign.toList.map fun _ => .sign
  | .add lhs rhs | .sub lhs rhs => lhs.roles ++ .operator :: rhs.roles
  | .mul lhs rhs | .div lhs rhs => lhs.roles ++ rhs.roles
  | .conj arg | .abs arg => arg.roles

/-- What the `+` and the `-` among tokens are by their place alone: a sign where a factor starts,
which is in front of all tokens if `start` says so, after an operator and after an opening
parenthesis, and an operator everywhere else. -/
def rolesFrom (start : Bool) : List (Token Kind) → List Role
  | [] => []
  | token :: rest =>
    match token.kind with
    | .operator .add | .operator .sub =>
      if start then .sign :: rolesFrom false rest else .operator :: rolesFrom true rest
    | .operator _ | .opening => rolesFrom true rest
    | _ => rolesFrom false rest

theorem Signs.rolesFrom {signs rest : List (Token Kind)} {sign : Option Sign}
    (h : Signs signs sign) (hrest : rolesFrom true rest = rolesFrom false rest) :
    rolesFrom true (signs ++ rest) =
      (sign.toList.map fun _ => Role.sign) ++ Complex.rolesFrom false rest := by
  cases h with
  | none => exact hrest
  | some sign kind => cases sign <;> simp [Complex.rolesFrom, kind, Sign.operator]

theorem Counts.rolesFrom {numbers rest : List (Token Kind)} {unit : Token Kind}
    {magnitude : Option Float} (h : Counts numbers magnitude) (kind : unit.kind = .unit)
    (start : Bool) : rolesFrom start (numbers ++ unit :: rest) = Complex.rolesFrom false rest := by
  cases h with
  | none => simp [Complex.rolesFrom, kind]
  | some number => simp [Complex.rolesFrom, kind, number]

/-- However tokens are derived, the place of a `+` or a `-` decides what it is. -/
theorem Derives.rolesFrom {p : Phrase} {tokens : List (Token Kind)} {e : Expr}
    (h : Derives p tokens e) (rest : List (Token Kind)) :
    rolesFrom true (tokens ++ rest) = e.roles ++ Complex.rolesFrom false rest := by
  induction h generalizing rest with
  | imaginary signed counted kind =>
    simp only [List.append_assoc, List.singleton_append]
    rw [signed.rolesFrom (by rw [counted.rolesFrom kind, counted.rolesFrom kind]),
      counted.rolesFrom kind]
    rfl
  | real signed kind read =>
    rw [List.append_assoc, List.singleton_append,
      signed.rolesFrom (by simp [Complex.rolesFrom, kind])]
    simp [Complex.rolesFrom, kind, Expr.roles]
  | conj kind opens closes _ ih | abs kind opens closes _ ih =>
    simp only [List.cons_append, List.append_assoc, List.nil_append, Complex.rolesFrom, kind, opens,
      ih, closes, Expr.roles]
  | group opens closes _ ih =>
    simp only [List.cons_append, List.append_assoc, List.nil_append, Complex.rolesFrom, opens, ih,
      closes]
  | factor _ ih | term _ ih => exact ih rest
  | times _ kind _ ihl ihr | divided _ kind _ ihl ihr | plus _ kind _ ihl ihr
  | minus _ kind _ ihl ihr =>
    rw [List.append_assoc, List.cons_append, ihl]
    simp [Complex.rolesFrom, kind, ihr, Expr.roles]

end Calculator.Complex
