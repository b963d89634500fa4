import Calculator.Arith.Parser

/-!
The grammar of arithmetic, apart from any way of reading it:

    Expression := Term (('+' | '-') Term)*
    Term       := Power (('*' | '/') Power)*
    Power      := Atom ('^' Power)?
    Atom       := Number | Name '(' Expression ')' | '(' Expression ')'

A repetition is written with the phrase so far on its left, so that a derivation already says how
its operands group. Parentheses leave no node; every other token is part of one.
-/

set_option autoImplicit false
set_option relaxedAutoImplicit false

namespace Calculator.Arith

inductive Phrase where
  | expression | term | power | atom
deriving DecidableEq

/-- How tightly the parts of a phrase hold together. -/
def Phrase.rank : Phrase → Nat
  | .expression => 0
  | .term => 1
  | .power => 2
  | .atom => 3

def Expr.join (op : Operator) (opSpan : Span) (lhs rhs : Expr) : Expr :=
  .binary op opSpan lhs rhs (Span.through lhs.span rhs.span)

/-- The tokens that form a phrase, and the expression it stands for. -/
inductive Derives : Phrase → List (Token Kind) → Expr → Prop
  | number {token : Token Kind} {value : Float} (kind : token.kind = .number)
      (read : Number.read? token.lexeme = some value) :
      Derives .atom [token] (.literal value token.span)
  | call {name opening closing : Token Kind} {inner : List (Token Kind)} {f : Builtin} {arg : Expr}
      (kind : name.kind = .name) (known : Builtin.ofName? name.text = some f)
      (opens : opening.kind = .opening) (closes : closing.kind = .closing)
      (inside : Derives .expression inner arg) :
      Derives .atom (name :: opening :: (inner ++ [closing]))
        (.call f arg (Span.through name.span closing.span))
  | group {opening closing : Token Kind} {inner : List (Token Kind)} {e : Expr}
      (opens : opening.kind = .opening) (closes : closing.kind = .closing)
      (inside : Derives .expression inner e) :
      Derives .atom (opening :: (inner ++ [closing])) e
  | atom {tokens : List (Token Kind)} {e : Expr} (h : Derives .atom tokens e) :
      Derives .power tokens e
  | raised {base exponent : List (Token Kind)} {token : Token Kind} {l r : Expr}
      (lhs : Derives .atom base l) (kind : token.kind = .operator .pow)
      (rhs : Derives .power exponent r) :
      Derives .power (base ++ token :: exponent) (.join .pow token.span l r)
  | power {tokens : List (Token Kind)} {e : Expr} (h : Derives .power tokens e) :
      Derives .term tokens e
  | scaled {factors factor : List (Token Kind)} {token : Token Kind} {op : Operator} {l r : Expr}
      (lhs : Derives .term factors l) (kind : token.kind = .operator op)
      (scales : op = .mul ∨ op = .div) (rhs : Derives .power factor r) :
      Derives .term (factors ++ token :: factor) (.join op token.span l r)
  | term {tokens : List (Token Kind)} {e : Expr} (h : Derives .term tokens e) :
      Derives .expression tokens e
  | shifted {terms term : List (Token Kind)} {token : Token Kind} {op : Operator} {l r : Expr}
      (lhs : Derives .expression terms l) (kind : token.kind = .operator op)
      (shifts : op = .add ∨ op = .sub) (rhs : Derives .term term r) :
      Derives .expression (terms ++ token :: term) (.join op token.span l r)

/-! The search for the end of a group, token by token. -/

def prepend (tokens : List (Token Kind))
    (found : List (Token Kind) × Token Kind × List (Token Kind)) :
    List (Token Kind) × Token Kind × List (Token Kind) :=
  (tokens ++ found.1, found.2)

theorem map_prepend_append (first second : List (Token Kind))
    (found : Option (List (Token Kind) × Token Kind × List (Token Kind))) :
    found.map (prepend (first ++ second)) = (found.map (prepend second)).map (prepend first) := by
  cases found with
  | none => rfl
  | some found => simp [prepend]

section Split

variable {depth : Nat} {token : Token Kind} {rest : List (Token Kind)}

theorem splitClosing_opening (kind : token.kind = .opening) :
    splitClosing depth (token :: rest) = (splitClosing (depth + 1) rest).map (prepend [token]) := by
  simp only [splitClosing, kind]
  rfl

theorem splitClosing_closing (kind : token.kind = .closing) :
    splitClosing (depth + 1) (token :: rest) = (splitClosing depth rest).map (prepend [token]) := by
  simp only [splitClosing, kind]
  rfl

theorem splitClosing_end (kind : token.kind = .closing) :
    splitClosing 0 (token :: rest) = some ([], token, rest) := by
  simp only [splitClosing, kind]

theorem splitClosing_other (opening : token.kind ≠ .opening) (closing : token.kind ≠ .closing) :
    splitClosing depth (token :: rest) = (splitClosing depth rest).map (prepend [token]) := by
  cases hk : token.kind with
  | opening => exact absurd hk opening
  | closing => exact absurd hk closing
  | number | name | operator | symbol =>
    simp only [splitClosing, hk]
    rfl

theorem eq_of_splitClosing {tokens inner after : List (Token Kind)} {closing : Token Kind}
    (h : splitClosing depth tokens = some (inner, closing, after)) :
    tokens = inner ++ closing :: after ∧ closing.kind = .closing := by
  induction tokens generalizing depth inner with
  | nil => simp [splitClosing] at h
  | cons token rest ih =>
    have deeper : ∀ inside : Nat,
        (splitClosing inside rest).map (prepend [token]) = some (inner, closing, after) →
          token :: rest = inner ++ closing :: after ∧ closing.kind = .closing := by
      intro inside h
      obtain ⟨⟨i, c, a⟩, hs, he⟩ := Option.map_eq_some_iff.mp h
      simp only [prepend, Prod.mk.injEq] at he
      obtain ⟨rfl, rfl, rfl⟩ := he
      obtain ⟨rfl, hk⟩ := ih hs
      exact ⟨rfl, hk⟩
    by_cases hopen : token.kind = .opening
    · exact deeper _ (splitClosing_opening hopen ▸ h)
    by_cases hclose : token.kind = .closing
    · cases depth with
      | succ depth => exact deeper depth (splitClosing_closing hclose ▸ h)
      | zero =>
        rw [splitClosing_end hclose] at h
        simp only [Option.some.injEq, Prod.mk.injEq] at h
        obtain ⟨rfl, rfl, rfl⟩ := h
        exact ⟨rfl, hclose⟩
    · exact deeper depth (splitClosing_other hopen hclose ▸ h)

end Split

namespace Derives

variable {p q : Phrase} {tokens : List (Token Kind)} {e : Expr}

theorem ne_nil (h : Derives p tokens e) : tokens ≠ [] := by
  induction h with
  | number | call | group => simp
  | atom _ ih | power _ ih | term _ ih => exact ih
  | raised | scaled | shifted => simp

theorem loosen (h : Derives q tokens e) (hle : p.rank ≤ q.rank) : Derives p tokens e := by
  have power (h : Derives .power tokens e) (hle : p.rank ≤ 2) : Derives p tokens e := by
    cases p with
    | expression => exact .term (.power h)
    | term => exact .power h
    | power => exact h
    | atom => simp [Phrase.rank] at hle
  cases q with
  | atom =>
    cases p with
    | atom => exact h
    | expression | term | power => exact power (.atom h) (by decide)
  | power => exact power h hle
  | term =>
    cases p with
    | expression => exact .term h
    | term => exact h
    | power | atom => simp [Phrase.rank] at hle
  | expression =>
    cases p with
    | expression => exact h
    | term | power | atom => simp [Phrase.rank] at hle

/-- A phrase closes every parenthesis that it opens, so that the search for the end of a group
passes it over. -/
theorem splitClosing_append (h : Derives p tokens e) (depth : Nat) (rest : List (Token Kind)) :
    splitClosing depth (tokens ++ rest) = (splitClosing depth rest).map (prepend tokens) := by
  induction h generalizing depth rest with
  | number kind =>
    exact splitClosing_other (by simp [kind]) (by simp [kind])
  | call kind _ opens closes _ ih =>
    simp only [List.cons_append, List.append_assoc, List.nil_append]
    rw [splitClosing_other (by simp [kind]) (by simp [kind]), splitClosing_opening opens, ih,
      splitClosing_closing closes]
    simp only [← map_prepend_append, List.cons_append, List.nil_append]
  | group opens closes _ ih =>
    simp only [List.cons_append, List.append_assoc, List.nil_append]
    rw [splitClosing_opening opens, ih, splitClosing_closing closes]
    simp only [← map_prepend_append, List.cons_append, List.nil_append]
  | atom _ ih | power _ ih | term _ ih => exact ih depth rest
  | raised _ kind _ ihl ihr | scaled _ kind _ _ ihl ihr | shifted _ kind _ _ ihl ihr =>
    simp only [List.append_assoc, List.cons_append]
    rw [ihl, splitClosing_other (by simp [kind]) (by simp [kind]), ihr]
    simp only [← map_prepend_append, List.cons_append, List.nil_append]

end Derives

end Calculator.Arith
