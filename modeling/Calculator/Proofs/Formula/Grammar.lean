import Calculator.Formula.Basic
import Calculator.Formula.Token
import Calculator.Number.Reader

/-!
The grammar of formulas in `x`, apart from any way of reading them:

    Expression := Term (('+' | '-') Term)*
    Term       := Unary (('*' | '/') Unary | Power)*
    Unary      := ('+' | '-') Unary | Power
    Power      := Primary ('^' Unary)?
    Primary    := Function '(' Expression ')' | '(' Expression ')' | '{' Expression '}'
                | Number | 'x' | 'e'

What a phrase stands for is computed along the derivation, in any domain that has a meaning for
numbers, the variable, signs, operators and functions. The functions of `x` are one such domain,
the formulas themselves are another.
-/

set_option autoImplicit false
set_option relaxedAutoImplicit false

namespace Calculator.Formula

/-- What the parts of a formula mean in some domain. -/
structure Meaning (α : Type) where
  number : Float → α
  identity : α
  neg : α → α
  binary : Operator → α → α → α
  call : Builtin → α → α

variable {α : Type}

def fold (m : Meaning α) : Formula → α
  | .number value => m.number value
  | .variable => m.identity
  | .neg operand => m.neg (operand.fold m)
  | .binary op lhs rhs => m.binary op (lhs.fold m) (rhs.fold m)
  | .call f arg => m.call f (arg.fold m)

def Meaning.function (maxPower : Nat) : Meaning (RealFunction Float) where
  number := .constant
  identity := .identity
  neg := .neg
  binary
    | .pow => .pow maxPower
    | op => .binary op
  call := .call

theorem compile_eq_fold (maxPower : Nat) (f : Formula) :
    f.compile maxPower = f.fold (.function maxPower) := by
  induction f with
  | neg operand ih => exact congrArg RealFunction.neg ih
  | binary op lhs rhs ihl ihr =>
    cases op <;> simp only [compile, fold, Meaning.function, ihl, ihr]
  | call f arg ih => exact congrArg (RealFunction.call f) ih
  | _ => rfl

def Meaning.tree : Meaning Formula where
  number := .number
  identity := .variable
  neg := .neg
  binary := .binary
  call := .call

theorem fold_tree (f : Formula) : f.fold .tree = f := by
  induction f with
  | number | «variable» => rfl
  | neg operand ih => exact congrArg Formula.neg ih
  | binary op lhs rhs ihl ihr => rw [fold, ihl, ihr, Meaning.tree]
  | call b arg ih => exact congrArg (Formula.call b) ih

inductive Phrase where
  | expression | term | unary | power | primary
deriving DecidableEq

/-- The tokens that form a phrase, and what it means. -/
inductive Derives (m : Meaning α) : Phrase → List (Token Kind) → α → Prop
  | number {token : Token Kind} {value : Float} (kind : token.kind = .number)
      (read : Number.read? token.lexeme = some value) :
      Derives m .primary [token] (m.number value)
  | x {token : Token Kind} (kind : token.kind = .variable) :
      Derives m .primary [token] m.identity
  | euler {token : Token Kind} (kind : token.kind = .euler) :
      Derives m .primary [token] (m.number euler)
  | call {name opening closing : Token Kind} {inner : List (Token Kind)} {f : Builtin} {a : α}
      (kind : name.kind = .function f) (opens : opening.kind = .opening .parenthesis)
      (closes : closing.kind = .closing .parenthesis) (inside : Derives m .expression inner a) :
      Derives m .primary (name :: opening :: (inner ++ [closing])) (m.call f a)
  | group {opening closing : Token Kind} {inner : List (Token Kind)} {delimiter : Delimiter}
      {a : α} (opens : opening.kind = .opening delimiter)
      (closes : closing.kind = .closing delimiter) (inside : Derives m .expression inner a) :
      Derives m .primary (opening :: (inner ++ [closing])) a
  | primary {tokens : List (Token Kind)} {a : α} (h : Derives m .primary tokens a) :
      Derives m .power tokens a
  | raised {base exponent : List (Token Kind)} {token : Token Kind} {a b : α}
      (lhs : Derives m .primary base a) (kind : token.kind = .operator .pow)
      (rhs : Derives m .unary exponent b) :
      Derives m .power (base ++ token :: exponent) (m.binary .pow a b)
  | power {tokens : List (Token Kind)} {a : α} (h : Derives m .power tokens a) :
      Derives m .unary tokens a
  | plus {operand : List (Token Kind)} {token : Token Kind} {a : α}
      (kind : token.kind = .operator .add) (h : Derives m .unary operand a) :
      Derives m .unary (token :: operand) a
  | minus {operand : List (Token Kind)} {token : Token Kind} {a : α}
      (kind : token.kind = .operator .sub) (h : Derives m .unary operand a) :
      Derives m .unary (token :: operand) (m.neg a)
  | unary {tokens : List (Token Kind)} {a : α} (h : Derives m .unary tokens a) :
      Derives m .term tokens a
  | scaled {factors factor : List (Token Kind)} {token : Token Kind} {op : Operator} {a b : α}
      (lhs : Derives m .term factors a) (kind : token.kind = .operator op)
      (scales : op = .mul ∨ op = .div) (rhs : Derives m .unary factor b) :
      Derives m .term (factors ++ token :: factor) (m.binary op a b)
  | juxtaposed {factors factor : List (Token Kind)} {a b : α}
      (lhs : Derives m .term factors a) (rhs : Derives m .power factor b) :
      Derives m .term (factors ++ factor) (m.binary .mul a b)
  | term {tokens : List (Token Kind)} {a : α} (h : Derives m .term tokens a) :
      Derives m .expression tokens a
  | shifted {terms term : List (Token Kind)} {token : Token Kind} {op : Operator} {a b : α}
      (lhs : Derives m .expression terms a) (kind : token.kind = .operator op)
      (shifts : op = .add ∨ op = .sub) (rhs : Derives m .term term b) :
      Derives m .expression (terms ++ token :: term) (m.binary op a b)

end Calculator.Formula
