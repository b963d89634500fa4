import Calculator.Diagnostic
import Calculator.Elementary
import Calculator.Number.Notation

/-!
Arithmetic expressions over doubles. Every node knows the region of the input it was read from, so
that a division by zero can be pointed at.
-/

set_option autoImplicit false
set_option relaxedAutoImplicit false

namespace Calculator.Arith

inductive Expr where
  | literal (value : Float) (span : Span)
  | binary (op : Operator) (opSpan : Span) (lhs rhs : Expr) (span : Span)
  | call (f : Builtin) (arg : Expr) (span : Span)
deriving DecidableEq

namespace Expr

def span : Expr → Span
  | .literal _ span => span
  | .binary _ _ _ _ span => span
  | .call _ _ span => span

/-- The value of an expression. Dividing by a number that equals zero is an error, about the
operator and the divisor; all else follows the arithmetic of doubles. -/
def eval : Expr → Except Diagnostic Float
  | .literal value _ => .ok value
  | .binary op opSpan lhs rhs _ => do
    let a ← lhs.eval
    let b ← rhs.eval
    match op.checked? a b with
    | some value => .ok value
    | none => .error (.two opSpan rhs.span .divisionByZero)
  | .call f arg _ => do
    let a ← arg.eval
    .ok (Elementary.call f a)

/-- The text of an expression, with parentheses around every operation. -/
def render : Expr → String
  | .literal value _ => Number.plain value
  | .binary op _ lhs rhs _ =>
    "(" ++ lhs.render ++ " " ++ String.singleton op.symbol ++ " " ++ rhs.render ++ ")"
  | .call f arg _ => f.name ++ "(" ++ arg.render ++ ")"

end Expr

end Calculator.Arith
