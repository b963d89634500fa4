import Calculator.Log
import Calculator.RealFunction

/-!
Formulas in `x`, as they are read, and the functions they stand for. A formula keeps no
parentheses and no plus signs; compiling it is a fold over its shape.
-/

set_option autoImplicit false
set_option relaxedAutoImplicit false

namespace Calculator

inductive Formula where
  | number (value : Float)
  | variable
  | neg (operand : Formula)
  | binary (op : Operator) (lhs rhs : Formula)
  | call (f : Builtin) (arg : Formula)
deriving DecidableEq

namespace Formula

def euler : Float := 2.718281828459045

/-- The function that a formula stands for, expanding powers up to a bound. -/
def compile (maxPower : Nat) : Formula → RealFunction Float
  | .number value => .constant value
  | .variable => .identity
  | .neg operand => (operand.compile maxPower).neg
  | .binary .pow base exponent =>
    .pow maxPower (base.compile maxPower) (exponent.compile maxPower)
  | .binary op lhs rhs => .binary op (lhs.compile maxPower) (rhs.compile maxPower)
  | .call f arg => .call f (arg.compile maxPower)

/-- What is logged for a power: a line where base and exponent are polynomials and the power
cannot be expanded. -/
def powerLog (maxPower : Nat) (power : Formula × Formula) : List Log.Entry :=
  match power.1.compile maxPower, power.2.compile maxPower with
  | .exact _, .exact exponent =>
    match RealFunction.exactPower? maxPower exponent with
    | some _ => []
    | none =>
      [⟨.debug, "power with exponent `" ++ exponent.render ++ "` cannot be expanded exactly"⟩]
  | _, _ => []

def resultLog (f : RealFunction Float) : Log.Entry :=
  match f with
  | .exact p => ⟨.debug, "compiled to the polynomial " ++ p.render⟩
  | .numeric node =>
    ⟨.debug, "compiled to an opaque function of " ++ toString node.size ++ " nodes"⟩

end Formula

end Calculator
