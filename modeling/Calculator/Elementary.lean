import Calculator.Builtin
import Calculator.Number.Binary64
import Calculator.Operator

/-!
The operations on numbers that the four rules of arithmetic do not give: powers, the functions
with a name, and rounding to a natural number. Everything that computes with functions of `x` is
written over a number type with these, so that the doubles are one reading of it and an exact
field is another.
-/

set_option autoImplicit false
set_option relaxedAutoImplicit false

namespace Calculator

/-- A number type with powers, the named functions, and rounding to the nearest natural number. -/
class Elementary (α : Type) where
  power : α → α → α
  call : Builtin → α → α
  nearestNat? : α → Option Nat

/-- The value of a named function at a double. Outside of its domain that is NaN. -/
def Builtin.evalFloat : Builtin → Float → Float
  | .sine => Float.sin
  | .cosine => Float.cos
  | .tangent => Float.tan
  | .arcsine => Float.asin
  | .arccosine => Float.acos
  | .arctangent => Float.atan
  | .squareRoot => Float.sqrt
  | .naturalLog => Float.log
  | .commonLog => Float.log10
  | .exponential => Float.exp

instance elementaryFloat : Elementary Float where
  power := Float.pow
  call := Builtin.evalFloat
  nearestNat? := Binary64.nearestNat?

instance natCastFloat : NatCast Float := ⟨Float.ofNat⟩

namespace Operator

variable {α : Type} [Add α] [Sub α] [Mul α] [Div α] [Elementary α]

/-- Apply an operator. Division by zero gives what the number type makes of it. -/
def apply : Operator → α → α → α
  | .add, a, b => a + b
  | .sub, a, b => a - b
  | .mul, a, b => a * b
  | .div, a, b => a / b
  | .pow, a, b => Elementary.power a b

/-- Apply an operator, refusing to divide by a number that equals zero. -/
def checked? [Zero α] [BEq α] (op : Operator) (a b : α) : Option α :=
  if op = .div && b == 0 then none else some (op.apply a b)

end Operator

end Calculator
