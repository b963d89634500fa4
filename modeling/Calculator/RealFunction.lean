import Calculator.Polynomial

/-!
Real functions of `x`. A function is kept as a polynomial for as long as every operation on it can
be carried out on coefficients; a division, a call of a named function, or a power that cannot be
expanded makes it a tree that can only be evaluated.
-/

set_option autoImplicit false
set_option relaxedAutoImplicit false

namespace Calculator

/-- A function of `x` that is evaluated by walking a tree. -/
inductive Node (α : Type) where
  | polynomial (p : Polynomial α)
  | neg (operand : Node α)
  | binary (op : Operator) (lhs rhs : Node α)
  | call (f : Builtin) (arg : Node α)
  | difference (inner : Node α) (step : α)
deriving BEq

/-- A function of `x`: a polynomial in exact form, or a tree. -/
inductive RealFunction (α : Type) where
  | exact (p : Polynomial α)
  | numeric (node : Node α)
deriving BEq

variable {α : Type}

namespace Node

/-- The value at `x`. A difference node is the central difference quotient of the inner
function. -/
def eval [Zero α] [NatCast α] [Neg α] [Add α] [Sub α] [Mul α] [Div α] [Elementary α] :
    Node α → α → α
  | .polynomial p, x => p.eval x
  | .neg operand, x => -operand.eval x
  | .binary op lhs rhs, x => op.apply (lhs.eval x) (rhs.eval x)
  | .call f arg, x => Elementary.call f (arg.eval x)
  | .difference inner step, x =>
    (inner.eval (x + step) - inner.eval (x - step)) / (((2 : Nat) : α) * step)

def size : Node α → Nat
  | .polynomial _ => 1
  | .neg operand => 1 + operand.size
  | .binary _ lhs rhs => 1 + (lhs.size + rhs.size)
  | .call _ arg => 1 + arg.size
  | .difference inner _ => 1 + inner.size

end Node

namespace RealFunction

def defaultMaxPower : Nat := 64

def constant (c : α) : RealFunction α := .exact (Polynomial.constant c)

def identity [Zero α] [One α] : RealFunction α := .exact Polynomial.identity

def toNode : RealFunction α → Node α
  | .exact p => .polynomial p
  | .numeric node => node

def polynomial? : RealFunction α → Option (Polynomial α)
  | .exact p => some p
  | .numeric _ => none

def eval [Zero α] [NatCast α] [Neg α] [Add α] [Sub α] [Mul α] [Div α] [Elementary α] :
    RealFunction α → α → α
  | .exact p, x => p.eval x
  | .numeric node, x => node.eval x

def differenceStep [OfScientific α] : α := 1e-5

/-- The derivative: by the power rule for a polynomial, and as a central difference otherwise. -/
def derivative [Zero α] [Mul α] [NatCast α] [OfScientific α] : RealFunction α → RealFunction α
  | .exact p => .exact p.derivative
  | .numeric node => .numeric (.difference node differenceStep)

def call (f : Builtin) (arg : RealFunction α) : RealFunction α := .numeric (.call f arg.toNode)

def neg [Neg α] : RealFunction α → RealFunction α
  | .exact p => .exact (-p)
  | .numeric node => .numeric (.neg node)

/-- The exponent a power is expanded with: the natural number nearest to a constant exponent, if
it is within the bound. -/
def exactPower? [Elementary α] (maxPower : Nat) (exponent : Polynomial α) : Option Nat :=
  (exponent.constant?.bind Elementary.nearestNat?).filter (· ≤ maxPower)

/-- Raise to a power. A polynomial to a constant power is expanded, the exponent being rounded to
the nearest natural number; any other power is a tree. -/
def pow [Zero α] [One α] [Add α] [Mul α] [Elementary α] (maxPower : Nat) :
    RealFunction α → RealFunction α → RealFunction α
  | .exact base, .exact exponent =>
    match exactPower? maxPower exponent with
    | some n => .exact (base.pow n)
    | none => .numeric (.binary .pow (.polynomial base) (.polynomial exponent))
  | base, exponent => .numeric (.binary .pow base.toNode exponent.toNode)

/-- Combine two functions with an operator, in exact form where that is possible. -/
def binary [Zero α] [One α] [Add α] [Sub α] [Mul α] [Elementary α] :
    Operator → RealFunction α → RealFunction α → RealFunction α
  | .add, .exact p, .exact q => .exact (p + q)
  | .sub, .exact p, .exact q => .exact (p - q)
  | .mul, .exact p, .exact q => .exact (p * q)
  | .pow, base, exponent => pow defaultMaxPower base exponent
  | op, lhs, rhs => .numeric (.binary op lhs.toNode rhs.toNode)

end RealFunction

end Calculator
