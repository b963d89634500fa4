import Calculator.Number.Rounding

/-!
Doubles as integers. The magnitude of a finite double is `significand * 2 ^ shift` units of
`2 ^ -1074`, and its magnitude field, the 63 bits below the sign, is the integer
`shift * 2 ^ 52 + significand`. Magnitude fields are ordered as the magnitudes are, so that a
carry out of the significand lands on the next double without a case distinction.
-/

set_option autoImplicit false
set_option relaxedAutoImplicit false

namespace Calculator

/-- A double by its exact value. -/
inductive Binary64 where
  | nan
  | infinite (negative : Bool)
  | finite (negative : Bool) (significand shift : Nat)
deriving DecidableEq

namespace Binary64

/-- The least significand of a double that has all of its 53 bits. -/
def hiddenBit : Nat := 1 <<< 52

/-- The magnitude field of infinity; the fields above it are those of NaN. -/
def infinityField : Nat := 2047 * hiddenBit

/-- The least bit pattern with the sign bit; below it a bit pattern is a magnitude field. -/
def signBit : Nat := 1 <<< 63

def ofField (negative : Bool) (field : Nat) : Binary64 :=
  if field < hiddenBit then .finite negative field 0
  else if field < infinityField then
    .finite negative (hiddenBit + field % hiddenBit) (field / hiddenBit - 1)
  else if field = infinityField then .infinite negative
  else .nan

def ofFloat (x : Float) : Binary64 :=
  let bits := x.toBits.toNat
  ofField (decide (signBit ≤ bits)) (bits % signBit)

/-- Whether a double is less than zero or the negative zero. -/
def isNegative (x : Float) : Bool :=
  match ofFloat x with
  | .nan => false
  | .infinite negative => negative
  | .finite negative _ _ => negative

def floatOfField (field : Nat) : Float := Float.ofBits (UInt64.ofNat field)

def infinity : Float := floatOfField infinityField

def quietNaN : Float := floatOfField (infinityField + 1 <<< 51)

/-- The magnitude field of the double nearest to a quotient, ties to the even significand.
Quotients past the largest double by half a step or more give the field of infinity. -/
def nearestField (num den : Nat) : Nat :=
  let units := num <<< 1074
  let shift := Nat.log2 (units / den) - 52
  Nat.min (shift * hiddenBit + Rounding.halfEven units (den <<< shift)) infinityField

def nearest (num den : Nat) : Float := floatOfField (nearestField num den)

/-- The numerator of `significand * 2 ^ shift` units, over `unitsDen`. -/
def unitsNum (significand shift : Nat) : Nat := significand <<< (shift - 1074)

/-- The denominator of a number of units with the given shift. -/
def unitsDen (shift : Nat) : Nat := 1 <<< (1074 - shift)

/-- The nearest natural number to a double, halves away from zero. There is none for NaN, for an
infinity, and for a double that rounds to a negative integer. -/
def nearestNat? (x : Float) : Option Nat :=
  match ofFloat x with
  | .finite negative significand shift =>
    let rounded := Rounding.halfUp (unitsNum significand shift) (unitsDen shift)
    if negative && rounded != 0 then none else some rounded
  | _ => none

/-- Bits kept below the point of a square root before it is rounded to a double. -/
private def rootGuard : Nat := 64

/-- The double nearest to the length of a right triangle's hypotenuse. An infinite leg makes it
infinite, also beside a NaN. -/
def hypot (x y : Float) : Float :=
  match ofFloat x, ofFloat y with
  | .infinite _, _ => infinity
  | _, .infinite _ => infinity
  | .finite _ m s, .finite _ n t =>
    let low := Nat.min s t
    let a := m <<< (s - low)
    let b := n <<< (t - low)
    let square := (a * a + b * b) <<< (2 * rootGuard)
    let root := Rounding.floorSqrt square
    let sticky := if root * root = square then 2 * root else 2 * root + 1
    nearest (unitsNum sticky low) (unitsDen low <<< (rootGuard + 1))
  | _, _ => quietNaN

end Binary64

end Calculator
