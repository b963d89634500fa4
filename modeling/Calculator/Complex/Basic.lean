import Calculator.Number.Notation

/-!
Complex numbers over doubles, and their canonical text with three decimals for each part.
-/

set_option autoImplicit false
set_option relaxedAutoImplicit false

namespace Calculator

structure Complex where
  re : Float
  im : Float
deriving DecidableEq

namespace Complex

instance : BEq Complex := ⟨fun z w => z.re == w.re && z.im == w.im⟩

def real (re : Float) : Complex := ⟨re, 0⟩

def imaginary (im : Float) : Complex := ⟨0, im⟩

instance : Add Complex := ⟨fun z w => ⟨z.re + w.re, z.im + w.im⟩⟩

instance : Sub Complex := ⟨fun z w => ⟨z.re - w.re, z.im - w.im⟩⟩

instance : Mul Complex :=
  ⟨fun z w => ⟨z.re * w.re - z.im * w.im, z.re * w.im + z.im * w.re⟩⟩

instance : Neg Complex := ⟨fun z => ⟨-z.re, -z.im⟩⟩

/-- The square of the modulus, as it is computed for a division. -/
def squaredModulus (z : Complex) : Float := z.re * z.re + z.im * z.im

/-- The quotient, unless the divisor's squared modulus comes out as zero. -/
def div? (z w : Complex) : Option Complex :=
  let modulus := w.squaredModulus
  if modulus == 0 then none
  else some ⟨(z.re * w.re + z.im * w.im) / modulus, (z.im * w.re - z.re * w.im) / modulus⟩

def conj (z : Complex) : Complex := ⟨z.re, -z.im⟩

/-- The modulus. It does not overflow where the modulus itself is a double. -/
def abs (z : Complex) : Float := Binary64.hypot z.re z.im

def approxEq (z w : Complex) (distance : Float) : Bool :=
  (z.re - w.re).abs ≤ distance && (z.im - w.im).abs ≤ distance

/-- The magnitude below which a part is left out of the text. -/
def negligible : Float := 1e-12

/-- The text of a number: only one part where the other is negligible, and otherwise both with a
spaced sign between them. -/
def render (z : Complex) : String :=
  if z.im.abs < negligible then Number.fixed 3 z.re
  else if z.re.abs < negligible then
    (if z.im < 0 then "-" else "") ++ Number.fixed 3 z.im.abs ++ "i"
  else
    Number.fixed 3 z.re ++ (if z.im < 0 then " - " else " + ") ++ Number.fixed 3 z.im.abs ++ "i"

end Complex

end Calculator
