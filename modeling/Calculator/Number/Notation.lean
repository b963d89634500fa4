import Calculator.Number.Decimal

/-!
Texts of doubles. Each notation decides how the digits are laid out; which digits there are is
settled by the shortest decimal, or by rounding the exact value to a number of places.
-/

set_option autoImplicit false
set_option relaxedAutoImplicit false

namespace Calculator

namespace Decimal

/-- Put a point before the last `places` digits, with zeros in front where digits are missing. -/
def withPoint (places : Nat) (text : List Char) : List Char :=
  if places = 0 then text
  else
    let padded := List.replicate (places + 1 - text.length) '0' ++ text
    padded.take (padded.length - places) ++ '.' :: padded.drop (padded.length - places)

/-- A decimal written out in full, without an exponent. -/
def positional (d : Decimal) : List Char :=
  withPoint (-d.exponent).toNat
    (digits d.coefficient ++ List.replicate d.exponent.toNat '0')

/-- A decimal with one digit before the point, and the power of ten after `mark`. -/
def withExponent (mark : Char) (d : Decimal) : List Char :=
  let text := digits d.coefficient
  let power := d.exponent + ((text.length - 1 : Nat) : Int)
  withPoint (text.length - 1) text ++ mark :: (toString power).toList

/-- A positive quotient rounded to a count of significant digits, an exact half going to the even
neighbour. -/
def significant (count num den : Nat) : Decimal :=
  let exponent := order num den - (count : Int)
  let rounded :=
    Rounding.halfEven (num * ten (-exponent).toNat) (den * ten exponent.toNat)
  if rounded = ten count then ⟨ten (count - 1), exponent + 1⟩ else ⟨rounded, exponent⟩

end Decimal

namespace Number

/-- Write the sign and the special values; `finite` writes the magnitude of the rest. A NaN has
no sign. -/
def write (finite : Nat → Nat → List Char) (x : Float) : String :=
  let signed (negative : Bool) (text : List Char) : String :=
    String.ofList (if negative then '-' :: text else text)
  match Binary64.ofFloat x with
  | .nan => "NaN"
  | .infinite negative => signed negative "inf".toList
  | .finite negative significand shift => signed negative (finite significand shift)

/-- The magnitude of a double in full: the shortest digits that read back, no exponent, and no
point after an integer. -/
def plainMagnitude (significand shift : Nat) : List Char :=
  if significand = 0 then ['0'] else (Decimal.shortest significand shift).positional

def plain (x : Float) : String := write plainMagnitude x

def fixedMagnitude (places significand shift : Nat) : List Char :=
  Decimal.withPoint places <| Decimal.digits <|
    Rounding.halfEven (Binary64.unitsNum significand shift * Decimal.ten places)
      (Binary64.unitsDen shift)

def fixed (places : Nat) (x : Float) : String := write (fixedMagnitude places) x

/-- The text of a number with a fixed count of significant digits and an exponent, correctly
rounded. -/
def scientific (count : Nat) (x : Float) : String :=
  write (fun significand shift =>
    if significand = 0 then Decimal.withPoint (count - 1) (List.replicate count '0') ++ ['e', '0']
    else
      (Decimal.significant count (Binary64.unitsNum significand shift)
        (Binary64.unitsDen shift)).withExponent 'e') x

/-- The text of a number that also shows that it is not an integer type: there is always a point
or an exponent, and magnitudes below `1e-4` or from `1e16` on have an exponent. -/
def marked (x : Float) : String :=
  write (fun significand shift =>
    if significand = 0 then ['0', '.', '0']
    else
      let d := Decimal.shortest significand shift
      let leading := d.exponent + ((Decimal.digits d.coefficient).length : Int)
      if leading < -3 || 16 < leading then d.withExponent 'e'
      else if d.exponent < 0 then d.positional
      else d.positional ++ ['.', '0']) x

example : plain 1e21 = "1000000000000000000000" ∧ plain 1e-7 = "0.0000001" := by decide +kernel

example : plain 0.1 = "0.1" ∧ plain (-0.0) = "-0" ∧ plain 5.0 = "5" := by decide +kernel

example : fixed 3 0.0625 = "0.062" ∧ fixed 3 (-2.5) = "-2.500" := by decide +kernel

example : scientific 3 1235.0 = "1.24e3" ∧ scientific 1 0.00025 = "3e-4" := by decide +kernel

example : marked 1e16 = "1e16" ∧ marked 1e-5 = "1e-5" ∧ marked 0.0001 = "0.0001" := by
  decide +kernel

end Number

end Calculator
