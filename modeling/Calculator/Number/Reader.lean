import Calculator.Number.Decimal

/-!
The text of a number, read as a double. A number is a decimal with an optional sign, an infinity,
or a NaN; anything else is refused.
-/

set_option autoImplicit false
set_option relaxedAutoImplicit false

namespace Calculator.Number

/-- A number as a sign and a magnitude. Here a NaN has a sign too, which a double does not
show. -/
structure Signed where
  negative : Bool
  magnitude : Float
deriving DecidableEq

/-- Read a magnitude. Words are read in any case of letters. -/
def readMagnitude? (text : List Char) : Option Float :=
  let word := text.map Char.toLower
  if word = "inf".toList || word = "infinity".toList then some Binary64.infinity
  else if word = "nan".toList then some Binary64.quietNaN
  else (Decimal.read? text).map Decimal.toFloat

namespace Signed

/-- The sign and the magnitude of a double. Every NaN counts as positive. -/
def ofFloat (x : Float) : Signed :=
  if Binary64.isNegative x then ⟨true, -x⟩ else ⟨false, x⟩

def toFloat (number : Signed) : Float :=
  if number.negative then -number.magnitude else number.magnitude

def read? : List Char → Option Signed
  | '-' :: rest => (readMagnitude? rest).map fun magnitude => ⟨true, magnitude⟩
  | '+' :: rest => (readMagnitude? rest).map fun magnitude => ⟨false, magnitude⟩
  | text => (readMagnitude? text).map fun magnitude => ⟨false, magnitude⟩

end Signed

def read? (text : List Char) : Option Float := (Signed.read? text).map Signed.toFloat

example : ["", ".", "1e", "1_000", "0x10", "+-1"].all (fun text => (read? text.toList).isNone) := by
  decide +kernel

example : (read? "5.".toList, read? "-.5E1".toList) = (some 5, some (-5)) := by decide +kernel

end Calculator.Number
