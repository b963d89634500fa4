import Calculator.Number.Binary64

/-!
Decimal numbers: reading their text, rounding them to doubles, and finding the shortest one that
rounds to a given double. A decimal is an integer coefficient times a power of ten, so both
directions are integer arithmetic.
-/

set_option autoImplicit false
set_option relaxedAutoImplicit false

namespace Calculator

/-- The non-negative number `coefficient * 10 ^ exponent`. -/
structure Decimal where
  coefficient : Nat
  exponent : Int
deriving DecidableEq

namespace Decimal

def ten (n : Nat) : Nat := Nat.pow 10 n

def digits (n : Nat) : List Char := Nat.toDigits 10 n

def ofDigits (text : List Char) : Nat :=
  text.foldl (fun value c => 10 * value + (c.toNat - '0'.toNat)) 0

/-- The integer power of ten just above a positive quotient: the quotient lies in
`10 ^ (order - 1) ≤ num / den < 10 ^ order`. -/
def order (num den : Nat) : Int :=
  if den ≤ num then ((digits (num / den)).length : Int)
  else 1 - ((digits ((den - 1) / num)).length : Int)

def num (d : Decimal) : Nat := d.coefficient * ten d.exponent.toNat

def den (d : Decimal) : Nat := ten (-d.exponent).toNat

/-- The exponent of a decimal past which it is beyond every double. -/
def largestExponent : Int := 310

/-- The order of a decimal below which it is nearer to zero than to any other double. -/
def smallestOrder : Int := -330

def toFloat (d : Decimal) : Float :=
  if d.coefficient = 0 then 0
  else if largestExponent < d.exponent then Binary64.infinity
  else if ((digits d.coefficient).length : Int) + d.exponent < smallestOrder then 0
  else Binary64.nearest d.num d.den

/-- Read a non-empty run of digits with an optional sign, filling the whole text. -/
def readExponent? (text : List Char) : Option Int :=
  let unsigned (digits : List Char) : Option Nat :=
    if digits.isEmpty || !digits.all Char.isDigit then none else some (ofDigits digits)
  match text with
  | '-' :: rest => (unsigned rest).map fun n => -(n : Int)
  | '+' :: rest => (unsigned rest).map fun n => (n : Int)
  | _ => (unsigned text).map fun n => (n : Int)

def spanDigits (text : List Char) : List Char × List Char :=
  (text.takeWhile Char.isDigit, text.dropWhile Char.isDigit)

/-- Read digits with an optional point, before an optional exponent. At least one digit stands
before or after the point. -/
def read? (text : List Char) : Option Decimal :=
  let (whole, afterWhole) := spanDigits text
  let (fraction, rest) :=
    match afterWhole with
    | '.' :: afterPoint => spanDigits afterPoint
    | _ => ([], afterWhole)
  if whole.isEmpty && fraction.isEmpty then none
  else
    let exponent? :=
      match rest with
      | [] => some 0
      | c :: exponent => if c = 'e' || c = 'E' then readExponent? exponent else none
    exponent?.map fun exponent =>
      ⟨ofDigits (whole ++ fraction), exponent - (fraction.length : Int)⟩

/-- Whether a decimal rounds to the double of the given significand and shift. The bounds are
counted in quarters of a unit in the last place: half a unit either way, a quarter below a power
of two, and a bound itself rounds to an even significand. -/
def roundsTo (significand shift : Nat) (d : Decimal) : Bool :=
  let scale := Binary64.unitsNum 1 shift * d.den
  let point := 4 * d.num * Binary64.unitsDen shift
  let gap := if significand = Binary64.hiddenBit && 0 < shift then 1 else 2
  let low := (4 * significand - gap) * scale
  let high := (4 * significand + 2) * scale
  if significand % 2 = 0 then low ≤ point && point ≤ high else low < point && point < high

/-- The multiple of `10 ^ exponent` that rounds to the double and is nearest to it, the larger of
two that are equally near. -/
def onGrid? (significand shift : Nat) (exponent : Int) : Option Decimal :=
  let num := Binary64.unitsNum significand shift * ten (-exponent).toNat
  let den := Binary64.unitsDen shift * ten exponent.toNat
  let below : Decimal := ⟨num / den, exponent⟩
  let above : Decimal := ⟨num / den + 1, exponent⟩
  if roundsTo significand shift below
      && (2 * (num % den) < den || !roundsTo significand shift above) then some below
  else if roundsTo significand shift above then some above
  else none

def exact (significand shift : Nat) : Decimal :=
  ⟨Binary64.unitsNum significand shift * Nat.pow 5 (1074 - shift), -((1074 - shift : Nat) : Int)⟩

/-- Search ever finer grids for a decimal that rounds to the double. -/
def onGridFrom (significand shift : Nat) : Nat → Int → Decimal
  | 0, _ => exact significand shift
  | tries + 1, exponent =>
    match onGrid? significand shift exponent with
    | some d => d
    | none => onGridFrom significand shift tries (exponent - 1)

/-- The decimal with the fewest digits that rounds to a positive double; of those the nearest to
it. Seventeen digits tell any two doubles apart. -/
def shortest (significand shift : Nat) : Decimal :=
  onGridFrom significand shift 18
    (order (Binary64.unitsNum significand shift) (Binary64.unitsDen shift))

end Decimal

end Calculator
