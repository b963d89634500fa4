import Calculator.Number.Notation
import Calculator.Elementary

/-!
Polynomials in `x` as lists of coefficients, in descending powers. Operations combine
coefficients in one fixed order and drop none: leading zeros are kept, so the degree is nominal.
The coefficients may be of any number type; the text of a polynomial is for doubles.
-/

set_option autoImplicit false
set_option relaxedAutoImplicit false

namespace Calculator

/-- A polynomial: at least one coefficient, in descending powers. -/
structure Polynomial (α : Type) where
  coeffs : List α
  nonempty : coeffs ≠ []

namespace Polynomial

variable {α : Type}

instance [BEq α] : BEq (Polynomial α) := ⟨fun p q => p.coeffs == q.coeffs⟩

def constant (c : α) : Polynomial α := ⟨[c], by simp⟩

/-- The polynomial with the given coefficients, zero if there are none. -/
def ofCoeffs [Zero α] : List α → Polynomial α
  | [] => constant 0
  | c :: rest => ⟨c :: rest, by simp⟩

def identity [Zero α] [One α] : Polynomial α := ⟨[1, 0], by simp⟩

/-- One less than the number of coefficients. -/
def degree (p : Polynomial α) : Nat := p.coeffs.length - 1

def constant? (p : Polynomial α) : Option α :=
  match p.coeffs with
  | [c] => some c
  | _ => none

/-- The value at `x`, by Horner's rule. -/
def eval [Zero α] [Add α] [Mul α] (p : Polynomial α) (x : α) : α :=
  p.coeffs.foldl (fun value c => value * x + c) 0

/-- The power rule, without the constant term. The power of a coefficient is the number of
coefficients after it. -/
def powerRule [Mul α] [NatCast α] : List α → List α
  | [] => []
  | [_] => []
  | c :: d :: rest => c * ((rest.length + 1 : Nat) : α) :: powerRule (d :: rest)

/-- The derivative. That of a constant is zero. -/
def derivative [Zero α] [Mul α] [NatCast α] (p : Polynomial α) : Polynomial α :=
  ofCoeffs (powerRule p.coeffs)

def padTo [Zero α] (length : Nat) (coeffs : List α) : List α :=
  List.replicate (length - coeffs.length) 0 ++ coeffs

/-- Combine two polynomials power by power, a missing coefficient counting as zero. -/
def zipAligned [Zero α] (f : α → α → α) (p q : Polynomial α) : Polynomial α where
  coeffs :=
    List.zipWith f (padTo q.coeffs.length p.coeffs) (padTo p.coeffs.length q.coeffs)
  nonempty := by
    have hp := List.length_pos_iff.mpr p.nonempty
    have hq := List.length_pos_iff.mpr q.nonempty
    apply List.ne_nil_of_length_pos
    simp only [List.length_zipWith, padTo, List.length_append, List.length_replicate]
    omega

def addRow [Add α] [Mul α] (a : α) : List α → List α → List α
  | b :: row, cell :: cells => (cell + a * b) :: addRow a row cells
  | _, cells => cells

/-- Add the multiples of a row for each of the given coefficients, every row one cell further on
than the one before. -/
def addRows [Add α] [Mul α] (row : List α) : List α → List α → List α
  | [], cells => cells
  | a :: rest, cells =>
    match addRow a row cells with
    | [] => []
    | cell :: cells => cell :: addRows row rest cells

theorem length_addRow [Add α] [Mul α] (a : α) (row cells : List α) :
    (addRow a row cells).length = cells.length := by
  induction row generalizing cells with
  | nil => cases cells <;> rfl
  | cons b row ih =>
    cases cells with
    | nil => rfl
    | cons cell cells => simp [addRow, ih]

theorem length_addRows [Add α] [Mul α] (row rest cells : List α) :
    (addRows row rest cells).length = cells.length := by
  induction rest generalizing cells with
  | nil => rfl
  | cons a rest ih =>
    have h := length_addRow a row cells
    unfold addRows
    split
    · next hnil => rw [hnil] at h; exact h
    · next cell tail hcons => rw [hcons] at h; simpa [ih] using h

/-- The product: every coefficient is a sum that starts at zero and takes its terms in the order
of the first factor's coefficients. -/
def product [Zero α] [Add α] [Mul α] (p q : Polynomial α) : Polynomial α where
  coeffs :=
    addRows q.coeffs p.coeffs (List.replicate (p.coeffs.length + q.coeffs.length - 1) 0)
  nonempty := by
    have hp := List.length_pos_iff.mpr p.nonempty
    have hq := List.length_pos_iff.mpr q.nonempty
    apply List.ne_nil_of_length_pos
    rw [length_addRows, List.length_replicate]
    omega

instance [Zero α] [Add α] : Add (Polynomial α) := ⟨zipAligned (· + ·)⟩

instance [Zero α] [Sub α] : Sub (Polynomial α) := ⟨zipAligned (· - ·)⟩

instance [Zero α] [Add α] [Mul α] : Mul (Polynomial α) := ⟨product⟩

instance [Neg α] : Neg (Polynomial α) :=
  ⟨fun p => ⟨p.coeffs.map (- ·), by simpa using p.nonempty⟩⟩

/-- A power, by repeated multiplication from one. -/
def pow [Zero α] [One α] [Add α] [Mul α] (p : Polynomial α) : Nat → Polynomial α
  | 0 => constant 1
  | n + 1 => pow p n * p

def joint (first : Bool) (c : Float) : String :=
  if first then (if c < 0 then "-" else "")
  else if 0 < c then " + " else " - "

def term (c : Float) (power : Nat) : String :=
  let magnitude := c.abs
  let factor := if magnitude != 1 || power = 0 then Number.plain magnitude else ""
  match power with
  | 0 => factor
  | 1 => factor ++ "x"
  | _ => factor ++ "x^" ++ String.ofList (Decimal.digits power)

def renderFrom (first : Bool) : List Float → String
  | [] => if first then "0" else ""
  | c :: rest =>
    if c == 0 then renderFrom first rest
    else joint first c ++ term c rest.length ++ renderFrom false rest

def render (p : Polynomial Float) : String := renderFrom true p.coeffs

end Polynomial

end Calculator
