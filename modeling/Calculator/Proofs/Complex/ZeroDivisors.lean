import Calculator.Complex.Parser
import Calculator.Proofs.Number.Operations

/-!
Divisors that count as zero. A division is refused if the squared modulus of its divisor comes out
as zero. Squares are not negative, so their sum comes out as zero only if both of them do, and a
square does so if it is no more than half the least double. The zeros are such divisors, but so is
every number whose parts are small enough for their squares to be lost.
-/

set_option autoImplicit false
set_option relaxedAutoImplicit false

namespace Calculator

namespace Binary64

open Float.Model.UnpackedFloat

variable {x y : Float}

theorem square_cases (hx : x.isFinite = true) : ((x * x).isFinite = true ∧ 0 ≤ units (x * x)) ∨
    unpacked (x * x) = .infinity .positive := by
  have hnearest := isNearest_mul hx hx
  obtain ⟨n, hn⟩ := Int.eq_ofNat_of_zero_le (mul_self_nonneg (units x))
  rw [hn] at hnearest
  cases hfinite : (x * x).isFinite with
  | true =>
    left
    rw [hnearest.units_eq unitsOfOne_pos hfinite, nearestInt_natCast unitsOfOne_pos]
    exact ⟨rfl, Int.natCast_nonneg _⟩
  | false =>
    right
    obtain ⟨hne, s, hsign, hinfinite⟩ := hnearest.infinite unitsOfOne_pos hfinite
    cases s with
    | positive => exact hinfinite
    | negative =>
      rw [Sign.apply] at hsign
      omega

theorem isZero_square_iff (hx : x.isFinite = true) :
    IsZero (x * x) ↔ 2 * ((units x).natAbs * (units x).natAbs) ≤ unitsOfOne := by
  rw [← Int.natAbs_mul]
  exact (isNearest_mul hx hx).isZero_iff unitsOfOne_pos

theorem add_infinity {u v : Float.Model.UnpackedFloat}
    (hu : u.isFinite = true ∨ u = .infinity .positive)
    (hv : v.isFinite = true ∨ v = .infinity .positive)
    (h : u = .infinity .positive ∨ v = .infinity .positive) :
    add .binary64 u v = .infinity .positive := by
  rcases h with rfl | rfl
  · rcases hv with hv | rfl
    · cases v with
      | notANumber | infinity => cases hv
      | zero | finite => rfl
    · rfl
  · rcases hu with hu | rfl
    · cases u with
      | notANumber | infinity => cases hu
      | zero | finite => rfl
    · rfl

theorem isZero_sum_of_squares (hx : x.isFinite = true) (hy : y.isFinite = true) :
    IsZero (x * x + y * y) ↔ IsZero (x * x) ∧ IsZero (y * y) := by
  have hfirst := square_cases hx
  have hsecond := square_cases hy
  by_cases hfinite : (x * x).isFinite = true ∧ (y * y).isFinite = true
  · have hnonneg {z : Float} (hz : z.isFinite = true)
        (hcases : (z.isFinite = true ∧ 0 ≤ units z) ∨ unpacked z = .infinity .positive) :
        0 ≤ units z := by
      rcases hcases with ⟨-, hle⟩ | hinfinite
      · exact hle
      · rw [isFinite_eq, hinfinite] at hz
        cases hz
    have hle := hnonneg hfinite.1 hfirst
    have hle' := hnonneg hfinite.2 hsecond
    rw [(isNearest_add hfinite.1 hfinite.2).isZero_iff Nat.one_pos, isZero_iff_units,
      isZero_iff_units]
    constructor
    · intro hsmall
      exact ⟨⟨hfinite.1, by omega⟩, ⟨hfinite.2, by omega⟩⟩
    · rintro ⟨⟨-, hzero⟩, ⟨-, hzero'⟩⟩
      omega
  · have hinfinite : unpacked (x * x) = .infinity .positive ∨
        unpacked (y * y) = .infinity .positive := by
      rcases hfirst with hfirst | hfirst
      · rcases hsecond with hsecond | hsecond
        · exact absurd ⟨hfirst.1, hsecond.1⟩ hfinite
        · exact .inr hsecond
      · exact .inl hfirst
    have hsum : add .binary64 (unpacked (x * x)) (unpacked (y * y)) = .infinity .positive :=
      add_infinity (hfirst.imp_left And.left) (hsecond.imp_left And.left) hinfinite
    constructor
    · intro hzero
      rw [add_eq, hsum, isZero_iff_units, isFinite_infinity] at hzero
      cases hzero.1
    · rintro ⟨hzero, hzero'⟩
      exact absurd ⟨(isZero_iff_units.mp hzero).1, (isZero_iff_units.mp hzero').1⟩ hfinite

/-- The largest double whose square comes out as zero. -/
def largestLost : Float := 1.5717277847026285e-162

theorem ofFloat_largestLost : ofFloat largestLost = .finite false 6369051672525772 484 := by
  decide +kernel

/-- Which squares are lost, for a bound between two neighbouring multiples of a power of two. -/
theorem two_mul_square_le_iff {m s bound : Nat} (shift : Nat) (h : Normal m s)
    (full : 2 ^ 52 ≤ bound) (low : bound * bound ≤ 2 ^ 105)
    (high : 2 ^ 105 < (bound + 1) * (bound + 1)) :
    2 * (m * 2 ^ s * (m * 2 ^ s)) ≤ 2 ^ (106 + 2 * shift) ↔ m * 2 ^ s ≤ bound * 2 ^ shift := by
  have hpower : 2 ^ (106 + 2 * shift) = 2 * (2 ^ 105 * (2 ^ shift * 2 ^ shift)) := by ring
  have hpos : 0 < 2 ^ shift * 2 ^ shift := Nat.mul_pos (Nat.two_pow_pos _) (Nat.two_pow_pos _)
  have hsquare (n : Nat) : n * 2 ^ shift * (n * 2 ^ shift) = n * n * (2 ^ shift * 2 ^ shift) := by
    ring
  rw [hpower, Nat.mul_le_mul_left_iff (by decide)]
  constructor
  · intro hle
    by_contra hgt
    have hnext := (h.lt_iff_le full shift).mp (Nat.lt_of_not_le hgt)
    have hlarge := Nat.mul_le_mul hnext hnext
    rw [hsquare] at hlarge
    have := Nat.mul_lt_mul_of_pos_right high hpos
    omega
  · intro hle
    calc m * 2 ^ s * (m * 2 ^ s) ≤ bound * 2 ^ shift * (bound * 2 ^ shift) :=
          Nat.mul_le_mul hle hle
      _ = bound * bound * (2 ^ shift * 2 ^ shift) := hsquare bound
      _ ≤ 2 ^ 105 * (2 ^ shift * 2 ^ shift) := Nat.mul_le_mul_right _ low

theorem isZero_square_iff_le (hx : x.isFinite = true) :
    IsZero (x * x) ↔ x.abs ≤ largestLost := by
  obtain ⟨m, s, magnitude, -, hunits⟩ := exists_ofMagnitude hx
  have habs : (units x).natAbs = m * 2 ^ s := by rw [hunits, natAbs_apply]
  have hlost : units largestLost = (6369051672525772 * 2 ^ 484 : Nat) := by
    rw [units, ofFloat_largestLost]
    rfl
  have hbias : 1074 = 106 + 2 * 484 := rfl
  have hiff := two_mul_square_le_iff 484 magnitude.normal (by decide : 2 ^ 52 ≤ 6369051672525772)
    (by decide) (by decide)
  rw [isZero_square_iff hx, le_iff_units (abs_unsigned hx).1 (by decide +kernel), units_abs hx,
    Int.abs_eq_natAbs, hlost, habs, unitsOfOne_eq, hbias, hiff]
  exact Int.ofNat_le.symm

end Binary64

namespace Complex

open Binary64 (IsZero largestLost)

variable {w : Complex}

/-- A divisor with finite parts counts as zero if the squares of both parts are lost. -/
theorem squaredModulus_beq_zero_iff (hre : w.re.isFinite = true) (him : w.im.isFinite = true) :
    (w.squaredModulus == 0) = true ↔ w.re.abs ≤ largestLost ∧ w.im.abs ≤ largestLost := by
  rw [← Binary64.isZero_iff, squaredModulus, Binary64.isZero_sum_of_squares hre him,
    Binary64.isZero_square_iff_le hre, Binary64.isZero_square_iff_le him]

theorem div?_eq_none_iff (z w : Complex) : z.div? w = none ↔ (w.squaredModulus == 0) = true := by
  rw [div?]
  split
  · next hzero => simp only [hzero]
  · next hnonzero =>
    rw [Bool.not_eq_true] at hnonzero
    simp only [hnonzero, reduceCtorEq, Bool.false_eq_true]

theorem divide_eq_error_iff (operator divisor : Span) (z w : Complex) :
    divide operator divisor z w = .error (.two operator divisor .divisionByZero) ↔
      z.div? w = none := by
  rw [divide]
  cases z.div? w with
  | none => exact iff_of_true rfl rfl
  | some quotient => exact ⟨(nomatch ·), (nomatch ·)⟩

/-- There is no quotient by a divisor with finite parts, and a division by it is reported as one by
zero, exactly if the square of neither part is kept, whatever is divided. -/
theorem division_undefined_iff (operator divisor : Span) (z : Complex)
    (hre : w.re.isFinite = true) (him : w.im.isFinite = true) :
    (z.div? w = none ↔ w.re.abs ≤ largestLost ∧ w.im.abs ≤ largestLost) ∧
      (divide operator divisor z w = .error (.two operator divisor .divisionByZero) ↔
        w.re.abs ≤ largestLost ∧ w.im.abs ≤ largestLost) := by
  have hnone := (div?_eq_none_iff z w).trans (squaredModulus_beq_zero_iff hre him)
  exact ⟨hnone, (divide_eq_error_iff operator divisor z w).trans hnone⟩

theorem division_undefined_of_tiny :
    Complex.div? ⟨1, 0⟩ ⟨1e-200, -1e-170⟩ = none ∧
      divide ⟨1, 2⟩ ⟨2, 9⟩ ⟨1, 0⟩ ⟨1e-200, -1e-170⟩ =
        .error (.two ⟨1, 2⟩ ⟨2, 9⟩ .divisionByZero) := by
  have hlost : (1e-200 : Float).abs ≤ largestLost ∧ (-1e-170 : Float).abs ≤ largestLost := by
    decide +kernel
  obtain ⟨hnone, herror⟩ := division_undefined_iff (w := ⟨1e-200, -1e-170⟩) ⟨1, 2⟩ ⟨2, 9⟩ ⟨1, 0⟩
    (by decide +kernel) (by decide +kernel)
  exact ⟨hnone.mpr hlost, herror.mpr hlost⟩

/-- A divisor that is not zero has no quotient. -/
theorem undefined_by_nonzero : ¬∀ z w : Complex, z.re.isFinite = true → z.im.isFinite = true →
    w.re.isFinite = true → w.im.isFinite = true →
      (z.div? w = none ↔ (w.re == 0) = true ∧ (w.im == 0) = true) := by
  intro hall
  have hnone : Complex.div? ⟨1, 0⟩ ⟨1e-200, 0⟩ = none := by decide +kernel
  have hnonzero : ¬((1e-200 : Float) == 0) = true := by decide +kernel
  have hiff := hall ⟨1, 0⟩ ⟨1e-200, 0⟩ (by decide +kernel) (by decide +kernel) (by decide +kernel)
    (by decide +kernel)
  exact hnonzero (hiff.mp hnone).1

end Complex

end Calculator
