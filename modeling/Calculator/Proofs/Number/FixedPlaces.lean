import Calculator.Proofs.Number.Magnitudes

/-!
A double written with a fixed count of places, and read again. Writing rounds the units of the
double to a multiple of the last place, within half of it. Reading rounds that to the nearest
double; the double that was written is one, so what is read is no further off than it is. Either
step may be the coarse one: a small double has bits past the last place, a large one has digits
before it that are not its own.
-/

set_option autoImplicit false
set_option relaxedAutoImplicit false

namespace Calculator

namespace Rounding

variable {num den : Nat}

theorem two_mul_abs_halfEven_sub_le (num : Nat) (pos : 0 < den) :
    2 * |((halfEven num den * den : Nat) : Int) - num| ≤ den := by
  have hdivision : den * (num / den) + num % den = num := Nat.div_add_mod num den
  have hremainder : num % den < den := Nat.mod_lt num pos
  have hupper : (num / den + 1) * den = den * (num / den) + den := by ring
  have hlower : num / den * den = den * (num / den) := Nat.mul_comm _ _
  have hsame : halfEven num den = num / den ∧ 2 * (num % den) ≤ den ∨
      halfEven num den = num / den + 1 ∧ den ≤ 2 * (num % den) := by
    unfold halfEven
    dsimp only
    split
    · omega
    · split <;> omega
  rw [Int.abs_eq_natAbs]
  rcases hsame with ⟨heq, hr⟩ | ⟨heq, hr⟩
  · rw [heq, hlower]
    omega
  · rw [heq, hupper]
    omega

/-- No other multiple of the denominator is nearer to the numerator. -/
theorem abs_halfEven_sub_le (num : Nat) (pos : 0 < den) (n : Nat) :
    |((halfEven num den * den : Nat) : Int) - num| ≤ |((n * den : Nat) : Int) - num| := by
  have hclose := two_mul_abs_halfEven_sub_le num pos
  have hmultiple : n = halfEven num den ∨ n * den + den ≤ halfEven num den * den ∨
      halfEven num den * den + den ≤ n * den := by
    rcases Nat.lt_trichotomy n (halfEven num den) with hlt | heq | hgt
    · exact .inr (.inl (by rw [← Nat.succ_mul]; exact Nat.mul_le_mul_right den hlt))
    · exact .inl heq
    · exact .inr (.inr (by rw [← Nat.succ_mul]; exact Nat.mul_le_mul_right den hgt))
  rw [Int.abs_eq_natAbs] at hclose
  rw [Int.abs_eq_natAbs, Int.abs_eq_natAbs]
  rcases hmultiple with rfl | hbelow | habove
  · exact Int.le_refl _
  · omega
  · omega

theorem halfEven_eq_zero_iff (num : Nat) (pos : 0 < den) :
    halfEven num den = 0 ↔ 2 * num ≤ den := by
  constructor
  · intro hzero
    have hclose := two_mul_abs_halfEven_sub_le num pos
    rw [hzero, Int.abs_eq_natAbs] at hclose
    omega
  · intro hsmall
    exact halfEven_eq (by omega) (by omega) (by omega) pos

end Rounding

namespace Binary64

theorem Normal.multiple {m s : Nat} (h : Normal m s) (shift : Nat) :
    (∃ n, m * 2 ^ s = n * 2 ^ shift) ∨ 0 < shift ∧ m * 2 ^ s ≤ 2 ^ 52 * 2 ^ shift := by
  rcases Nat.lt_or_ge s shift with hlt | hge
  · right
    refine ⟨by omega, ?_⟩
    calc m * 2 ^ s ≤ 2 ^ 53 * 2 ^ s := Nat.mul_le_mul_right _ (Nat.le_of_lt h.below)
      _ = 2 ^ 52 * 2 ^ (s + 1) := by ring
      _ ≤ 2 ^ 52 * 2 ^ shift := Nat.mul_le_mul_left _ (Nat.pow_le_pow_right (by decide) hlt)
  · left
    exact ⟨m * 2 ^ (s - shift), by rw [Nat.mul_assoc, ← Nat.pow_add, Nat.sub_add_cancel hge]⟩

theorem Normal.lt_iff_le {m s n : Nat} (h : Normal m s) (full : 2 ^ 52 ≤ n) (shift : Nat) :
    n * 2 ^ shift < m * 2 ^ s ↔ (n + 1) * 2 ^ shift ≤ m * 2 ^ s := by
  have hpos : 0 < 2 ^ shift := Nat.two_pow_pos shift
  constructor
  · intro hlt
    rcases h.multiple shift with ⟨k, hk⟩ | ⟨-, hbelow⟩
    · rw [hk] at hlt ⊢
      exact Nat.mul_le_mul_right _ (Nat.lt_of_mul_lt_mul_right hlt)
    · exact absurd (Nat.le_trans hbelow (Nat.mul_le_mul_right _ full)) (Nat.not_le_of_lt hlt)
  · intro hle
    exact Nat.lt_of_lt_of_le (Nat.mul_lt_mul_of_pos_right (Nat.lt_succ_self n) hpos) hle

/-- The shift of the binade that a quotient is in. -/
def quotientShift (num den : Nat) : Nat := Nat.log2 (num / den) - 52

/-- The significand that a quotient is rounded to there. -/
def quotientRounded (num den : Nat) : Nat :=
  Rounding.halfEven num (den * 2 ^ quotientShift num den)

variable {num den : Nat}

theorem quotient_bounds (num : Nat) (pos : 0 < den) :
    num < 2 ^ 53 * (den * 2 ^ quotientShift num den) ∧
      (0 < quotientShift num den → 2 ^ 52 * (den * 2 ^ quotientShift num den) ≤ num) := by
  have hbinade (k : Nat) : 2 ^ k * (den * 2 ^ quotientShift num den) =
      2 ^ (k + quotientShift num den) * den := by
    rw [Nat.pow_add]
    ring
  rw [hbinade, hbinade, ← Nat.div_lt_iff_lt_mul pos, ← Nat.le_div_iff_mul_le pos]
  constructor
  · calc num / den < 2 ^ ((num / den).log2 + 1) := Nat.lt_log2_self
      _ ≤ 2 ^ (53 + quotientShift num den) :=
        Nat.pow_le_pow_right (by decide) (by rw [quotientShift]; omega)
  · intro hshift
    have hlog : 52 + quotientShift num den = (num / den).log2 := by
      rw [quotientShift] at hshift ⊢
      omega
    have hne : num / den ≠ 0 := by
      intro hzero
      rw [quotientShift, hzero] at hshift
      exact absurd hshift (by decide)
    rw [hlog]
    exact Nat.log2_self_le hne

/-- No double is nearer to a quotient, of those that there would be if their shifts had no
bound. -/
theorem abs_quotientRounded_sub_le (num : Nat) (pos : 0 < den) {m s : Nat} (h : Normal m s) :
    |((quotientRounded num den * 2 ^ quotientShift num den * den : Nat) : Int) - num| ≤
      |((m * 2 ^ s * den : Nat) : Int) - num| := by
  have hunit : 0 < den * 2 ^ quotientShift num den := Nat.mul_pos pos (Nat.two_pow_pos _)
  have hplace (n : Nat) : n * 2 ^ quotientShift num den * den =
      n * (den * 2 ^ quotientShift num den) := by ring
  have hnearest := Rounding.abs_halfEven_sub_le num hunit
  rw [hplace, quotientRounded]
  rcases h.multiple (quotientShift num den) with ⟨n, hn⟩ | ⟨hshift, hbelow⟩
  · rw [hn, hplace]
    exact hnearest n
  · -- A smaller double is further away than the least one of the binade, which is a multiple.
    refine Int.le_trans (hnearest (2 ^ 52)) ?_
    have hquotient := (quotient_bounds num pos).2 hshift
    have hsmall := Nat.mul_le_mul_right den hbelow
    rw [hplace] at hsmall
    rw [Int.abs_eq_natAbs, Int.abs_eq_natAbs]
    omega

/-- A quotient is rounded to 53 bits, or to all there are in the lowest binade. -/
theorem quotientRounded_bounds (num : Nat) (pos : 0 < den) : quotientRounded num den ≤ 2 ^ 53 ∧
    (0 < quotientShift num den → 2 ^ 52 ≤ quotientRounded num den) := by
  have hunit : 0 < den * 2 ^ quotientShift num den := Nat.mul_pos pos (Nat.two_pow_pos _)
  obtain ⟨hhigh, hlow⟩ := quotient_bounds num pos
  have hclose := Rounding.two_mul_abs_halfEven_sub_le num hunit
  rw [Int.abs_eq_natAbs, ← quotientRounded] at hclose
  constructor
  · by_contra hgt
    have := Nat.mul_le_mul_right (den * 2 ^ quotientShift num den) (Nat.lt_of_not_le hgt)
    rw [Nat.succ_mul] at this
    omega
  · intro hshift
    have hquotient := hlow hshift
    by_contra hgt
    have := Nat.mul_le_mul_right (den * 2 ^ quotientShift num den) (Nat.lt_of_not_le hgt)
    rw [Nat.succ_mul] at this
    omega

theorem exists_normal (num : Nat) (pos : 0 < den) : ∃ m s, Normal m s ∧
    m * 2 ^ s = quotientRounded num den * 2 ^ quotientShift num den ∧
    s * hiddenBit + m = quotientShift num den * hiddenBit + quotientRounded num den := by
  obtain ⟨hmost, hleast⟩ := quotientRounded_bounds num pos
  generalize quotientRounded num den = r at *
  generalize quotientShift num den = t at *
  rw [hiddenBit_eq]
  rcases Nat.lt_or_eq_of_le hmost with hsmall | rfl
  · exact ⟨r, t, ⟨hsmall, hleast⟩, rfl, rfl⟩
  · exact ⟨2 ^ 52, t + 1, ⟨by decide, fun _ => Nat.le_refl _⟩, by ring, by ring⟩

def largestShift : Nat := 2045

theorem Magnitude.shift_le {m s : Nat} (h : Magnitude m s) : s ≤ largestShift := by
  obtain ⟨-, full, finite⟩ := h
  rw [infinityField_eq, hiddenBit_eq] at finite
  rw [hiddenBit_eq] at full
  rw [largestShift]
  omega

theorem Normal.magnitude_of_le {m s : Nat} (h : Normal m s) (hs : s ≤ largestShift) :
    Magnitude m s := by
  refine ⟨h.below, h.full, ?_⟩
  have hbelow := h.below
  rw [infinityField_eq, hiddenBit_eq]
  rw [hiddenBit_eq] at hbelow
  rw [largestShift] at hs
  omega

theorem Normal.shift_le {m s n k top : Nat} (h : Normal m s) (h' : Normal n k) (hs : s ≤ top)
    (hlt : n * 2 ^ k < m * 2 ^ s + 2 ^ top) : k ≤ top := by
  by_contra hgt
  have hbelow : m * 2 ^ s ≤ (2 ^ 53 - 1) * 2 ^ top :=
    Nat.mul_le_mul (Nat.le_pred_of_lt h.below) (Nat.pow_le_pow_right (by decide) hs)
  have hfull : 2 ^ 52 * 2 ^ (top + 1) ≤ n * 2 ^ k :=
    Nat.mul_le_mul (h'.full (by omega)) (Nat.pow_le_pow_right (by decide) (Nat.lt_of_not_le hgt))
  rw [Nat.pow_succ] at hfull
  omega

/-- A double near a quotient keeps the double that the quotient is rounded to in range, and near. -/
theorem exists_magnitude_near {m s tolerance : Nat} (magnitude : Magnitude m s) (pos : 0 < den)
    (small : 2 * tolerance < 2 ^ largestShift)
    (close : |((m * 2 ^ s * den : Nat) : Int) - num| ≤ tolerance) :
    ∃ n k, Magnitude n k ∧
      k * hiddenBit + n = quotientShift num den * hiddenBit + quotientRounded num den ∧
      |((n * 2 ^ k * den : Nat) : Int) - (m * 2 ^ s * den : Nat)| ≤ 2 * tolerance := by
  obtain ⟨n, k, normal, hvalue, hfield⟩ := exists_normal num pos
  have hnearest := abs_quotientRounded_sub_le num pos magnitude.normal
  rw [← hvalue, Int.abs_eq_natAbs, Int.abs_eq_natAbs] at hnearest
  rw [Int.abs_eq_natAbs] at close
  have hnear : |((n * 2 ^ k * den : Nat) : Int) - (m * 2 ^ s * den : Nat)| ≤ 2 * tolerance := by
    rw [Int.abs_eq_natAbs]
    omega
  have hbelow : n * 2 ^ k < m * 2 ^ s + 2 ^ largestShift := by
    have hscaled : n * 2 ^ k * den < (m * 2 ^ s + 2 ^ largestShift) * den := by
      have hroom : 2 ^ largestShift ≤ 2 ^ largestShift * den := Nat.le_mul_of_pos_right _ pos
      rw [Int.abs_eq_natAbs] at hnear
      rw [Nat.add_mul]
      generalize 2 ^ largestShift * den = room at *
      omega
    exact Nat.lt_of_mul_lt_mul_right hscaled
  exact ⟨n, k, normal.magnitude_of_le (magnitude.normal.shift_le normal magnitude.shift_le hbelow),
    hfield, hnear⟩

def unitsOfOne : Nat := 2 ^ 1074

theorem unitsOfOne_eq : unitsOfOne = 2 ^ 1074 := rfl

theorem two_pow_lt {m n : Nat} (h : m < n) : 2 ^ m < 2 ^ n := Nat.pow_lt_pow_right (by decide) h

theorem unitsOfOne_lt : unitsOfOne < 2 ^ largestShift := two_pow_lt (by decide)

theorem nearestField_eq_min (coefficient den : Nat) :
    nearestField coefficient den =
      min (quotientShift (coefficient * unitsOfOne) den * hiddenBit +
        quotientRounded (coefficient * unitsOfOne) den) infinityField := by
  have hunits : coefficient <<< 1074 = coefficient * unitsOfOne := by
    rw [unitsOfOne]
    generalize 1074 = bias
    exact Nat.shiftLeft_eq coefficient bias
  rw [nearestField, hunits, Nat.shiftLeft_eq, quotientRounded, quotientShift]

theorem nearest_close {m s coefficient tolerance : Nat} (magnitude : Magnitude m s) (pos : 0 < den)
    (small : 2 * tolerance ≤ unitsOfOne)
    (close : |((m * 2 ^ s * den : Nat) : Int) - (coefficient * unitsOfOne : Nat)| ≤ tolerance) :
    (nearest coefficient den).isFinite = true ∧
      |units (nearest coefficient den) * den - (m * 2 ^ s * den : Nat)| ≤ unitsOfOne := by
  obtain ⟨n, k, magnitude', hfield, hnear⟩ :=
    exists_magnitude_near magnitude pos (Nat.lt_of_le_of_lt small unitsOfOne_lt) close
  have hnearest : nearestField coefficient den = k * hiddenBit + n := by
    rw [nearestField_eq_min, ← hfield]
    exact Nat.min_eq_left (Nat.le_of_lt magnitude'.finite)
  obtain ⟨hfinite, hunits⟩ := units_floatOfField magnitude'
  rw [nearest, hnearest, hunits]
  refine ⟨hfinite, Int.le_trans ?_ (Int.ofNat_le.mpr small)⟩
  exact_mod_cast hnear

end Binary64

namespace Number

open Binary64 (Magnitude isNegative units unitsOfOne unitsOfOne_eq unitsNum unitsDen)

variable {x : Float} {significand shift places : Nat}

def fixedDigits (places significand shift : Nat) : Nat :=
  Rounding.halfEven (unitsNum significand shift * Decimal.ten places) (unitsDen shift)

theorem fixedMagnitude_eq (places significand shift : Nat) :
    fixedMagnitude places significand shift =
      Decimal.withPoint places (Decimal.digits (fixedDigits places significand shift)) := rfl

theorem two_mul_abs_sub_le_of_scaled {m s bias one factor n : Nat} (hone : one = 2 ^ bias)
    (h : 2 * |((n * 2 ^ (bias - s) : Nat) : Int) - (m * 2 ^ (s - bias) * factor : Nat)| ≤
      (2 ^ (bias - s) : Nat)) :
    2 * |((m * 2 ^ s * factor : Nat) : Int) - (n * one : Nat)| ≤ one := by
  subst hone
  have hbias : 2 ^ bias = 2 ^ (bias - s) * 2 ^ min s bias := by
    rw [← Nat.pow_add]
    congr 1
    omega
  have hs : 2 ^ s = 2 ^ (s - bias) * 2 ^ min s bias := by
    rw [← Nat.pow_add]
    congr 1
    omega
  have hdifference : ((m * 2 ^ s * factor : Nat) : Int) - (n * 2 ^ bias : Nat) =
      ((m * 2 ^ (s - bias) * factor : Nat) - (n * 2 ^ (bias - s) : Nat)) *
        (2 ^ min s bias : Nat) := by
    rw [hs, hbias]
    push_cast
    ring
  rw [hdifference, abs_mul, Nat.abs_cast, abs_sub_comm, ← mul_assoc, hbias, Nat.cast_mul]
  exact Int.mul_le_mul_of_nonneg_right h (Int.natCast_nonneg _)

/-- The digits are those of a number within half of the last place. -/
theorem fixedDigits_close (places significand shift : Nat) :
    2 * |((significand * 2 ^ shift * 10 ^ places : Nat) : Int) -
      (fixedDigits places significand shift * unitsOfOne : Nat)| ≤ unitsOfOne := by
  have hden : unitsDen shift = 2 ^ (1074 - shift) := by rw [unitsDen, Nat.one_shiftLeft]
  have hnum : unitsNum significand shift = significand * 2 ^ (shift - 1074) :=
    Nat.shiftLeft_eq _ _
  have hten : Decimal.ten places = 10 ^ places := rfl
  have hclose := Rounding.two_mul_abs_halfEven_sub_le
    (unitsNum significand shift * Decimal.ten places) (hden ▸ Nat.two_pow_pos _)
  rw [← fixedDigits, hden, hnum, hten] at hclose
  exact two_mul_abs_sub_le_of_scaled unitsOfOne_eq hclose

theorem fixed_of_finite {negative : Bool}
    (h : Binary64.ofFloat x = .finite negative significand shift) :
    (fixed places x).toList =
      if negative then '-' :: fixedMagnitude places significand shift
      else fixedMagnitude places significand shift := by
  simp only [fixed, write, h]
  exact String.toList_ofList

theorem toList_fixed (places : Nat) (h : x.isFinite = true) :
    (fixed places x).toList =
      (if isNegative x then ['-'] else []) ++ (fixed places x.abs).toList := by
  obtain ⟨significand, shift, hx, hneg⟩ := Binary64.ofFloat_of_isFinite h
  rw [Binary64.abs_eq_of_isFinite h, fixed_of_finite hx]
  cases hsign : isNegative x with
  | true =>
    rw [hsign] at hneg
    rw [if_pos rfl, if_pos rfl, if_pos rfl, fixed_of_finite hneg]
    rfl
  | false =>
    rw [hsign] at hx
    rw [if_neg Bool.false_ne_true, if_neg Bool.false_ne_true, if_neg Bool.false_ne_true,
      fixed_of_finite hx]
    rfl

theorem numeral_fixedMagnitude (places significand shift : Nat) :
    Numeral (fixedMagnitude places significand shift) where
  ne_nil := Decimal.withPoint_ne_nil (Decimal.digits_ne_nil _)
  numerals _ hc :=
    Decimal.isNumeral_of_mem_withPoint (fun _ => Decimal.isNumeral_of_mem_digits) hc

theorem numeral_fixed (places : Nat) (finite : x.isFinite = true)
    (unsigned : isNegative x = false) : Numeral (fixed places x).toList := by
  obtain ⟨significand, shift, hvalue, -⟩ := Binary64.exists_magnitude finite
  rw [unsigned] at hvalue
  rw [fixed_of_finite hvalue, if_neg Bool.false_ne_true]
  exact numeral_fixedMagnitude places significand shift

theorem toFloat_of_places {coefficient : Nat} (h : coefficient ≠ 0) (hplaces : places ≤ 300) :
    Decimal.toFloat ⟨coefficient, -(places : Int)⟩ =
      Binary64.nearest coefficient (10 ^ places) := by
  have hnotLarge : ¬Decimal.largestExponent < -(places : Int) := by
    rw [Decimal.largestExponent]
    omega
  have hnotSmall : ¬((Decimal.digits coefficient).length : Int) + -(places : Int) <
      Decimal.smallestOrder := by
    rw [Decimal.smallestOrder]
    omega
  have hquotient : Decimal.num ⟨coefficient, -(places : Int)⟩ = coefficient ∧
      Decimal.den ⟨coefficient, -(places : Int)⟩ = 10 ^ places := by
    simp [Decimal.num, Decimal.den, Decimal.ten]
  rw [Decimal.toFloat, if_neg h, if_neg hnotLarge, if_neg hnotSmall, hquotient.1, hquotient.2]

/-- A double near a decimal with as many places is near what the decimal is read as. -/
theorem toFloat_close {m s coefficient : Nat} (magnitude : Magnitude m s) (h : places ≤ 300)
    (close : 2 * |((m * 2 ^ s * 10 ^ places : Nat) : Int) - (coefficient * unitsOfOne : Nat)| ≤
      unitsOfOne) :
    (Decimal.toFloat ⟨coefficient, -(places : Int)⟩).isFinite = true ∧
      |units (Decimal.toFloat ⟨coefficient, -(places : Int)⟩) * (10 ^ places : Nat) -
        (m * 2 ^ s * 10 ^ places : Nat)| ≤ unitsOfOne := by
  by_cases hzero : coefficient = 0
  · -- Zero is read without rounding, however far it is from the double for the size of that.
    subst hzero
    have hnone : Decimal.toFloat ⟨0, -(places : Int)⟩ = 0 := rfl
    have hunits : units 0 = 0 := rfl
    rw [Nat.zero_mul, Nat.cast_zero, sub_zero, Nat.abs_cast] at close
    rw [hnone, hunits, zero_mul, zero_sub, abs_neg, Nat.abs_cast]
    exact ⟨rfl, by omega⟩
  · have hden : 0 < 10 ^ places := Nat.pow_pos (by decide)
    obtain ⟨tolerance, htolerance⟩ : ∃ tolerance : Nat,
        |((m * 2 ^ s * 10 ^ places : Nat) : Int) - (coefficient * unitsOfOne : Nat)| =
          tolerance := ⟨_, Int.abs_eq_natAbs _⟩
    rw [htolerance] at close
    have hsmall : 2 * tolerance ≤ unitsOfOne := by omega
    rw [toFloat_of_places hzero h]
    exact Binary64.nearest_close magnitude hden hsmall (Int.le_of_eq htolerance)

/-- What is read is finite and within one unit of the last place of what was written. -/
theorem read?_fixed (finite : x.isFinite = true) (unsigned : isNegative x = false)
    (h : places ≤ 300) : ∃ value, read? (fixed places x).toList = some value ∧
      value.isFinite = true ∧ |units value - units x| * 10 ^ places ≤ unitsOfOne := by
  obtain ⟨significand, shift, hvalue, magnitude, -⟩ := Binary64.exists_magnitude finite
  rw [unsigned] at hvalue
  have hunits : units x = (significand * 2 ^ shift : Nat) := by rw [units, hvalue]; rfl
  have hnumeral := numeral_fixedMagnitude places significand shift
  have hread : read? (fixed places x).toList =
      some (Decimal.toFloat ⟨fixedDigits places significand shift, -(places : Int)⟩) := by
    rw [fixed_of_finite hvalue, if_neg Bool.false_ne_true, read?_numeral hnumeral,
      fixedMagnitude_eq, Decimal.read?_withPoint (fun _ => Decimal.isDigit_of_mem_digits)
        (Decimal.digits_ne_nil _), Decimal.ofDigits_digits, Option.map_some]
  obtain ⟨hfinite, hnear⟩ :=
    toFloat_close magnitude h (fixedDigits_close places significand shift)
  refine ⟨_, hread, hfinite, ?_⟩
  generalize Decimal.toFloat ⟨fixedDigits places significand shift, -(places : Int)⟩ = value at *
  have hscaled : (units value - units x) * 10 ^ places =
      units value * (10 ^ places : Nat) - (significand * 2 ^ shift * 10 ^ places : Nat) := by
    rw [hunits]
    push_cast
    ring
  have hpos : (0 : Int) ≤ 10 ^ places := by positivity
  rw [← abs_of_nonneg hpos, ← abs_mul, hscaled]
  exact hnear

end Number

end Calculator
