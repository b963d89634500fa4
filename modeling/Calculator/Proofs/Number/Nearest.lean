import Calculator.Number.Decimal
import Mathlib.Algebra.Order.Ring.Nat
import Mathlib.Data.Nat.Log
import Mathlib.Tactic.Linarith
import Mathlib.Tactic.Ring

/-!
The quotients that round to a given double. In units of `2 ^ -1074` they are an interval around the
double, half a unit in the last place to either side, and a quarter below a power of two. The search
for a short decimal tests whether it lies in this interval; `nearestField_eq` says that the test
decides what the decimal is rounded to.
-/

set_option autoImplicit false
set_option relaxedAutoImplicit false

namespace Calculator

namespace Rounding

/-- A quotient within half a unit of a natural number is rounded to it, from exactly half a unit
away if the number is even. -/
theorem halfEven_eq {num den n : Nat} (low : (2 * n - 1) * den ≤ 2 * num)
    (high : 2 * num ≤ (2 * n + 1) * den)
    (odd : n % 2 = 1 → (2 * n - 1) * den ≠ 2 * num ∧ 2 * num ≠ (2 * n + 1) * den)
    (pos : 0 < den) : halfEven num den = n := by
  have hdivision : den * (num / den) + num % den = num := Nat.div_add_mod num den
  have hremainder : num % den < den := Nat.mod_lt num pos
  have hhalf : (2 * n + 1) * den = 2 * (den * n) + den := by ring
  have hbelow : num / den < n + 1 := by
    have hproduct : den * (num / den) < den * (n + 1) := by
      rw [Nat.mul_succ]
      omega
    exact Nat.lt_of_mul_lt_mul_left hproduct
  unfold halfEven
  rcases Nat.lt_or_ge (num / den) n with hlt | hge
  · obtain ⟨k, rfl⟩ := Nat.exists_eq_succ_of_ne_zero (Nat.ne_zero_of_lt hlt)
    rw [Nat.succ_eq_add_one] at *
    have hlower : (2 * (k + 1) - 1) * den = 2 * (den * k) + den := by
      rw [show 2 * (k + 1) - 1 = 2 * k + 1 by omega]
      ring
    have habove : k < num / den + 1 := by
      have hproduct : den * k < den * (num / den + 1) := by
        rw [Nat.mul_succ]
        omega
      exact Nat.lt_of_mul_lt_mul_left hproduct
    have hquotient : num / den = k := by omega
    rw [hquotient] at hdivision ⊢
    dsimp only
    split
    · rfl
    · split
      · have := odd
        omega
      · omega
  · have hquotient : num / den = n := by omega
    rw [hquotient] at hdivision ⊢
    dsimp only
    split
    · omega
    · split
      · have := odd
        omega
      · rfl

end Rounding

namespace Binary64

/-- A magnitude as a double has it: all of the 53 bits, unless it is in the lowest binade. -/
structure Magnitude (significand shift : Nat) : Prop where
  below : significand < 2 * hiddenBit
  full : 0 < shift → hiddenBit ≤ significand
  finite : shift * hiddenBit + significand < infinityField

/-- The distance to the middle between a magnitude and the next smaller one, in quarters of a unit
in the last place. -/
def gapBelow (significand shift : Nat) : Nat :=
  if significand = hiddenBit && 0 < shift then 1 else 2

/-- A quotient of the given units over `den` that rounds to a magnitude. -/
structure RoundsTo (significand shift units den : Nat) : Prop where
  low : (4 * significand - gapBelow significand shift) * (den * 2 ^ shift) ≤ 4 * units
  high : 4 * units ≤ (4 * significand + 2) * (den * 2 ^ shift)
  odd : significand % 2 = 1 →
    (4 * significand - gapBelow significand shift) * (den * 2 ^ shift) ≠ 4 * units ∧
      4 * units ≠ (4 * significand + 2) * (den * 2 ^ shift)

theorem hiddenBit_eq : hiddenBit = 2 ^ 52 := rfl

theorem log2_div {units den k : Nat} (pos : 0 < den) (low : 2 ^ k * den ≤ units)
    (high : units < 2 ^ (k + 1) * den) : Nat.log2 (units / den) = k := by
  have hlow : 2 ^ k ≤ units / den := (Nat.le_div_iff_mul_le pos).mpr low
  have hhigh : units / den < 2 ^ (k + 1) := (Nat.div_lt_iff_lt_mul pos).mpr high
  have hpos : 0 < 2 ^ k := Nat.two_pow_pos k
  exact (Nat.log2_eq_iff (by omega)).mpr ⟨hlow, hhigh⟩

variable {significand shift units den : Nat}

namespace RoundsTo

theorem halfEven (h : RoundsTo significand shift units den) (pos : 0 < den) :
    Rounding.halfEven units (den <<< shift) = significand := by
  obtain ⟨low, high, odd⟩ := h
  have hgap : gapBelow significand shift ≤ 2 ∧
      (significand % 2 = 1 → gapBelow significand shift = 2) := by
    unfold gapBelow
    split
    · next hfoot =>
      have heven : significand = hiddenBit := by
        simp only [Bool.and_eq_true, decide_eq_true_eq] at hfoot
        exact hfoot.1
      rw [heven, hiddenBit_eq]
      omega
    · exact ⟨Nat.le_refl 2, fun _ => rfl⟩
  have hlow : (4 * significand - 2) * (den * 2 ^ shift) =
      2 * ((2 * significand - 1) * (den * 2 ^ shift)) := by
    rw [show 4 * significand - 2 = 2 * (2 * significand - 1) by omega, Nat.mul_assoc]
  have hhigh : (4 * significand + 2) * (den * 2 ^ shift) =
      2 * ((2 * significand + 1) * (den * 2 ^ shift)) := by ring
  have hlower : (4 * significand - 2) * (den * 2 ^ shift) ≤
      (4 * significand - gapBelow significand shift) * (den * 2 ^ shift) :=
    Nat.mul_le_mul_right _ (by omega)
  rw [Nat.shiftLeft_eq]
  have hunit : 0 < den * 2 ^ shift := Nat.mul_pos pos (Nat.two_pow_pos shift)
  refine Rounding.halfEven_eq (by omega) (by omega) (fun hodd => ?_) hunit
  have hends := odd hodd
  rw [hgap.2 hodd] at hends
  omega

/-- Below a power of two the units are half as long, and twice as many. -/
theorem halfEven_below (h : RoundsTo hiddenBit (shift + 1) units den) (pos : 0 < den)
    (below : units < hiddenBit * (den * 2 ^ (shift + 1))) :
    Rounding.halfEven units (den <<< shift) = 2 * hiddenBit := by
  have hgap : gapBelow hiddenBit (shift + 1) = 1 := by simp [gapBelow]
  have hlow := h.low
  have hdouble : den * 2 ^ (shift + 1) = 2 * (den * 2 ^ shift) := by ring
  rw [hgap, hdouble] at hlow
  rw [hdouble] at below
  have hunit : 0 < den * 2 ^ shift := Nat.mul_pos pos (Nat.two_pow_pos shift)
  rw [Nat.shiftLeft_eq]
  generalize den * 2 ^ shift = unit at *
  rw [hiddenBit_eq] at *
  exact Rounding.halfEven_eq (by omega) (by omega) (by omega) hunit

theorem of_eq (h : units = significand * (den * 2 ^ shift)) (pos : 0 < den) :
    RoundsTo significand shift units den := by
  have hunit : 0 < den * 2 ^ shift := Nat.mul_pos pos (Nat.two_pow_pos shift)
  have hvalue : 4 * units = 4 * significand * (den * 2 ^ shift) := by rw [h, Nat.mul_assoc]
  have hgap : 0 < gapBelow significand shift := by
    unfold gapBelow
    split <;> decide
  constructor
  · rw [hvalue]
    exact Nat.mul_le_mul_right _ (Nat.sub_le _ _)
  · rw [hvalue]
    exact Nat.mul_le_mul_right _ (Nat.le_add_right _ _)
  · intro hodd
    rw [hvalue]
    have hlow : (4 * significand - gapBelow significand shift) * (den * 2 ^ shift) <
        4 * significand * (den * 2 ^ shift) := Nat.mul_lt_mul_of_pos_right (by omega) hunit
    have hhigh : 4 * significand * (den * 2 ^ shift) < (4 * significand + 2) * (den * 2 ^ shift) :=
      Nat.mul_lt_mul_of_pos_right (by omega) hunit
    exact ⟨Nat.ne_of_lt hlow, Nat.ne_of_lt hhigh⟩

end RoundsTo

/-- A quotient that rounds to a magnitude is rounded to it. -/
theorem shift_add_halfEven (magnitude : Magnitude significand shift)
    (h : RoundsTo significand shift units den) (pos : 0 < den) :
    (Nat.log2 (units / den) - 52) * hiddenBit +
        Rounding.halfEven units (den <<< (Nat.log2 (units / den) - 52)) =
      shift * hiddenBit + significand := by
  have hunit : 0 < den * 2 ^ shift := Nat.mul_pos pos (Nat.two_pow_pos shift)
  have hbinade (k : Nat) : 2 ^ (k + shift) * den = 2 ^ k * (den * 2 ^ shift) := by ring
  have hbelow : units < 2 ^ 53 * (den * 2 ^ shift) := by
    have hlt := magnitude.below
    have hhigh := h.high
    have hmost : (4 * significand + 2) * (den * 2 ^ shift) ≤
        (4 * (2 * hiddenBit) - 2) * (den * 2 ^ shift) := Nat.mul_le_mul_right _ (by omega)
    generalize den * 2 ^ shift = unit at *
    rw [hiddenBit_eq] at *
    omega
  rcases Nat.lt_or_ge units (hiddenBit * (den * 2 ^ shift)) with hfoot | habove
  · cases shift with
    | zero =>
      have hzero : Nat.log2 (units / den) - 52 = 0 := by
        have hquotient : units / den < 2 ^ 52 := by
          rw [hiddenBit_eq, Nat.pow_zero, Nat.mul_one] at hfoot
          exact (Nat.div_lt_iff_lt_mul pos).mpr hfoot
        rcases Nat.eq_zero_or_pos (units / den) with hnone | hsome
        · rw [hnone]
          rfl
        · have := (Nat.log2_lt (Nat.ne_of_gt hsome)).mpr hquotient
          omega
      rw [hzero, h.halfEven pos]
    | succ shift =>
      have hfull := magnitude.full (Nat.succ_pos shift)
      have hsignificand : significand = hiddenBit := by
        have hgap : gapBelow significand (shift + 1) ≤ 2 := by
          unfold gapBelow
          split <;> omega
        have hlow : (4 * significand - gapBelow significand (shift + 1)) * (den * 2 ^ (shift + 1)) <
            4 * hiddenBit * (den * 2 ^ (shift + 1)) := by
          have := h.low
          rw [Nat.mul_assoc]
          omega
        have := Nat.lt_of_mul_lt_mul_right hlow
        omega
      subst hsignificand
      have hlog : Nat.log2 (units / den) = 52 + shift := by
        have hgap : gapBelow hiddenBit (shift + 1) = 1 := by simp [gapBelow]
        have hlow := h.low
        rw [hgap] at hlow
        refine log2_div pos ?_ ?_
        · have hhalf : 2 ^ (52 + shift) * den = 2 ^ 51 * (den * 2 ^ (shift + 1)) := by ring
          rw [hhalf]
          generalize den * 2 ^ (shift + 1) = unit at *
          rw [hiddenBit_eq] at hlow
          omega
        · rw [show 52 + shift + 1 = 52 + (shift + 1) by omega, hbinade, ← hiddenBit_eq]
          exact hfoot
      rw [hlog, Nat.add_sub_cancel_left, h.halfEven_below pos hfoot]
      ring
  · have hlog : Nat.log2 (units / den) = 52 + shift := by
      refine log2_div pos ?_ ?_
      · rw [hbinade, ← hiddenBit_eq]
        exact habove
      · rw [show 52 + shift + 1 = 53 + shift by omega, hbinade]
        exact hbelow
    rw [hlog, Nat.add_sub_cancel_left, h.halfEven pos]

theorem nearestField_eq {num : Nat} (magnitude : Magnitude significand shift)
    (h : RoundsTo significand shift (num <<< 1074) den) (pos : 0 < den) :
    nearestField num den = shift * hiddenBit + significand := by
  have hfield := shift_add_halfEven magnitude h pos
  unfold nearestField
  dsimp only
  rw [hfield]
  exact Nat.min_eq_left (Nat.le_of_lt magnitude.finite)

end Binary64

namespace Decimal

open Binary64 (Magnitude RoundsTo gapBelow)

theorem den_pos (d : Decimal) : 0 < d.den := Nat.pow_pos (by decide)

theorem two_pow_sub_mul (bias shift : Nat) :
    2 ^ (bias - shift) * 2 ^ shift = 2 ^ bias * 2 ^ (shift - bias) := by
  rw [← Nat.pow_add, ← Nat.pow_add]
  congr 1
  omega

theorem point_scaled (num bias shift : Nat) :
    4 * num * (1 <<< (bias - shift)) * 2 ^ shift = 4 * (num <<< bias) * 2 ^ (shift - bias) := by
  rw [Nat.one_shiftLeft, Nat.shiftLeft_eq, Nat.mul_assoc, two_pow_sub_mul]
  ring

theorem bound_scaled (bound den bias shift : Nat) :
    bound * (1 <<< (shift - bias) * den) * 2 ^ shift =
      bound * (den * 2 ^ shift) * 2 ^ (shift - bias) := by
  rw [Nat.one_shiftLeft]
  ring

variable {significand shift : Nat} {d : Decimal}

theorem roundsTo_iff :
    roundsTo significand shift d = true ↔ RoundsTo significand shift (d.num <<< 1074) d.den := by
  have hle (a b : Nat) : a ≤ b ↔ a * 2 ^ shift ≤ b * 2 ^ shift :=
    (Nat.mul_le_mul_right_iff (Nat.two_pow_pos shift)).symm
  have hlt (a b : Nat) : a < b ↔ a * 2 ^ shift < b * 2 ^ shift :=
    (Nat.mul_lt_mul_right (Nat.two_pow_pos shift)).symm
  have hfactor : 0 < 2 ^ (shift - 1074) := Nat.two_pow_pos _
  have hgap : (if significand = Binary64.hiddenBit && 0 < shift then 1 else 2) =
      gapBelow significand shift := rfl
  unfold roundsTo Binary64.unitsNum Binary64.unitsDen
  dsimp only
  rw [hgap]
  by_cases heven : significand % 2 = 0
  · rw [if_pos heven, Bool.and_eq_true, decide_eq_true_eq, decide_eq_true_eq, hle,
      hle (4 * d.num * _),
      point_scaled, bound_scaled, bound_scaled, Nat.mul_le_mul_right_iff hfactor,
      Nat.mul_le_mul_right_iff hfactor]
    exact ⟨fun h => ⟨h.1, h.2, by omega⟩, fun h => ⟨h.low, h.high⟩⟩
  · rw [if_neg heven, Bool.and_eq_true, decide_eq_true_eq, decide_eq_true_eq, hlt,
      hlt (4 * d.num * _),
      point_scaled, bound_scaled, bound_scaled, Nat.mul_lt_mul_right hfactor,
      Nat.mul_lt_mul_right hfactor]
    constructor
    · intro h
      exact ⟨Nat.le_of_lt h.1, Nat.le_of_lt h.2, fun _ => ⟨Nat.ne_of_lt h.1, Nat.ne_of_lt h.2⟩⟩
    · intro h
      have hends := h.odd (by omega)
      exact ⟨Nat.lt_of_le_of_ne h.low hends.1, Nat.lt_of_le_of_ne h.high hends.2⟩

theorem exact_scaled (significand bias shift : Nat) :
    significand <<< (shift - bias) * 5 ^ (bias - shift) * 2 ^ bias =
      significand * (10 ^ (bias - shift) * 2 ^ shift) := by
  have hten : 10 ^ (bias - shift) = 2 ^ (bias - shift) * 5 ^ (bias - shift) := by
    rw [← Nat.mul_pow]
  calc significand <<< (shift - bias) * 5 ^ (bias - shift) * 2 ^ bias
      = significand * 5 ^ (bias - shift) * (2 ^ bias * 2 ^ (shift - bias)) := by
        rw [Nat.shiftLeft_eq]
        ring
    _ = significand * 5 ^ (bias - shift) * (2 ^ (bias - shift) * 2 ^ shift) := by
        rw [two_pow_sub_mul]
    _ = significand * (10 ^ (bias - shift) * 2 ^ shift) := by
        rw [hten]
        ring

theorem roundsTo_exact (significand shift : Nat) :
    roundsTo significand shift (exact significand shift) = true := by
  refine roundsTo_iff.mpr (.of_eq ?_ (den_pos _))
  unfold num den exact Binary64.unitsNum ten
  generalize 1074 = bias
  have hnone : (-((bias - shift : Nat) : Int)).toNat = 0 := by omega
  simp only [hnone, Int.neg_neg, Int.toNat_natCast, Nat.pow_eq, Nat.pow_zero, Nat.mul_one,
    Nat.shiftLeft_eq _ bias]
  exact exact_scaled significand bias shift

theorem roundsTo_of_onGrid? {exponent : Int} (h : onGrid? significand shift exponent = some d) :
    roundsTo significand shift d = true := by
  unfold onGrid? at h
  dsimp only at h
  split at h
  · next hbelow =>
    rw [Bool.and_eq_true] at hbelow
    cases h
    exact hbelow.1
  · split at h
    · next habove =>
      cases h
      exact habove
    · cases h

theorem roundsTo_onGridFrom (significand shift tries : Nat) (exponent : Int) :
    roundsTo significand shift (onGridFrom significand shift tries exponent) = true := by
  induction tries generalizing exponent with
  | zero => exact roundsTo_exact significand shift
  | succ tries ih =>
    unfold onGridFrom
    split
    · next d hgrid => exact roundsTo_of_onGrid? hgrid
    · exact ih (exponent - 1)

/-- Whatever the search for the shortest decimal ends with rounds to the double. -/
theorem roundsTo_shortest (significand shift : Nat) :
    roundsTo significand shift (shortest significand shift) = true :=
  roundsTo_onGridFrom significand shift _ _

end Decimal

end Calculator
