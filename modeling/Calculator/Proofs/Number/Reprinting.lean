import Calculator.Proofs.Number.Operations

/-!
Texts with a fixed count of places, written, read and written again. Reading takes the double
nearest to the decimal that was written. The double that was written is one, so the one that is read
is at least as near to the decimal, and is rounded to it again.
-/

set_option autoImplicit false
set_option relaxedAutoImplicit false

namespace Calculator

namespace Rounding

variable {num num' den : Nat}

theorem even_of_two_mul_abs_halfEven_sub_eq (pos : 0 < den)
    (h : 2 * |((halfEven num den * den : Nat) : Int) - num| = den) : halfEven num den % 2 = 0 := by
  have hdivision : den * (num / den) + num % den = num := Nat.div_add_mod num den
  have hremainder : num % den < den := Nat.mod_lt num pos
  have hupper : (num / den + 1) * den = den * (num / den) + den := by ring
  have hlower : num / den * den = den * (num / den) := Nat.mul_comm _ _
  have hcases : halfEven num den = num / den ∧ 2 * (num % den) < den ∨
      halfEven num den = num / den + 1 ∧ den < 2 * (num % den) ∨
      halfEven num den = num / den + num / den % 2 := by
    unfold halfEven
    dsimp only
    split
    · omega
    · split <;> omega
  rw [Int.abs_eq_natAbs] at h
  rcases hcases with ⟨heq, hr⟩ | ⟨heq, hr⟩ | heq
  · rw [heq, hlower] at h
    omega
  · rw [heq, hupper] at h
    omega
  · omega

theorem halfEven_eq_of_nearer (pos : 0 < den)
    (h : |((halfEven num den * den : Nat) : Int) - num'| ≤
      |((halfEven num den * den : Nat) : Int) - num|) :
    halfEven num' den = halfEven num den := by
  have hclose := two_mul_abs_halfEven_sub_le num pos
  have htie (heq : 2 * |((halfEven num den * den : Nat) : Int) - num| = den) :
      halfEven num den % 2 = 0 := even_of_two_mul_abs_halfEven_sub_eq pos heq
  generalize halfEven num den = n at *
  have hlow : (2 * n - 1) * den = 2 * (n * den) - den := by
    rw [Nat.sub_mul, Nat.one_mul, Nat.mul_assoc]
  have hhigh : (2 * n + 1) * den = 2 * (n * den) + den := by ring
  simp only [Int.abs_eq_natAbs] at h hclose htie
  have hpos : n % 2 = 1 → den ≤ n * den := fun hodd => Nat.le_mul_of_pos_left den (by omega)
  refine halfEven_eq ?_ ?_ ?_ pos
  · omega
  · omega
  · intro hodd
    have hroom := hpos hodd
    omega

end Rounding

namespace Number

open Binary64 (isNegative units unitsOfOne unitsOfOne_eq unitsOfOne_pos nearestUnits unitsNum
  unitsDen)

variable {x : Float} {places : Nat}

theorem halfEven_scaled (m factor s bias : Nat) :
    Rounding.halfEven (m * 2 ^ (s - bias) * factor) (2 ^ (bias - s)) =
      Rounding.halfEven (m * 2 ^ s * factor) (2 ^ bias) := by
  have hbias : 2 ^ bias = 2 ^ (bias - s) * 2 ^ min s bias := by
    rw [← Nat.pow_add]
    congr 1
    omega
  have hs : m * 2 ^ s * factor = m * 2 ^ (s - bias) * factor * 2 ^ min s bias := by
    have hpower : 2 ^ s = 2 ^ (s - bias) * 2 ^ min s bias := by
      rw [← Nat.pow_add]
      congr 1
      omega
    rw [hpower]
    ring
  rw [hbias, hs, Rounding.halfEven_mul_right (Nat.two_pow_pos _)]

/-- The multiple of the last place that a double is written as. -/
def written (places : Nat) (x : Float) : Nat :=
  Rounding.halfEven ((units x).natAbs * 10 ^ places) unitsOfOne

theorem fixedDigits_eq (places significand shift : Nat) : fixedDigits places significand shift =
    Rounding.halfEven (significand * 2 ^ shift * 10 ^ places) unitsOfOne := by
  have hden : unitsDen shift = 2 ^ (1074 - shift) := by rw [unitsDen, Nat.one_shiftLeft]
  have hnum : unitsNum significand shift = significand * 2 ^ (shift - 1074) :=
    Nat.shiftLeft_eq _ _
  have hten : Decimal.ten places = 10 ^ places := rfl
  rw [fixedDigits, hden, hnum, hten, unitsOfOne_eq]
  exact halfEven_scaled significand (10 ^ places) shift 1074

theorem toList_fixed_of_unsigned (places : Nat) (hx : x.isFinite = true)
    (unsigned : isNegative x = false) :
    (fixed places x).toList = Decimal.withPoint places (Decimal.digits (written places x)) := by
  obtain ⟨significand, shift, hvalue, -⟩ := Binary64.exists_magnitude hx
  rw [unsigned] at hvalue
  have hunits : units x = (significand * 2 ^ shift : Nat) := by rw [units, hvalue]; rfl
  rw [fixed_of_finite hvalue, if_neg Bool.false_ne_true, fixedMagnitude_eq, fixedDigits_eq, written,
    hunits, Int.natAbs_natCast]

theorem read?_fixed_eq (hx : x.isFinite = true) (unsigned : isNegative x = false) :
    read? (fixed places x).toList =
      some (Decimal.toFloat ⟨written places x, -(places : Int)⟩) := by
  rw [read?_numeral (numeral_fixed places hx unsigned), toList_fixed_of_unsigned places hx unsigned,
    Decimal.read?_withPoint (fun _ => Decimal.isDigit_of_mem_digits) (Decimal.digits_ne_nil _),
    Decimal.ofDigits_digits, Option.map_some]

theorem units_toFloat {coefficient : Nat} (h : places ≤ 300)
    (hfinite : (Decimal.toFloat ⟨coefficient, -(places : Int)⟩).isFinite = true) :
    units (Decimal.toFloat ⟨coefficient, -(places : Int)⟩) =
      nearestUnits (coefficient * unitsOfOne) (10 ^ places) := by
  have hden : 0 < 10 ^ places := Nat.pow_pos (by decide)
  by_cases hzero : coefficient = 0
  · subst hzero
    rw [Nat.zero_mul, Binary64.nearestUnits_zero hden]
    rfl
  · obtain ⟨m, k, normal, hunits, hfield⟩ :=
      Binary64.exists_normal (coefficient * unitsOfOne) hden
    rw [toFloat_of_places hzero h, Binary64.nearest, Binary64.nearestField_eq_min,
      ← hfield] at hfinite ⊢
    rcases Nat.lt_or_ge (k * Binary64.hiddenBit + m) Binary64.infinityField with hlt | hge
    · rw [Nat.min_eq_left (Nat.le_of_lt hlt),
        (Binary64.units_floatOfField ⟨normal.below, normal.full, hlt⟩).2, hunits, nearestUnits]
    · rw [Nat.min_eq_right hge] at hfinite
      have hinfinite : (Binary64.floatOfField Binary64.infinityField).isFinite = false := by
        decide +kernel
      rw [hinfinite] at hfinite
      cases hfinite

/-- What is read is written as the same text again. -/
theorem fixed_read? (hx : x.isFinite = true) (unsigned : isNegative x = false)
    (h : places ≤ 300) : ∃ value, read? (fixed places x).toList = some value ∧
      value.isFinite = true ∧ isNegative value = false ∧
      units value = nearestUnits (written places x * unitsOfOne) (10 ^ places) ∧
      fixed places value = fixed places x := by
  have hden : 0 < 10 ^ places := Nat.pow_pos (by decide)
  obtain ⟨value, hread, hfinite, -⟩ := read?_fixed hx unsigned h
  have hsign := isNegative_of_read?_numeral (numeral_fixed places hx unsigned) hread
  have hvalue : value = Decimal.toFloat ⟨written places x, -(places : Int)⟩ := by
    rw [read?_fixed_eq hx unsigned, Option.some.injEq] at hread
    exact hread.symm
  have hunits : units value = nearestUnits (written places x * unitsOfOne) (10 ^ places) := by
    rw [hvalue] at hfinite ⊢
    exact units_toFloat h hfinite
  refine ⟨value, hread, hfinite, hsign, hunits, ?_⟩
  obtain ⟨m, k, magnitude, -, hx'⟩ := Binary64.exists_ofMagnitude hx
  have habs : (units x).natAbs = m * 2 ^ k := by rw [hx', Binary64.natAbs_apply]
  have hnearest :=
    Binary64.nearestUnits_closest (written places x * unitsOfOne) hden magnitude.normal
  have hnearer : |((written places x * unitsOfOne : Nat) : Int) -
        ((units value).natAbs * 10 ^ places : Nat)| ≤
      |((written places x * unitsOfOne : Nat) : Int) - ((units x).natAbs * 10 ^ places : Nat)| := by
    rw [hunits, Int.natAbs_natCast, habs, abs_sub_comm _ ((m * 2 ^ k * 10 ^ places : Nat) : Int),
      abs_sub_comm]
    exact hnearest
  have hsame : written places value = written places x :=
    Rounding.halfEven_eq_of_nearer unitsOfOne_pos hnearer
  apply String.toList_inj.mp
  rw [toList_fixed_of_unsigned places hfinite hsign, toList_fixed_of_unsigned places hx unsigned,
    hsame]

end Number

end Calculator
