import Calculator.Proofs.Number.Plain

/-!
Plain texts read back. The text of a finite double is read as the decimal that was written, and that
decimal rounds to the double again: `read?_plain`. What a run of digits and points reads as is never
negative.
-/

set_option autoImplicit false
set_option relaxedAutoImplicit false

namespace Calculator

namespace Binary64

open Float.Model
open Float.Model.UnpackedFloat (isNaNBits pack_unpack unpack unpackMantissa_def)

theorem toBits_floatOfField {field : Nat} (h : field ≤ infinityField) :
    (floatOfField field).toBits.toNat = field := by
  have hinfinity : infinityField = 2047 * 2 ^ 52 := infinityField_eq
  have hfield : (UInt64.ofNat field).toBitVec.toNat = field := by
    refine UInt64.toNat_ofNat_of_lt (Nat.lt_of_le_of_lt h ?_)
    decide
  have hbits : (floatOfField field).toBits.toNat =
      ((unpack Format.binary64 (UInt64.ofNat field).toBitVec).pack Format.binary64).toNat := rfl
  generalize (UInt64.ofNat field).toBitVec = b at hfield hbits
  have hnumber : ¬@isNaNBits Format.binary64 b = true := by
    intro hnan
    obtain ⟨hexponent, hmantissa⟩ := of_decide_eq_true hnan
    have hones : b.toNat / 2 ^ 52 % 2 ^ 11 = 2047 := by
      rw [← toNat_unpackExponent, hexponent]
      decide
    apply hmantissa
    apply BitVec.eq_of_toNat_eq
    rw [unpackMantissa_def, BitVec.extractLsb'_toNat]
    change (b.toNat >>> 0) % 2 ^ 52 = 0
    rw [Nat.shiftRight_zero]
    omega
  rw [hbits, pack_unpack, if_neg hnumber, hfield]

theorem isNegative_floatOfField {field : Nat} (h : field ≤ infinityField) :
    isNegative (floatOfField field) = false := by
  have hsmall : infinityField < signBit := by decide
  have hsign : decide (signBit ≤ field) = false := decide_eq_false (by omega)
  unfold isNegative ofFloat ofField
  rw [toBits_floatOfField h]
  dsimp only
  rw [hsign]
  split_ifs <;> rfl

end Binary64

namespace Decimal

open Binary64 (Magnitude RoundsTo gapBelow floatOfField hiddenBit)

theorem ofDigits_digits (n : Nat) : ofDigits (digits n) = n :=
  Nat.ofDigitChars_toDigits (by decide) (by decide)

theorem ofDigits_append_zeros (text : List Char) (count : Nat) :
    ofDigits (text ++ List.replicate count '0') = ofDigits text * 10 ^ count := by
  have happend : ofDigits (text ++ List.replicate count '0') =
      Nat.ofDigitChars 10 (List.replicate count '0') (ofDigits text) := Nat.ofDigitChars_append 0
  rw [happend, Nat.ofDigitChars_replicate_zero, Nat.mul_comm]

theorem ofDigits_zeros_append (text : List Char) (count : Nat) :
    ofDigits (List.replicate count '0' ++ text) = ofDigits text := by
  have happend : ofDigits (List.replicate count '0' ++ text) =
      Nat.ofDigitChars 10 text (Nat.ofDigitChars 10 (List.replicate count '0') 0) :=
    Nat.ofDigitChars_append 0
  rw [happend, Nat.ofDigitChars_replicate_zero, Nat.mul_zero]
  rfl

theorem isDigit_of_mem_digits {n : Nat} {c : Char} (h : c ∈ digits n) : c.isDigit = true :=
  Nat.isDigit_of_mem_toDigits (by decide) (by decide) h

theorem isDigit_of_mem_zeros {count : Nat} {c : Char} (h : c ∈ List.replicate count '0') :
    c.isDigit = true := by
  rw [List.eq_of_mem_replicate h]
  rfl

theorem digits_ne_nil (n : Nat) : digits n ≠ [] := Nat.toDigits_ne_nil

theorem spanDigits_append {text rest : List Char} (h : ∀ c ∈ text, c.isDigit = true)
    (hrest : ∀ c ∈ rest.head?, c.isDigit = false) : spanDigits (text ++ rest) = (text, rest) := by
  have hstop : rest.takeWhile Char.isDigit = [] ∧ rest.dropWhile Char.isDigit = rest := by
    cases rest with
    | nil => exact ⟨rfl, rfl⟩
    | cons c rest =>
      have hc : c.isDigit = false := hrest c rfl
      exact ⟨List.takeWhile_cons_of_neg (by simp [hc]), List.dropWhile_cons_of_neg (by simp [hc])⟩
  unfold spanDigits
  rw [List.takeWhile_append_of_pos h, List.dropWhile_append_of_pos h, hstop.1, hstop.2,
    List.append_nil]

theorem spanDigits_all {text : List Char} (h : ∀ c ∈ text, c.isDigit = true) :
    spanDigits text = (text, []) := by
  have hall : spanDigits (text ++ []) = (text, []) := spanDigits_append h (by simp)
  rwa [List.append_nil] at hall

theorem read?_withPoint {places : Nat} {text : List Char} (h : ∀ c ∈ text, c.isDigit = true)
    (hne : text ≠ []) : read? (withPoint places text) = some ⟨ofDigits text, -(places : Int)⟩ := by
  unfold withPoint
  split
  · next hnone =>
    subst hnone
    have hempty : text.isEmpty = false := List.isEmpty_eq_false_iff.mpr hne
    simp [read?, spanDigits_all h, hempty]
  · next hsome =>
    dsimp only
    generalize hpadded : List.replicate (places + 1 - text.length) '0' ++ text = padded
    have hlength : places + 1 ≤ padded.length := by
      rw [← hpadded, List.length_append, List.length_replicate]
      omega
    have hdigits : ∀ c ∈ padded, c.isDigit = true := by
      intro c hc
      rw [← hpadded] at hc
      rcases List.mem_append.mp hc with hc | hc
      · exact isDigit_of_mem_zeros hc
      · exact h c hc
    have hvalue : ofDigits padded = ofDigits text := by rw [← hpadded, ofDigits_zeros_append]
    have hpoint : ∀ c ∈ ('.' :: padded.drop (padded.length - places)).head?, c.isDigit = false := by
      simp
    have hbefore : ∀ c ∈ padded.take (padded.length - places), c.isDigit = true :=
      fun c hc => hdigits c (List.mem_of_mem_take hc)
    have hafter : ∀ c ∈ padded.drop (padded.length - places), c.isDigit = true :=
      fun c hc => hdigits c (List.mem_of_mem_drop hc)
    have hwhole := spanDigits_append hbefore hpoint
    have hfraction := spanDigits_all hafter
    have hempty : (padded.take (padded.length - places)).isEmpty = false := by
      rw [List.isEmpty_eq_false_iff, ← List.length_pos_iff, List.length_take]
      omega
    have hplaces : (padded.drop (padded.length - places)).length = places := by
      rw [List.length_drop]
      omega
    simp only [read?, hwhole, hfraction, hempty, Bool.false_and, Bool.false_eq_true, if_false,
      Option.map_some, List.take_append_drop, hvalue, hplaces, Int.zero_sub]

theorem read?_positional (d : Decimal) :
    read? d.positional = some ⟨d.num, -((-d.exponent).toNat : Int)⟩ := by
  have hdigits : ∀ c ∈ digits d.coefficient ++ List.replicate d.exponent.toNat '0',
      c.isDigit = true := by
    intro c hc
    rcases List.mem_append.mp hc with hc | hc
    · exact isDigit_of_mem_digits hc
    · exact isDigit_of_mem_zeros hc
  have hne : digits d.coefficient ++ List.replicate d.exponent.toNat '0' ≠ [] := by
    simp [digits_ne_nil]
  rw [positional, read?_withPoint hdigits hne, ofDigits_append_zeros, ofDigits_digits]
  rfl

theorem two_pow_lt_ten_pow : 2 ^ 1075 < 10 ^ 324 := by decide +kernel

/-- A decimal below one that rounds to a positive magnitude is not cut off as too small. -/
theorem toFloat_eq {significand shift coefficient places : Nat}
    (magnitude : Magnitude significand shift) (positive : 0 < significand)
    (h : RoundsTo significand shift (coefficient <<< 1074) (10 ^ places)) :
    toFloat ⟨coefficient, -(places : Int)⟩ = floatOfField (shift * hiddenBit + significand) := by
  have hunit : 0 < 10 ^ places * 2 ^ shift := by positivity
  have hgap : gapBelow significand shift ≤ 2 := by
    unfold gapBelow
    split <;> omega
  have hleast : 2 * 10 ^ places ≤ 4 * (coefficient <<< 1074) := by
    have hbinade : 10 ^ places ≤ 10 ^ places * 2 ^ shift :=
      Nat.le_mul_of_pos_right _ (Nat.two_pow_pos shift)
    have hlow : 2 * (10 ^ places * 2 ^ shift) ≤
        (4 * significand - gapBelow significand shift) * (10 ^ places * 2 ^ shift) :=
      Nat.mul_le_mul_right _ (by omega)
    have := h.low
    omega
  have hten : 0 < 10 ^ places := by positivity
  have hsome : coefficient ≠ 0 := by
    rintro rfl
    rw [Nat.zero_shiftLeft] at hleast
    omega
  have hdigits : places < (digits coefficient).length + 324 := by
    have hlength : 0 < (digits coefficient).length := List.length_pos_iff.mpr (digits_ne_nil _)
    have hcoefficient : coefficient < 10 ^ (digits coefficient).length :=
      (Nat.length_toDigits_le_iff (by decide) hlength).mp (Nat.le_refl _)
    have hdouble : 2 * (coefficient <<< 1074) = coefficient * 2 ^ 1075 := by
      rw [Nat.shiftLeft_eq]
      generalize hbias : 1074 = bias
      rw [show 1075 = bias + 1 by omega, Nat.pow_succ]
      ring
    have hlarge : 10 ^ places < 10 ^ ((digits coefficient).length + 324) := by
      calc 10 ^ places ≤ coefficient * 2 ^ 1075 := by omega
        _ < coefficient * 10 ^ 324 :=
          Nat.mul_lt_mul_of_pos_left two_pow_lt_ten_pow (Nat.pos_of_ne_zero hsome)
        _ ≤ 10 ^ (digits coefficient).length * 10 ^ 324 :=
          Nat.mul_le_mul_right _ (Nat.le_of_lt hcoefficient)
        _ = 10 ^ ((digits coefficient).length + 324) := by rw [Nat.pow_add]
    exact (Nat.pow_lt_pow_iff_right (by decide)).mp hlarge
  have hnotLarge : ¬largestExponent < -(places : Int) := by
    unfold largestExponent
    omega
  have hnotSmall : ¬((digits coefficient).length : Int) + -(places : Int) < smallestOrder := by
    unfold smallestOrder
    omega
  have hquotient : num ⟨coefficient, -(places : Int)⟩ = coefficient ∧
      den ⟨coefficient, -(places : Int)⟩ = 10 ^ places := by
    simp [num, den, ten]
  rw [toFloat, if_neg hsome, if_neg hnotLarge, if_neg hnotSmall, hquotient.1, hquotient.2,
    Binary64.nearest, Binary64.nearestField_eq magnitude h hten]

/-- The shortest decimal of a magnitude, written out and read again, rounds to the magnitude. -/
theorem toFloat_read?_shortest {significand shift : Nat} (magnitude : Magnitude significand shift)
    (positive : 0 < significand) :
    (read? (shortest significand shift).positional).map toFloat =
      some (floatOfField (shift * hiddenBit + significand)) := by
  have hden : (shortest significand shift).den =
      10 ^ (-(shortest significand shift).exponent).toNat := rfl
  have hrounds := roundsTo_iff.mp (roundsTo_shortest significand shift)
  rw [hden] at hrounds
  rw [read?_positional, Option.map_some, toFloat_eq magnitude positive hrounds]

theorem isNegative_toFloat (d : Decimal) : Binary64.isNegative d.toFloat = false := by
  unfold toFloat
  split
  · rfl
  · split
    · exact Binary64.isNegative_floatOfField (Nat.le_refl _)
    · split
      · rfl
      · exact Binary64.isNegative_floatOfField (Nat.min_le_right _ _)

end Decimal

namespace Number

open Pattern (isNumeral)

theorem toLower_of_isNumeral {c : Char} (h : isNumeral c = true) : c.toLower = c := by
  have hcode := Pattern.toNat_of_isNumeral h
  have hupper : ¬(65 ≤ c.val ∧ c.val ≤ 90) := by
    intro hletter
    have hlow : 65 ≤ c.toNat := UInt32.le_iff_toNat_le.mp hletter.1
    omega
  unfold Char.toLower
  rw [dif_neg (by exact hupper)]

theorem read?_numeral {text : List Char} (h : Numeral text) :
    read? text = (Decimal.read? text).map Decimal.toFloat := by
  obtain ⟨c, rest, rfl⟩ := List.exists_cons_of_ne_nil h.ne_nil
  have hnumeral := h.numerals c List.mem_cons_self
  have hcode := Pattern.toNat_of_isNumeral hnumeral
  have hword (letter : Char) (hletter : 57 < letter.toNat) (word : List Char) :
      (c :: rest).map Char.toLower ≠ letter :: word := by
    intro heq
    rw [List.map_cons, toLower_of_isNumeral hnumeral] at heq
    have hc := (List.cons.inj heq).1
    subst hc
    omega
  have hmagnitude : readMagnitude? (c :: rest) =
      (Decimal.read? (c :: rest)).map Decimal.toFloat := by
    have hinfinite : ¬(decide ((c :: rest).map Char.toLower = "inf".toList) ||
        decide ((c :: rest).map Char.toLower = "infinity".toList)) = true := by
      intro hor
      rcases Bool.or_eq_true_iff.mp hor with hinf | hinfinity
      · exact hword 'i' (by decide) ['n', 'f'] (of_decide_eq_true hinf)
      · exact hword 'i' (by decide) ['n', 'f', 'i', 'n', 'i', 't', 'y']
          (of_decide_eq_true hinfinity)
    have hnan : (c :: rest).map Char.toLower ≠ "nan".toList := hword 'n' (by decide) ['a', 'n']
    unfold readMagnitude?
    dsimp only
    rw [if_neg hinfinite, if_neg hnan]
  have hsigned : Signed.read? (c :: rest) =
      (readMagnitude? (c :: rest)).map fun magnitude => ⟨false, magnitude⟩ := by
    unfold Signed.read?
    split
    · next heq =>
      have hc := (List.cons.inj heq).1
      subst hc
      exact absurd hcode.1 (by decide)
    · next heq =>
      have hc := (List.cons.inj heq).1
      subst hc
      exact absurd hcode.1 (by decide)
    · rfl
  rw [read?, hsigned, hmagnitude, Option.map_map, Option.map_map]
  rfl

/-- The plain text of a finite double that is not negative reads back as the double. -/
theorem read?_plain {x : Float} (finite : x.isFinite = true)
    (sign : Binary64.isNegative x = false) : read? (plain x).toList = some x := by
  obtain ⟨significand, shift, hfield, hmagnitude, hpattern⟩ :=
    Binary64.ofField_of_lt (Binary64.isFinite_iff.mp finite)
  have hx : Binary64.ofFloat x =
      .finite (decide (Binary64.signBit ≤ x.toBits.toNat)) significand shift := hfield _
  have hsign : decide (Binary64.signBit ≤ x.toBits.toNat) = false := by
    rwa [← Binary64.isNegative_eq_decide finite]
  have hbits : x.toBits.toNat % Binary64.signBit = x.toBits.toNat :=
    Nat.mod_eq_of_lt (Nat.lt_of_not_le (of_decide_eq_false hsign))
  have hfloat : Binary64.floatOfField (shift * Binary64.hiddenBit + significand) = x := by
    rw [hpattern, hbits, Binary64.floatOfField, UInt64.ofNat_toNat, Float.ofBits_toBits]
  rw [hsign] at hx
  rw [plain_of_finite hx, read?_numeral (numeral_plainMagnitude significand shift), plainMagnitude]
  by_cases hzero : significand = 0
  · have hpos : 0 < Binary64.hiddenBit := by decide
    have hshift : shift = 0 := by
      have := hmagnitude.full
      omega
    rw [if_pos hzero, ← hfloat, hzero, hshift]
    rfl
  · rw [if_neg hzero, Decimal.toFloat_read?_shortest hmagnitude (Nat.pos_of_ne_zero hzero), hfloat]

theorem isNegative_of_read?_numeral {text : List Char} (h : Numeral text) {x : Float}
    (hx : read? text = some x) : Binary64.isNegative x = false := by
  rw [read?_numeral h] at hx
  obtain ⟨d, -, rfl⟩ := Option.map_eq_some_iff.mp hx
  exact d.isNegative_toFloat

end Number

end Calculator
