import Calculator.Number.Notation
import Calculator.Number.Reader
import Calculator.Proofs.Number.Nearest
import Calculator.Proofs.Text.Scanning
import Mathlib

/-!
Texts of finite doubles. Without its sign such a text is digits and points only, and the opposite of
a finite double has the same text but for the sign.
-/

set_option autoImplicit false
set_option relaxedAutoImplicit false

namespace Calculator

namespace Binary64

open Float.Model
open Float.Model.UnpackedFloat (Sign packComponents unpackExponent)

theorem signBit_eq : signBit = 2 ^ 63 := rfl

theorem infinityField_eq : infinityField = 2047 * 2 ^ 52 := rfl

theorem toNat_unpackExponent (b : BitVec Format.binary64.numBits) :
    (unpackExponent b).toNat = b.toNat / 2 ^ 52 % 2 ^ 11 := by
  rw [UnpackedFloat.unpackExponent_def, BitVec.extractLsb'_toNat, Nat.shiftRight_eq_div_pow]

theorem isFinite_unpack_iff (b : BitVec Format.binary64.numBits) :
    (UnpackedFloat.unpack Format.binary64 b).isFinite = true ↔ unpackExponent b ≠ -1#_ := by
  rw [UnpackedFloat.unpack]
  by_cases hexponent : unpackExponent b = -1#_
  · simp only [if_pos hexponent]
    split <;> simp [UnpackedFloat.isFinite, hexponent]
  · simp only [if_neg hexponent]
    refine iff_of_true ?_ hexponent
    split
    · split <;> rfl
    · rfl

theorem isFinite_iff {x : Float} :
    x.isFinite = true ↔ x.toBits.toNat % signBit < infinityField := by
  have hones : (-1#11 : BitVec 11).toNat = 2047 := by decide
  have hfield : x.toBits.toBitVec.toNat = x.toBits.toNat := rfl
  refine (isFinite_unpack_iff x.toBits.toBitVec).trans ?_
  rw [Ne, ← BitVec.toNat_inj, toNat_unpackExponent, hones, hfield, signBit_eq, infinityField_eq]
  omega

theorem toNat_packComponents (s : Sign) (e : BitVec Format.binary64.exponentBits)
    (m : BitVec Format.binary64.mantissaBitsWithoutImplicit) :
    (packComponents Format.binary64 s e m).toNat =
      s.toBitVec.toNat * 2 ^ 63 + (e.toNat * 2 ^ 52 + m.toNat) := by
  have he : e.toNat < 2 ^ 11 := e.isLt
  have hm : m.toNat < 2 ^ 52 := m.isLt
  rw [packComponents, BitVec.toNat_append, BitVec.toNat_append,
    ← Nat.shiftLeft_add_eq_or_of_lt he, ← Nat.shiftLeft_add_eq_or_of_lt hm, Nat.shiftLeft_eq,
    Nat.shiftLeft_eq]
  omega

theorem pack_neg {u : UnpackedFloat} (h : u.isFinite = true) :
    ∃ s e m, u.pack Format.binary64 = packComponents Format.binary64 s e m ∧
      u.neg.pack Format.binary64 = packComponents Format.binary64 (-s) e m := by
  cases u with
  | notANumber | infinity => cases h
  | zero s => exact ⟨s, _, _, rfl, rfl⟩
  | finite s m e hm =>
    simp only [UnpackedFloat.neg, UnpackedFloat.pack]
    by_cases hlarge : 2 ^ Format.binary64.exponentBits ≤
      (e + Format.binary64.exponentBias + Format.binary64.mantissaBitsWithoutImplicit).toNat + 1
    · simp only [if_pos hlarge]
      exact ⟨s, _, _, rfl, rfl⟩
    · simp only [if_neg hlarge]
      by_cases hnormal : m.log2 + 1 = Format.binary64.mantissaBits
      · simp only [if_pos hnormal]
        exact ⟨s, _, _, rfl, rfl⟩
      · simp only [if_neg hnormal]
        exact ⟨s, _, _, rfl, rfl⟩

theorem toBits_neg {x : Float} (h : x.isFinite = true) :
    (-x).toBits.toNat % signBit = x.toBits.toNat % signBit ∧
      (signBit ≤ (-x).toBits.toNat ↔ ¬signBit ≤ x.toBits.toNat) := by
  obtain ⟨s, e, m, hx, hneg⟩ := pack_neg (u := x.toModel.unpack) h
  have hbits : x.toBits.toNat = s.toBitVec.toNat * 2 ^ 63 + (e.toNat * 2 ^ 52 + m.toNat) := by
    rw [← toNat_packComponents, ← hx]
    exact congrArg BitVec.toNat (UnpackedFloat.pack_unpack_of_valid x.toModel.valid).symm
  have hbits' : (-x).toBits.toNat =
      (-s).toBitVec.toNat * 2 ^ 63 + (e.toNat * 2 ^ 52 + m.toNat) := by
    rw [← toNat_packComponents, ← hneg]
    rfl
  have he : e.toNat < 2 ^ 11 := e.isLt
  have hm : m.toNat < 2 ^ 52 := m.isLt
  have hsigns : s.toBitVec.toNat + (-s).toBitVec.toNat = 1 := by cases s <;> rfl
  rw [hbits, hbits', signBit_eq]
  omega

theorem ofField_of_lt {field : Nat} (h : field < infinityField) :
    ∃ significand shift, (∀ negative, ofField negative field = .finite negative significand shift) ∧
      Magnitude significand shift ∧ shift * hiddenBit + significand = field := by
  have hpos : 0 < hiddenBit := by decide
  by_cases hsmall : field < hiddenBit
  · refine ⟨field, 0, fun negative => if_pos hsmall, ⟨by omega, by omega, by omega⟩, by omega⟩
  · have hdivision : hiddenBit * (field / hiddenBit) + field % hiddenBit = field :=
      Nat.div_add_mod field hiddenBit
    have hremainder : field % hiddenBit < hiddenBit := Nat.mod_lt field hpos
    have hquotient : 0 < field / hiddenBit := Nat.div_pos (Nat.le_of_not_lt hsmall) hpos
    have hfield : (field / hiddenBit - 1) * hiddenBit + (hiddenBit + field % hiddenBit) =
      field := by
      have hshift : (field / hiddenBit - 1) * hiddenBit + hiddenBit =
          hiddenBit * (field / hiddenBit) := by
        rw [← Nat.succ_mul, Nat.succ_eq_add_one, Nat.sub_add_cancel hquotient, Nat.mul_comm]
      omega
    refine ⟨hiddenBit + field % hiddenBit, field / hiddenBit - 1, fun negative => ?_,
      ⟨by omega, fun _ => Nat.le_add_right _ _, by omega⟩, hfield⟩
    rw [ofField, if_neg hsmall, if_pos h]

theorem isNegative_eq_decide {x : Float} (h : x.isFinite = true) :
    isNegative x = decide (signBit ≤ x.toBits.toNat) := by
  obtain ⟨significand, shift, hfield, -⟩ := ofField_of_lt (isFinite_iff.mp h)
  have hx : ofFloat x = .finite (decide (signBit ≤ x.toBits.toNat)) significand shift := hfield _
  rw [isNegative, hx]

theorem ofFloat_of_isFinite {x : Float} (h : x.isFinite = true) :
    ∃ significand shift, ofFloat x = .finite (isNegative x) significand shift ∧
      ofFloat (-x) = .finite (!isNegative x) significand shift := by
  obtain ⟨significand, shift, hfield, -⟩ := ofField_of_lt (isFinite_iff.mp h)
  obtain ⟨hmagnitude, hsign⟩ := toBits_neg h
  have hx : ofFloat x = .finite (decide (signBit ≤ x.toBits.toNat)) significand shift := hfield _
  refine ⟨significand, shift, (isNegative_eq_decide h).symm ▸ hx, ?_⟩
  rw [ofFloat, hmagnitude, hfield, isNegative_eq_decide h, decide_eq_decide.mpr hsign, decide_not]

end Binary64

theorem Pattern.toNat_of_isNumeral {c : Char} (h : isNumeral c = true) :
    46 ≤ c.toNat ∧ c.toNat ≤ 57 := by
  rcases Bool.or_eq_true_iff.mp h with hdigit | hpoint
  · simp only [Char.isDigit, Bool.and_eq_true, decide_eq_true_eq, UInt32.le_iff_toNat_le, ge_iff_le]
      at hdigit
    exact ⟨Nat.le_trans (by decide) hdigit.1, hdigit.2⟩
  · rw [of_decide_eq_true hpoint]
    decide

theorem Pattern.isBlank_of_isNumeral {c : Char} (h : isNumeral c = true) :
    Text.isBlank c = false := by
  have hcode := toNat_of_isNumeral h
  simp only [Text.isBlank, Bool.or_eq_false_iff, Bool.and_eq_false_iff, decide_eq_false_iff_not]
  omega

namespace Decimal

open Pattern (isNumeral)

theorem isNumeral_of_mem_digits {n : Nat} {c : Char} (h : c ∈ digits n) : isNumeral c = true := by
  rw [isNumeral, Nat.isDigit_of_mem_toDigits (by decide) (by decide) h, Bool.true_or]

theorem isNumeral_of_mem_withPoint {places : Nat} {text : List Char}
    (h : ∀ c ∈ text, isNumeral c = true) {c : Char} (hc : c ∈ withPoint places text) :
    isNumeral c = true := by
  rw [withPoint] at hc
  split at hc
  · exact h c hc
  · have padded {c : Char}
        (hc : c ∈ List.replicate (places + 1 - text.length) '0' ++ text) : isNumeral c = true := by
      rcases List.mem_append.mp hc with hc | hc
      · rw [List.eq_of_mem_replicate hc]
        rfl
      · exact h c hc
    rcases List.mem_append.mp hc with hc | hc
    · exact padded (List.mem_of_mem_take hc)
    · rcases List.mem_cons.mp hc with rfl | hc
      · rfl
      · exact padded (List.mem_of_mem_drop hc)

theorem withPoint_ne_nil {places : Nat} {text : List Char} (h : text ≠ []) :
    withPoint places text ≠ [] := by
  rw [withPoint]
  split
  · exact h
  · simp

theorem isNumeral_of_mem_positional {d : Decimal} {c : Char} (h : c ∈ d.positional) :
    isNumeral c = true := by
  refine isNumeral_of_mem_withPoint (fun c hc => ?_) h
  rcases List.mem_append.mp hc with hc | hc
  · exact isNumeral_of_mem_digits hc
  · rw [List.eq_of_mem_replicate hc]
    rfl

theorem positional_ne_nil (d : Decimal) : d.positional ≠ [] :=
  withPoint_ne_nil (by simp [digits, Nat.toDigits_ne_nil])

end Decimal

namespace Number

/-- A text that is one number to every grammar: a run of digits and points. -/
structure Numeral (text : List Char) : Prop where
  ne_nil : text ≠ []
  numerals : ∀ c ∈ text, Pattern.isNumeral c = true

theorem Numeral.filter_not_isBlank {text : List Char} (h : Numeral text) :
    text.filter (fun c => !Text.isBlank c) = text := by
  refine List.filter_eq_self.mpr fun c hc => ?_
  rw [Pattern.isBlank_of_isNumeral (h.numerals c hc)]
  rfl

theorem plain_of_finite {x : Float} {significand shift : Nat}
    (h : Binary64.ofFloat x = .finite false significand shift) :
    (plain x).toList = plainMagnitude significand shift := by
  simp only [plain, write, h]
  exact String.toList_ofList

theorem numeral_plainMagnitude (significand shift : Nat) :
    Numeral (plainMagnitude significand shift) := by
  rw [plainMagnitude]
  split
  · exact ⟨by simp, by simp [Pattern.isNumeral]⟩
  · exact ⟨Decimal.positional_ne_nil _, fun c => Decimal.isNumeral_of_mem_positional⟩

theorem numeral_plain {x : Float} (finite : x.isFinite = true)
    (unsigned : Binary64.isNegative x = false) : Numeral (plain x).toList := by
  obtain ⟨significand, shift, hx, -⟩ := Binary64.ofFloat_of_isFinite finite
  rw [unsigned] at hx
  rw [plain_of_finite hx]
  exact numeral_plainMagnitude significand shift

theorem plain_magnitude {x : Float} (h : x.isFinite = true) :
    (Signed.ofFloat x).negative = Binary64.isNegative x ∧
      Numeral (plain (Signed.ofFloat x).magnitude).toList := by
  cases hnegative : Binary64.isNegative x with
  | true =>
    obtain ⟨significand, shift, -, hneg⟩ := Binary64.ofFloat_of_isFinite h
    rw [hnegative] at hneg
    rw [Signed.ofFloat, if_pos hnegative]
    refine ⟨rfl, ?_⟩
    rw [plain_of_finite hneg]
    exact numeral_plainMagnitude significand shift
  | false =>
    rw [Signed.ofFloat, if_neg (by simp [hnegative])]
    exact ⟨rfl, numeral_plain h hnegative⟩

end Number

end Calculator
