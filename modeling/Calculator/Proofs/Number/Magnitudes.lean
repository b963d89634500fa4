import Calculator.Proofs.Number.Exact
import Calculator.Proofs.Number.ReadBack

/-!
A double as the multiple of the least positive one. `Binary64.ofFloat` reads a significand and a
shift off the bits; the arithmetic on doubles works on a significand and an exponent of their own,
which are the same but for an offset. So the units of a double, `significand * 2 ^ shift` with its
sign, are what its comparisons and its differences can be told from.
-/

set_option autoImplicit false
set_option relaxedAutoImplicit false

namespace Calculator.Binary64

open Float.Model (Format)
open Float.Model.UnpackedFloat

variable {significand shift : Nat} {x y : Float}

def signOf (negative : Bool) : Sign := if negative then .negative else .positive

def ofMagnitude (s : Sign) (significand shift : Nat) : Float.Model.UnpackedFloat :=
  if h : significand = 0 then .zero s
  else .finite s significand ((shift : Int) - 1074) (Nat.pos_of_ne_zero h)

theorem ofMagnitude_zero (s : Sign) (shift : Nat) : ofMagnitude s 0 shift = .zero s := dif_pos rfl

theorem ofMagnitude_of_ne_zero (s : Sign) (shift : Nat) (h : significand ≠ 0) :
    ofMagnitude s significand shift =
      .finite s significand ((shift : Int) - 1074) (Nat.pos_of_ne_zero h) := dif_neg h

theorem exists_signOf (s : Sign) : ∃ negative, signOf negative = s := by
  cases s
  · exact ⟨true, rfl⟩
  · exact ⟨false, rfl⟩

theorem exists_magnitude (h : x.isFinite = true) :
    ∃ significand shift, ofFloat x = .finite (isNegative x) significand shift ∧
      Magnitude significand shift ∧ shift * hiddenBit + significand = x.toBits.toNat % signBit := by
  obtain ⟨significand, shift, hfield, hmagnitude, hbits⟩ := ofField_of_lt (isFinite_iff.mp h)
  refine ⟨significand, shift, ?_, hmagnitude, hbits⟩
  rw [isNegative_eq_decide h]
  exact hfield _

theorem toNat_unpackMantissa (b : BitVec Format.binary64.numBits) :
    (unpackMantissa b).toNat = b.toNat % 2 ^ 52 := by
  rw [unpackMantissa_def, BitVec.extractLsb'_toNat]
  rfl

theorem unpacked_eq (h : x.isFinite = true) (magnitude : Magnitude significand shift)
    (hbits : shift * hiddenBit + significand = x.toBits.toNat % signBit) :
    unpacked x = ofMagnitude (signOf (isNegative x)) significand shift := by
  obtain ⟨below, full, -⟩ := magnitude
  have hfinite := (isFinite_unpack_iff x.toBits.toBitVec).mp h
  have hunpacked : unpacked x = unpack Format.binary64 x.toBits.toBitVec := rfl
  have hfield : x.toBits.toBitVec.toNat = x.toBits.toNat := rfl
  have hexponent := toNat_unpackExponent x.toBits.toBitVec
  have hmantissa := toNat_unpackMantissa x.toBits.toBitVec
  have hbias : ((Format.binary64.exponentBias : Nat) : Int) = 1023 := rfl
  have hplaces : ((Format.binary64.mantissaBitsWithoutImplicit : Nat) : Int) = 52 := rfl
  rw [hiddenBit_eq] at *
  rw [signBit_eq] at hbits
  rw [hfield] at hexponent hmantissa
  rw [hunpacked, unpack, if_neg hfinite, ofBitVec_unpackSign h, ofMagnitude, signOf]
  generalize (if isNegative x then Sign.negative else Sign.positive) = s
  have happend : (1#1 ++ @unpackMantissa Format.binary64 x.toBits.toBitVec).toNat =
      2 ^ 52 + (@unpackMantissa Format.binary64 x.toBits.toBitVec).toNat := by
    rw [BitVec.toNat_append, ← Nat.shiftLeft_add_eq_or_of_lt (BitVec.isLt _)]
    rfl
  split
  · next hzero =>
    have hnone : (@unpackExponent Format.binary64 x.toBits.toBitVec).toNat = 0 := by
      rw [hzero]; rfl
    have hsmall : shift = 0 ∧ significand < 2 ^ 52 := by omega
    split
    · next hm =>
      have : (@unpackMantissa Format.binary64 x.toBits.toBitVec).toNat = 0 := by
        rw [hm]; rfl
      rw [dif_pos (by omega)]
    · next hm =>
      rw [dif_neg]
      · congr 1
        · omega
        · omega
      · intro hz
        apply hm
        apply BitVec.eq_of_toNat_eq
        change _ = 0
        omega
  · next hnonzero =>
    have hpositive : (@unpackExponent Format.binary64 x.toBits.toBitVec).toNat ≠ 0 :=
      fun hzero => hnonzero (BitVec.eq_of_toNat_eq hzero)
    have hlarge : 2 ^ 52 ≤ significand := by omega
    rw [dif_neg (by omega)]
    congr 1
    · omega
    · omega

theorem toNat_sign (negative : Bool) : (signOf negative).toBitVec.toNat = negative.toNat := by
  cases negative <;> rfl

theorem log2_of_full (low : 2 ^ 52 ≤ significand) (high : significand < 2 ^ 53) :
    significand.log2 = 52 := (Nat.log2_eq_iff (by omega)).mpr ⟨low, high⟩

theorem toBits_ofMagnitude (negative : Bool) (magnitude : Magnitude significand shift) :
    (ofUnpacked (ofMagnitude (signOf negative) significand shift)).toBits.toNat =
      negative.toNat * signBit + (shift * hiddenBit + significand) := by
  obtain ⟨below, full, finite⟩ := magnitude
  rw [hiddenBit_eq] at *
  rw [infinityField_eq] at finite
  have hbits (u : Float.Model.UnpackedFloat) :
      (ofUnpacked u).toBits.toNat = (pack Format.binary64 u).toNat := rfl
  rw [hbits, ofMagnitude, signBit_eq, ← toNat_sign]
  generalize signOf negative = s
  split
  · next hzero =>
    have hshift : shift = 0 := by omega
    rw [pack, packedZero, toNat_packComponents, hzero, hshift]
    rfl
  · next hpositive =>
    have hbiased : ((shift : Int) - 1074 + (Format.binary64.exponentBias : Nat) +
        (Format.binary64.mantissaBitsWithoutImplicit : Nat)).toNat = shift + 1 := by
      have hbias : ((Format.binary64.exponentBias : Nat) : Int) = 1023 := rfl
      have hplaces : ((Format.binary64.mantissaBitsWithoutImplicit : Nat) : Int) = 52 := rfl
      omega
    have hrange : ¬ 2 ^ Format.binary64.exponentBits ≤ shift + 1 + 1 := by
      have : 2 ^ Format.binary64.exponentBits = 2048 := rfl
      omega
    have hmantissaBits : Format.binary64.mantissaBits = 53 := rfl
    rw [pack]
    simp only [hbiased, if_neg hrange, hmantissaBits]
    split
    · next hlog =>
      have hlog : significand.log2 = 52 := by omega
      have hlow : 2 ^ 52 ≤ significand := (Nat.le_log2 hpositive).mp (Nat.le_of_eq hlog.symm)
      have hexponent : (BitVec.ofNat Format.binary64.exponentBits (shift + 1)).toNat =
          shift + 1 := by
        rw [BitVec.toNat_ofNat]
        exact Nat.mod_eq_of_lt (by omega)
      have hmantissa : (BitVec.ofNat Format.binary64.mantissaBitsWithoutImplicit
          significand).toNat = significand - 2 ^ 52 := by
        rw [BitVec.toNat_ofNat]
        change significand % 2 ^ 52 = _
        omega
      rw [toNat_packComponents, hexponent, hmantissa]
      omega
    · next hlog =>
      have hlow : significand < 2 ^ 52 := by
        by_contra hge
        exact hlog (by rw [log2_of_full (by omega) (by omega)])
      have hshift : shift = 0 := by omega
      have hmantissa : (BitVec.ofNat Format.binary64.mantissaBitsWithoutImplicit
          significand).toNat = significand := by
        rw [BitVec.toNat_ofNat]
        change significand % 2 ^ 52 = _
        omega
      rw [toNat_packComponents, hmantissa, hshift]
      simp

theorem Magnitude.unique {m s n k : Nat} (h : Magnitude m s) (h' : Magnitude n k)
    (hfield : s * hiddenBit + m = k * hiddenBit + n) : m = n ∧ s = k := by
  obtain ⟨below, full, -⟩ := h
  obtain ⟨below', full', -⟩ := h'
  rw [hiddenBit_eq] at *
  omega

theorem ofFloat_ofMagnitude (negative : Bool) (magnitude : Magnitude significand shift) :
    (ofUnpacked (ofMagnitude (signOf negative) significand shift)).isFinite = true ∧
      ofFloat (ofUnpacked (ofMagnitude (signOf negative) significand shift)) =
        .finite negative significand shift := by
  have hrange : infinityField < signBit := by decide
  have hbits := toBits_ofMagnitude negative magnitude
  have hlower : shift * hiddenBit + significand < signBit := magnitude.finite.trans hrange
  have hfield : (ofUnpacked (ofMagnitude (signOf negative) significand shift)).toBits.toNat %
      signBit = shift * hiddenBit + significand := by
    rw [hbits, Nat.mul_comm, Nat.mul_add_mod, Nat.mod_eq_of_lt hlower]
  have hsign : decide (signBit ≤ (ofUnpacked
      (ofMagnitude (signOf negative) significand shift)).toBits.toNat) = negative := by
    rw [hbits]
    cases negative with
    | false => exact decide_eq_false (by simp only [Bool.toNat_false]; omega)
    | true => exact decide_eq_true (by simp only [Bool.toNat_true]; omega)
  refine ⟨isFinite_iff.mpr (hfield ▸ magnitude.finite), ?_⟩
  obtain ⟨m, s, hm, magnitude', hsame⟩ := ofField_of_lt magnitude.finite
  obtain ⟨rfl, rfl⟩ := magnitude'.unique magnitude hsame
  rw [ofFloat, hsign, hfield, hm]

theorem unpacked_ofMagnitude (negative : Bool) (magnitude : Magnitude significand shift) :
    unpacked (ofUnpacked (ofMagnitude (signOf negative) significand shift)) =
      ofMagnitude (signOf negative) significand shift := by
  obtain ⟨hfinite, hvalue⟩ := ofFloat_ofMagnitude negative magnitude
  obtain ⟨m, s, hm, magnitude', hbits⟩ := exists_magnitude hfinite
  obtain ⟨hnegative, rfl, rfl⟩ := Binary64.finite.inj (hvalue.symm.trans hm)
  have hunpacked := unpacked_eq hfinite magnitude' hbits
  rwa [← hnegative] at hunpacked

/-- The value of a finite double in units of `2 ^ -1074`. -/
def units (x : Float) : Int :=
  match ofFloat x with
  | .finite negative significand shift => (signOf negative).apply (significand * 2 ^ shift : Nat)
  | _ => 0

theorem exists_ofMagnitude (h : x.isFinite = true) : ∃ significand shift,
    Magnitude significand shift ∧
      unpacked x = ofMagnitude (signOf (isNegative x)) significand shift ∧
      units x = (signOf (isNegative x)).apply (significand * 2 ^ shift : Nat) := by
  obtain ⟨significand, shift, hvalue, magnitude, hbits⟩ := exists_magnitude h
  exact ⟨significand, shift, magnitude, unpacked_eq h magnitude hbits, by rw [units, hvalue]⟩

theorem units_neg (h : x.isFinite = true) : units (-x) = -units x := by
  obtain ⟨significand, shift, hx, hneg⟩ := ofFloat_of_isFinite h
  rw [units, units, hx, hneg]
  cases isNegative x with
  | true => exact (Int.neg_neg _).symm
  | false => rfl

theorem units_abs (h : x.isFinite = true) : units x.abs = |units x| := by
  obtain ⟨significand, shift, -, -, hunits⟩ := exists_ofMagnitude h
  rw [abs_eq_of_isFinite h]
  cases hsign : isNegative x with
  | true =>
    have happly : (signOf true).apply (significand * 2 ^ shift : Nat) =
        -(significand * 2 ^ shift : Nat) := rfl
    rw [if_pos rfl, units_neg h, hunits, hsign, happly, Int.neg_neg, abs_neg, Nat.abs_cast]
  | false =>
    have happly : (signOf false).apply (significand * 2 ^ shift : Nat) =
        (significand * 2 ^ shift : Nat) := rfl
    rw [if_neg Bool.false_ne_true, hunits, hsign, happly, Nat.abs_cast]

theorem units_floatOfField (magnitude : Magnitude significand shift) :
    (floatOfField (shift * hiddenBit + significand)).isFinite = true ∧
      units (floatOfField (shift * hiddenBit + significand)) = (significand * 2 ^ shift : Nat) := by
  have hrange : infinityField < signBit := by decide
  have hle : shift * hiddenBit + significand ≤ infinityField := Nat.le_of_lt magnitude.finite
  have hfield : (floatOfField (shift * hiddenBit + significand)).toBits.toNat % signBit =
      shift * hiddenBit + significand := by
    rw [toBits_floatOfField hle]
    exact Nat.mod_eq_of_lt (magnitude.finite.trans hrange)
  have hfinite : (floatOfField (shift * hiddenBit + significand)).isFinite = true :=
    isFinite_iff.mpr (by rw [hfield]; exact magnitude.finite)
  obtain ⟨m, s, hvalue, magnitude', hbits⟩ := exists_magnitude hfinite
  rw [hfield] at hbits
  obtain ⟨rfl, rfl⟩ := magnitude'.unique magnitude hbits
  rw [isNegative_floatOfField hle] at hvalue
  exact ⟨hfinite, by rw [units, hvalue]; rfl⟩

theorem Agree.units {u v : Float.Model.UnpackedFloat} (h : Agree u v)
    (hv : (ofUnpacked v).isFinite = true) :
    (ofUnpacked u).isFinite = true ∧ units (ofUnpacked u) = units (ofUnpacked v) := by
  obtain rfl | ⟨s, t, rfl, rfl⟩ := h
  · exact ⟨hv, rfl⟩
  · cases s <;> cases t <;> exact ⟨rfl, rfl⟩

/-- A significand as a double of the given shift has it, however large the shift is. -/
structure Normal (significand shift : Nat) : Prop where
  below : significand < 2 * hiddenBit
  full : 0 < shift → hiddenBit ≤ significand

theorem Magnitude.normal (h : Magnitude significand shift) : Normal significand shift :=
  ⟨h.below, h.full⟩

theorem Normal.lt_of_lt {m s n k : Nat} (h : Normal m s) (h' : Normal n k) (hlt : s < k) :
    m * 2 ^ s < n * 2 ^ k := by
  calc m * 2 ^ s < 2 * hiddenBit * 2 ^ s :=
        Nat.mul_lt_mul_of_pos_right h.below (Nat.two_pow_pos s)
    _ = hiddenBit * 2 ^ (s + 1) := by ring
    _ ≤ n * 2 ^ k :=
        Nat.mul_le_mul (h'.full (by omega)) (Nat.pow_le_pow_right (by decide) hlt)

theorem Normal.compare_eq {m s n k : Nat} (h : Normal m s) (h' : Normal n k) :
    compare (m * 2 ^ s) (n * 2 ^ k) = (compare s k).then (compare m n) := by
  rcases Nat.lt_trichotomy s k with hlt | rfl | hgt
  · rw [Nat.compare_eq_lt.mpr hlt, Nat.compare_eq_lt.mpr (h.lt_of_lt h' hlt)]
    rfl
  · rw [Nat.compare_eq_eq.mpr rfl, Ordering.then]
    have hpos : 0 < 2 ^ s := Nat.two_pow_pos s
    rcases Nat.lt_trichotomy m n with hlt | rfl | hgt
    · rw [Nat.compare_eq_lt.mpr hlt, Nat.compare_eq_lt.mpr (Nat.mul_lt_mul_of_pos_right hlt hpos)]
    · rw [Nat.compare_eq_eq.mpr rfl, Nat.compare_eq_eq.mpr rfl]
    · rw [Nat.compare_eq_gt.mpr hgt, Nat.compare_eq_gt.mpr (Nat.mul_lt_mul_of_pos_right hgt hpos)]
  · rw [Nat.compare_eq_gt.mpr hgt, Nat.compare_eq_gt.mpr (h'.lt_of_lt h hgt)]
    rfl

theorem Normal.magnitude {m s n k : Nat} (h : Normal m s) (h' : Magnitude n k)
    (hle : m * 2 ^ s ≤ n * 2 ^ k) : Magnitude m s := by
  refine ⟨h.below, h.full, Nat.lt_of_le_of_lt ?_ h'.finite⟩
  rcases Nat.lt_trichotomy s k with hlt | rfl | hgt
  · have hstep : (s + 1) * hiddenBit ≤ k * hiddenBit := Nat.mul_le_mul_right _ hlt
    have hbelow := h.below
    have hfull := h'.full (by omega)
    rw [Nat.succ_mul] at hstep
    omega
  · have := (Nat.mul_le_mul_right_iff (Nat.two_pow_pos s)).mp hle
    omega
  · exact absurd hle (Nat.not_le_of_lt (h'.normal.lt_of_lt h hgt))

theorem compare_ofMagnitude {m s n k : Nat} (h : Normal m s) (h' : Normal n k) :
    (ofMagnitude .positive m s).compare (ofMagnitude .positive n k) =
      some (compare (m * 2 ^ s) (n * 2 ^ k)) := by
  have hexponent : compare ((s : Int) - 1074) ((k : Int) - 1074) = compare s k := by
    rcases Nat.lt_trichotomy s k with hlt | rfl | hgt
    · rw [Nat.compare_eq_lt.mpr hlt, Int.compare_eq_lt.mpr (by omega)]
    · rw [Nat.compare_eq_eq.mpr rfl, Int.compare_eq_eq.mpr rfl]
    · rw [Nat.compare_eq_gt.mpr hgt, Int.compare_eq_gt.mpr (by omega)]
  by_cases hm : m = 0
  · subst hm
    rw [ofMagnitude_zero, Nat.zero_mul]
    by_cases hn : n = 0
    · subst hn
      rw [ofMagnitude_zero, Nat.zero_mul]
      rfl
    · have hpos : 0 < n * 2 ^ k := Nat.mul_pos (Nat.pos_of_ne_zero hn) (Nat.two_pow_pos k)
      rw [ofMagnitude_of_ne_zero _ _ hn, Nat.compare_eq_lt.mpr hpos]
      rfl
  · by_cases hn : n = 0
    · subst hn
      have hpos : 0 < m * 2 ^ s := Nat.mul_pos (Nat.pos_of_ne_zero hm) (Nat.two_pow_pos s)
      rw [ofMagnitude_of_ne_zero _ _ hm, ofMagnitude_zero, Nat.zero_mul,
        Nat.compare_eq_gt.mpr hpos]
      rfl
    · rw [ofMagnitude_of_ne_zero _ _ hm, ofMagnitude_of_ne_zero _ _ hn, h.compare_eq h',
        ← hexponent]
      rfl

theorem le_iff : x ≤ y ↔ (unpacked x).le (unpacked y) = true := decide_eq_true_iff

theorem units_lt_of_lt (hx : x.isFinite = true) (hy : y.isFinite = true)
    (ux : isNegative x = false) (uy : isNegative y = false) (h : x < y) : units x < units y := by
  obtain ⟨m, s, magnitude, hunpacked, hunits⟩ := exists_ofMagnitude hx
  obtain ⟨n, k, magnitude', hunpacked', hunits'⟩ := exists_ofMagnitude hy
  have hcompare := compare_ofMagnitude magnitude.normal magnitude'.normal
  rw [ux, signOf, if_neg Bool.false_ne_true] at hunpacked hunits
  rw [uy, signOf, if_neg Bool.false_ne_true] at hunpacked' hunits'
  rw [lt_iff, hunpacked, hunpacked', Float.Model.UnpackedFloat.lt, hcompare, beq_iff_eq,
    Option.some.injEq, Nat.compare_eq_lt] at h
  rw [hunits, hunits']
  exact Int.ofNat_lt.mpr h

end Calculator.Binary64
