import Calculator.Proofs.Number.Plain

/-!
Operations on doubles that lose nothing. Adding and subtracting a zero, multiplying by one, and the
two halves of a double, its sign and its magnitude, are exact; they are told from the unpacked
operands, without rounding. Zeros of either sign equal each other, so results are compared with
`==`.
-/

set_option autoImplicit false
set_option relaxedAutoImplicit false

namespace Calculator.Binary64

open Float.Model (Format)
open Float.Model.UnpackedFloat

def unpacked (x : Float) : Float.Model.UnpackedFloat := x.toModel.unpack

def ofUnpacked (u : Float.Model.UnpackedFloat) : Float := ⟨Float.Model.pack u⟩

variable {a b c x z : Float}

theorem ofUnpacked_unpacked (x : Float) : ofUnpacked (unpacked x) = x := by
  have hbits : (Float.Model.pack x.toModel.unpack).toBits = x.toModel.toBits := by
    apply UInt64.toBitVec_inj.mp
    exact pack_unpack_of_valid x.toModel.valid
  have hmodel : Float.Model.pack x.toModel.unpack = x.toModel := by
    cases hx : Float.Model.pack x.toModel.unpack
    cases hy : x.toModel
    rw [hx, hy] at hbits
    cases hbits
    rfl
  rw [ofUnpacked, unpacked, hmodel]

theorem unpacked_zero (s : Sign) : unpacked (ofUnpacked (.zero s)) = .zero s := by
  cases s <;> rfl

theorem unpacked_one : unpacked 1 = .finite .positive (2 ^ 52) (-52) (by decide) := rfl

theorem unpacked_neg_one : unpacked (-1) = .finite .negative (2 ^ 52) (-52) (by decide) := rfl

theorem add_eq (x y : Float) : x + y = ofUnpacked (add .binary64 (unpacked x) (unpacked y)) := rfl

theorem sub_eq (x y : Float) : x - y = ofUnpacked (sub .binary64 (unpacked x) (unpacked y)) := rfl

theorem mul_eq (x y : Float) : x * y = ofUnpacked (mul .binary64 (unpacked x) (unpacked y)) := rfl

theorem neg_eq (x : Float) : -x = ofUnpacked (neg (unpacked x)) := rfl

theorem abs_eq (x : Float) : x.abs = ofUnpacked (abs (unpacked x)) := rfl

theorem beq_iff : (a == b) = true ↔ (unpacked a).beq (unpacked b) = true := Iff.rfl

theorem lt_iff : a < b ↔ (unpacked a).lt (unpacked b) = true := decide_eq_true_iff

/-- The unpacked forms of a finite double with the given sign: a zero, a significand of 53 bits, or
a smaller one with the least exponent. -/
inductive Canonical (s : Sign) : Float.Model.UnpackedFloat → Prop
  | zero : Canonical s (.zero s)
  | subnormal (m : Nat) (positive : 0 < m) (below : m < 2 ^ 52) :
      Canonical s (.finite s m (-1074) positive)
  | normal (m : Nat) (e : Int) (positive : 0 < m) (low : 2 ^ 52 ≤ m) (high : m < 2 ^ 53)
      (least : -1074 ≤ e) : Canonical s (.finite s m e positive)

theorem ofBitVec_unpackSign (h : x.isFinite = true) :
    Sign.ofBitVec (@unpackSign Format.binary64 x.toBits.toBitVec) =
      if isNegative x then .negative else .positive := by
  have hbits : x.toBits.toBitVec.toNat = x.toBits.toNat := rfl
  have hbound : x.toBits.toNat < 2 ^ 64 := x.toBits.toNat_lt
  have hsign : (@unpackSign Format.binary64 x.toBits.toBitVec).toNat =
      x.toBits.toNat / 2 ^ 63 := by
    rw [unpackSign_def, BitVec.extractLsb'_toNat, Nat.shiftRight_eq_div_pow, hbits]
    change x.toBits.toNat / 2 ^ 63 % 2 ^ 1 = _
    omega
  rw [isNegative_eq_decide h, signBit_eq, Sign.ofBitVec]
  by_cases hlow : 2 ^ 63 ≤ x.toBits.toNat
  · rw [if_neg, if_pos (decide_eq_true hlow)]
    intro hzero
    rw [hzero] at hsign
    have : (0#1).toNat = 0 := rfl
    omega
  · rw [if_pos, if_neg fun hle => hlow (of_decide_eq_true hle)]
    apply BitVec.eq_of_toNat_eq
    rw [hsign]
    have : (0#1).toNat = 0 := rfl
    omega

theorem canonical_unpacked (h : x.isFinite = true) :
    Canonical (if isNegative x then .negative else .positive) (unpacked x) := by
  have hfinite := (isFinite_unpack_iff x.toBits.toBitVec).mp h
  have hunpacked : unpacked x = unpack Format.binary64 x.toBits.toBitVec := rfl
  rw [hunpacked, unpack, if_neg hfinite, ofBitVec_unpackSign h]
  generalize (if isNegative x then Sign.negative else Sign.positive) = s
  have hbias : ((Format.binary64.exponentBias : Nat) : Int) = 1023 := rfl
  have hplaces : ((Format.binary64.mantissaBitsWithoutImplicit : Nat) : Int) = 52 := rfl
  have hmantissa : (@unpackMantissa Format.binary64 x.toBits.toBitVec).toNat < 2 ^ 52 :=
    BitVec.isLt _
  split
  · next hzero =>
    split
    · exact .zero
    · have hexponent : ((@unpackExponent Format.binary64 x.toBits.toBitVec).toNat : Int) -
          ((Format.binary64.exponentBias : Nat) +
            (Format.binary64.mantissaBitsWithoutImplicit : Nat)) + 1 = -1074 := by
        rw [hzero, hbias, hplaces]
        rfl
      rw [hexponent]
      exact .subnormal _ _ hmantissa
  · next hnonzero =>
    have hpositive : (@unpackExponent Format.binary64 x.toBits.toBitVec).toNat ≠ 0 :=
      fun hzero => hnonzero (BitVec.eq_of_toNat_eq hzero)
    have happend : (1#1 ++ @unpackMantissa Format.binary64 x.toBits.toBitVec).toNat =
        2 ^ 52 + (@unpackMantissa Format.binary64 x.toBits.toBitVec).toNat := by
      rw [BitVec.toNat_append, ← Nat.shiftLeft_add_eq_or_of_lt (BitVec.isLt _)]
      rfl
    refine .normal _ _ _ ?_ ?_ ?_
    · omega
    · omega
    · rw [hbias, hplaces]
      omega

/-- Whether a double is a zero of either sign. -/
def IsZero (x : Float) : Prop := ∃ s, unpacked x = .zero s

theorem isZero_ofUnpacked (s : Sign) : IsZero (ofUnpacked (.zero s)) := ⟨s, unpacked_zero s⟩

theorem beq_eq_true_iff : (a == b) = true ↔
    unpacked a ≠ .notANumber ∧ (a = b ∨ IsZero a ∧ IsZero b) := by
  rw [beq_iff, beq_iff_ne_notANumber_and_eq]
  have hsame : unpacked a = unpacked b ↔ a = b := by
    constructor
    · intro h
      rw [← ofUnpacked_unpacked a, h, ofUnpacked_unpacked]
    · rintro rfl
      rfl
  rw [hsame]
  constructor
  · rintro ⟨hnumber, -, rfl | ⟨ha, hb⟩ | ⟨ha, hb⟩⟩
    · exact ⟨hnumber, .inl rfl⟩
    · exact ⟨hnumber, .inr ⟨⟨_, ha⟩, ⟨_, hb⟩⟩⟩
    · exact ⟨hnumber, .inr ⟨⟨_, ha⟩, ⟨_, hb⟩⟩⟩
  · rintro ⟨hnumber, rfl | ⟨⟨s, ha⟩, ⟨t, hb⟩⟩⟩
    · exact ⟨hnumber, hnumber, .inl rfl⟩
    · refine ⟨hnumber, by simp [hb], ?_⟩
      cases s with
      | negative =>
        cases t with
        | negative => exact .inl (hsame.mp (ha.trans hb.symm))
        | positive => exact .inr (.inr ⟨ha, hb⟩)
      | positive =>
        cases t with
        | negative => exact .inr (.inl ⟨ha, hb⟩)
        | positive => exact .inl (hsame.mp (ha.trans hb.symm))

theorem isZero_zero : IsZero 0 := ⟨.positive, rfl⟩

theorem isZero_iff : IsZero x ↔ (x == 0) = true := by
  rw [beq_eq_true_iff]
  constructor
  · rintro ⟨s, hx⟩
    exact ⟨by simp [hx], .inr ⟨⟨s, hx⟩, isZero_zero⟩⟩
  · rintro ⟨-, rfl | ⟨hx, -⟩⟩
    · exact isZero_zero
    · exact hx

theorem isZero_iff_eq : IsZero x ↔ x = 0 ∨ x = -0 := by
  constructor
  · rintro ⟨s, hx⟩
    rw [← ofUnpacked_unpacked x, hx]
    cases s with
    | negative => exact .inr rfl
    | positive => exact .inl rfl
  · rintro (rfl | rfl)
    · exact isZero_zero
    · exact ⟨.negative, rfl⟩

theorem IsZero.beq (ha : IsZero a) (hb : IsZero b) : (a == b) = true := by
  obtain ⟨s, hs⟩ := ha
  exact beq_eq_true_iff.mpr ⟨by simp [hs], .inr ⟨⟨s, hs⟩, hb⟩⟩

theorem beq_self_of_isFinite (h : x.isFinite = true) : (x == x) = true := by
  refine beq_eq_true_iff.mpr ⟨fun hnan => ?_, .inl rfl⟩
  have hcanonical := canonical_unpacked h
  rw [hnan] at hcanonical
  cases hcanonical

theorem isFinite_of_beq (hb : b.isFinite = true) (h : (a == b) = true) : a.isFinite = true := by
  obtain ⟨-, rfl | ⟨hzero, -⟩⟩ := beq_eq_true_iff.mp h
  · exact hb
  · rcases isZero_iff_eq.mp hzero with rfl | rfl <;> decide +kernel

/-- The same unpacked form, or zeros of some signs. -/
def Agree (u v : Float.Model.UnpackedFloat) : Prop := u = v ∨ ∃ s t, u = .zero s ∧ v = .zero t

theorem agree_add_zero (u : Float.Model.UnpackedFloat) (s : Sign) :
    Agree (add .binary64 u (.zero s)) u := by
  cases u with
  | notANumber | infinity | finite => exact .inl rfl
  | zero t => cases s <;> cases t <;> exact .inr ⟨_, _, rfl, rfl⟩

theorem agree_zero_add (u : Float.Model.UnpackedFloat) (s : Sign) :
    Agree (add .binary64 (.zero s) u) u := by
  cases u with
  | notANumber | infinity | finite => exact .inl rfl
  | zero t => cases s <;> cases t <;> exact .inr ⟨_, _, rfl, rfl⟩

theorem agree_sub_zero (u : Float.Model.UnpackedFloat) (s : Sign) :
    Agree (sub .binary64 u (.zero s)) u := by
  cases u with
  | notANumber | infinity | finite => exact .inl rfl
  | zero t => cases s <;> cases t <;> exact .inr ⟨_, _, rfl, rfl⟩

theorem agree_zero_sub (u : Float.Model.UnpackedFloat) (s : Sign) :
    Agree (sub .binary64 (.zero s) u) (neg u) := by
  cases u with
  | notANumber | infinity | finite => exact .inl rfl
  | zero t => cases s <;> cases t <;> exact .inr ⟨_, _, rfl, rfl⟩

theorem Agree.beq {u v : Float.Model.UnpackedFloat} (h : Agree u v)
    (hv : (ofUnpacked v == c) = true) : (ofUnpacked u == c) = true := by
  obtain rfl | ⟨s, t, rfl, rfl⟩ := h
  · exact hv
  · obtain ⟨-, rfl | ⟨-, hc⟩⟩ := beq_eq_true_iff.mp hv
    · exact (isZero_ofUnpacked s).beq (isZero_ofUnpacked t)
    · exact (isZero_ofUnpacked s).beq hc

theorem add_beq_of_isZero (h : (a == c) = true) (hz : IsZero z) : (a + z == c) = true := by
  obtain ⟨s, hs⟩ := hz
  rw [add_eq, hs]
  refine (agree_add_zero _ s).beq ?_
  rwa [ofUnpacked_unpacked]

theorem beq_add_of_isZero (hz : IsZero z) (h : (a == c) = true) : (z + a == c) = true := by
  obtain ⟨s, hs⟩ := hz
  rw [add_eq, hs]
  refine (agree_zero_add _ s).beq ?_
  rwa [ofUnpacked_unpacked]

theorem isZero_add (hz : IsZero z) : z + c = c ∨ IsZero (z + c) ∧ IsZero c := by
  obtain ⟨s, hs⟩ := hz
  rw [add_eq, hs]
  obtain hsame | ⟨t, u, hsum, hc⟩ := agree_zero_add (unpacked c) s
  · exact .inl (by rw [hsame, ofUnpacked_unpacked])
  · exact .inr ⟨hsum ▸ isZero_ofUnpacked t, u, hc⟩

theorem sub_beq_of_isZero (h : (a == c) = true) (hz : IsZero z) : (a - z == c) = true := by
  obtain ⟨s, hs⟩ := hz
  rw [sub_eq, hs]
  refine (agree_sub_zero _ s).beq ?_
  rwa [ofUnpacked_unpacked]

theorem beq_sub_of_isZero (hz : IsZero z) (h : (-a == c) = true) : (z - a == c) = true := by
  obtain ⟨s, hs⟩ := hz
  rw [sub_eq, hs]
  exact (agree_zero_sub _ s).beq h

theorem isFinite_neg (h : x.isFinite = true) : (-x).isFinite = true := by
  rw [isFinite_iff, (toBits_neg h).1]
  exact isFinite_iff.mp h

theorem isNegative_neg (h : x.isFinite = true) : isNegative (-x) = !isNegative x := by
  rw [isNegative_eq_decide h, isNegative_eq_decide (isFinite_neg h),
    decide_eq_decide.mpr (toBits_neg h).2, decide_not]

theorem neg_neg_of_isFinite (h : x.isFinite = true) : - -x = x := by
  obtain ⟨hfield, hsign⟩ := toBits_neg h
  obtain ⟨hfield', hsign'⟩ := toBits_neg (isFinite_neg h)
  have hbound : x.toBits.toNat < 2 ^ 64 := x.toBits.toNat_lt
  have hbound' : (- -x).toBits.toNat < 2 ^ 64 := (- -x).toBits.toNat_lt
  rw [signBit_eq] at hfield hsign hfield' hsign'
  have hbits : (- -x).toBits.toNat = x.toBits.toNat := by omega
  rw [← Float.ofBits_toBits (- -x), UInt64.toNat_inj.mp hbits, Float.ofBits_toBits]

theorem abs_eq_of_isFinite (h : x.isFinite = true) :
    x.abs = if isNegative x then -x else x := by
  have hcanonical := canonical_unpacked h
  rw [abs_eq, neg_eq]
  cases hsign : isNegative x with
  | true =>
    rw [hsign, if_pos rfl] at hcanonical
    rw [if_pos rfl]
    generalize unpacked x = u at hcanonical
    cases hcanonical <;> rfl
  | false =>
    rw [hsign, if_neg Bool.false_ne_true] at hcanonical
    rw [if_neg Bool.false_ne_true]
    conv_rhs => rw [← ofUnpacked_unpacked x]
    generalize unpacked x = u at hcanonical
    cases hcanonical <;> rfl

theorem abs_unsigned (h : x.isFinite = true) :
    x.abs.isFinite = true ∧ isNegative x.abs = false := by
  rw [abs_eq_of_isFinite h]
  cases hsign : isNegative x with
  | true =>
    rw [if_pos rfl]
    exact ⟨isFinite_neg h, by rw [isNegative_neg h, hsign]; rfl⟩
  | false =>
    rw [if_neg Bool.false_ne_true]
    exact ⟨h, hsign⟩

theorem pos_or_neg (h : x.isFinite = true) (hx : ¬IsZero x) :
    (0 < x ∧ ¬x < 0 ∧ isNegative x = false) ∨ (¬0 < x ∧ x < 0 ∧ isNegative x = true) := by
  have hcanonical := canonical_unpacked h
  have hzero : unpacked 0 = .zero .positive := rfl
  have hnonzero : ∀ s, unpacked x ≠ .zero s := fun s hs => hx ⟨s, hs⟩
  rw [lt_iff, lt_iff, hzero]
  generalize unpacked x = u at hcanonical hnonzero
  cases hsign : isNegative x with
  | true =>
    rw [hsign, if_pos rfl] at hcanonical
    cases hcanonical with
    | zero => exact absurd rfl (hnonzero _)
    | subnormal | normal => exact .inr ⟨Bool.false_ne_true, rfl, rfl⟩
  | false =>
    rw [hsign, if_neg Bool.false_ne_true] at hcanonical
    cases hcanonical with
    | zero => exact absurd rfl (hnonzero _)
    | subnormal | normal => exact .inl ⟨rfl, Bool.false_ne_true, rfl⟩

theorem neg_beq_neg (hc : c.isFinite = true) (h : (a == c) = true) : (-a == -c) = true := by
  obtain ⟨-, rfl | ⟨⟨s, ha⟩, ⟨t, hc⟩⟩⟩ := beq_eq_true_iff.mp h
  · exact beq_self_of_isFinite (isFinite_neg hc)
  · rw [neg_eq, neg_eq, ha, hc]
    exact (isZero_ofUnpacked _).beq (isZero_ofUnpacked _)

theorem shiftRight_exact (m n : Nat) :
    (⟨m * 2 ^ n, false, false⟩ : ExtendedMantissa) >>> n = ⟨m, false, false⟩ := by
  change n.repeat ExtendedMantissa.shiftRightOne _ = _
  induction n generalizing m with
  | zero => rw [Nat.pow_zero, Nat.mul_one]; rfl
  | succ n ih =>
    have hshift : m * 2 ^ (n + 1) = m * 2 * 2 ^ n := by ring
    rw [Nat.repeat, hshift, ih (m * 2), ExtendedMantissa.shiftRightOne]
    simp

theorem targetExponent_canonical {s : Sign} {m : Nat} {e : Int} {positive : 0 < m}
    (h : Canonical s (.finite s m e positive)) :
    Format.binary64.targetExponent (Float.Model.totalExponent m e) = e := by
  have hbits : ((Format.binary64.mantissaBits : Nat) : Int) = 53 := rfl
  have hleast : Format.binary64.minExponent = -1074 := rfl
  have hne : m ≠ 0 := Nat.ne_of_gt positive
  rw [Format.targetExponent, Float.Model.totalExponent, hbits, hleast]
  cases h with
  | subnormal _ _ below =>
    have hlog : m.log2 < 52 := (Nat.log2_lt hne).mpr below
    omega
  | normal _ _ _ low high least =>
    have hlow : 52 ≤ m.log2 := (Nat.le_log2 hne).mpr low
    have hhigh : m.log2 < 53 := (Nat.log2_lt hne).mpr high
    omega

theorem log2_mul_two_pow {m : Nat} (positive : 0 < m) (n : Nat) :
    (m * 2 ^ n).log2 = m.log2 + n := by
  obtain ⟨hlow, hhigh⟩ := (Nat.log2_eq_iff (Nat.ne_of_gt positive)).mp rfl
  rw [Nat.log2_eq_iff (by positivity)]
  constructor
  · rw [Nat.pow_add]
    exact Nat.mul_le_mul_right _ hlow
  · rw [Nat.add_right_comm, Nat.pow_add]
    exact Nat.mul_lt_mul_of_pos_right hhigh (by positivity)

theorem totalExponent_scaled {m : Nat} (positive : 0 < m) (e : Int) :
    Float.Model.totalExponent (m * 2 ^ 52) (e + -52) = Float.Model.totalExponent m e := by
  rw [Float.Model.totalExponent, Float.Model.totalExponent, log2_mul_two_pow positive]
  omega

/-- A canonical significand, scaled up and rounded, is itself again. -/
theorem roundWithAccuracy_scaled {s : Sign} {m : Nat} {e : Int} {positive : 0 < m}
    (h : Canonical s (.finite s m e positive)) :
    roundWithAccuracy .binary64 s (m * 2 ^ 52) (e + -52) .exact = .finite s m e positive := by
  have hfirst : shiftToTargetExponent .binary64 (m * 2 ^ 52) (e + -52) .exact =
      (⟨m, false, false⟩, e) := by
    have hshift : (e - (e + -52)).toNat = 52 := by omega
    have hexponent : e + -52 + ((52 : Nat) : Int) = e := by omega
    rw [shiftToTargetExponent, totalExponent_scaled positive, targetExponent_canonical h]
    simp only [shiftToExponent, hshift, hexponent, ExtendedMantissa.ofMantissaAndAccuracy,
      shiftRight_exact]
  have hsecond : shiftToTargetExponent .binary64 m e .exact = (⟨m, false, false⟩, e) := by
    have hshift : (e - e).toNat = 0 := by omega
    have hnone := shiftRight_exact m 0
    rw [Nat.pow_zero, Nat.mul_one] at hnone
    rw [shiftToTargetExponent, targetExponent_canonical h]
    simp only [shiftToExponent, hshift, ExtendedMantissa.ofMantissaAndAccuracy, hnone]
    simp
  have hrounded : (⟨m, false, false⟩ : ExtendedMantissa).roundedMantissa = m := rfl
  rw [roundWithAccuracy, hfirst]
  simp only [hrounded, hsecond]
  rw [dif_neg (Nat.ne_of_gt positive)]

theorem mul_one_of_isFinite (h : x.isFinite = true) : x * 1 = x := by
  have hcanonical := canonical_unpacked h
  rw [mul_eq, unpacked_one]
  conv_rhs => rw [← ofUnpacked_unpacked x]
  generalize (if isNegative x then Sign.negative else Sign.positive) = s at hcanonical
  generalize unpacked x = u at hcanonical
  congr 1
  have hsign : s * .positive = s := by cases s <;> rfl
  cases hcanonical with
  | zero => rw [mul, hsign]
  | subnormal m positive below =>
    rw [mul, hsign]
    exact roundWithAccuracy_scaled (.subnormal m positive below)
  | normal m e positive low high least =>
    rw [mul, hsign]
    exact roundWithAccuracy_scaled (.normal m e positive low high least)

theorem mul_of_canonical {s t : Sign} {u : Float.Model.UnpackedFloat} (h : Canonical s u) :
    mul .binary64 (.finite t (2 ^ 52) (-52) (by decide)) u =
      match t with
      | .positive => u
      | .negative => neg u := by
  cases h with
  | zero => cases t <;> cases s <;> rfl
  | subnormal m positive below =>
    rw [mul, Nat.mul_comm, Int.add_comm, roundWithAccuracy_scaled (.subnormal m positive below)]
    cases t <;> cases s <;> rfl
  | normal m e positive low high least =>
    rw [mul, Nat.mul_comm, Int.add_comm,
      roundWithAccuracy_scaled (.normal m e positive low high least)]
    cases t <;> cases s <;> rfl

theorem one_mul_of_isFinite (h : x.isFinite = true) : 1 * x = x := by
  rw [mul_eq, unpacked_one, mul_of_canonical (canonical_unpacked h)]
  exact ofUnpacked_unpacked x

theorem neg_one_mul_of_isFinite (h : x.isFinite = true) : -1 * x = -x := by
  rw [mul_eq, unpacked_neg_one, mul_of_canonical (canonical_unpacked h), neg_eq]

theorem isZero_mul_of_isFinite (h : x.isFinite = true) : IsZero (x * 0) := by
  have hcanonical := canonical_unpacked h
  have hzero : unpacked 0 = .zero .positive := rfl
  rw [mul_eq, hzero]
  generalize unpacked x = u at hcanonical
  cases hcanonical <;> exact isZero_ofUnpacked _

theorem isZero_zero_mul (h : x.isFinite = true) : IsZero (0 * x) := by
  have hcanonical := canonical_unpacked h
  have hzero : unpacked 0 = .zero .positive := rfl
  rw [mul_eq, hzero]
  generalize unpacked x = u at hcanonical
  cases hcanonical <;> exact isZero_ofUnpacked _

theorem nearestNat?_of_isZero (h : IsZero x) : nearestNat? x = some 0 := by
  obtain rfl | rfl := isZero_iff_eq.mp h <;> rfl

theorem nearestNat?_add_of_isZero (hz : IsZero z) : nearestNat? (z + c) = nearestNat? c := by
  obtain hsame | ⟨hsum, hc⟩ := isZero_add (c := c) hz
  · rw [hsame]
  · rw [nearestNat?_of_isZero hsum, nearestNat?_of_isZero hc]

end Calculator.Binary64
