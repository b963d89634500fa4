import Calculator.Proofs.Number.Quotients

/-!
The operations on doubles in units. A comparison of finite doubles is one of their units, and a
product, a quotient, a sum or a difference of them is the double nearest to what comes out exactly,
or an infinity if that is too large: `IsNearest`. So what is known of rounding a quotient is known
of every operation.
-/

set_option autoImplicit false
set_option relaxedAutoImplicit false

namespace Calculator.Binary64

open Float.Model.UnpackedFloat

variable {x y z : Float} {num num' : Int} {den : Nat}

theorem apply_zero (s : Sign) : s.apply 0 = 0 := by cases s <;> rfl

theorem compare_neg_neg (a b : Int) : compare (-a) (-b) = (compare a b).swap := by
  rcases Int.lt_trichotomy a b with hlt | rfl | hgt
  · rw [Int.compare_eq_lt.mpr hlt, Int.compare_eq_gt.mpr (by omega)]
    rfl
  · rw [Int.compare_eq_eq.mpr rfl, Int.compare_eq_eq.mpr rfl]
    rfl
  · rw [Int.compare_eq_gt.mpr hgt, Int.compare_eq_lt.mpr (by omega)]
    rfl

theorem compare_natCast (a b : Nat) : compare (a : Int) (b : Int) = compare a b := by
  rcases Nat.lt_trichotomy a b with hlt | rfl | hgt
  · rw [Nat.compare_eq_lt.mpr hlt, Int.compare_eq_lt.mpr (by omega)]
  · rw [Nat.compare_eq_eq.mpr rfl, Int.compare_eq_eq.mpr rfl]
  · rw [Nat.compare_eq_gt.mpr hgt, Int.compare_eq_gt.mpr (by omega)]

theorem compare_of_same_sign {m s n k : Nat} (h : Normal m s) (h' : Normal n k) (hm : m ≠ 0)
    (hn : n ≠ 0) (sign : Sign) : (ofMagnitude sign m s).compare (ofMagnitude sign n k) =
      some (compare (sign.apply (m * 2 ^ s : Nat)) (sign.apply (n * 2 ^ k : Nat))) := by
  have hpositive := compare_ofMagnitude h h'
  cases sign with
  | positive => rw [hpositive, Sign.apply, Sign.apply, compare_natCast]
  | negative =>
    rw [ofMagnitude_of_ne_zero _ _ hm, ofMagnitude_of_ne_zero _ _ hn] at hpositive ⊢
    rw [Sign.apply, Sign.apply, compare_neg_neg, compare_natCast]
    exact congrArg (Option.map Ordering.swap) hpositive

theorem compare_signed {m s n k : Nat} (h : Normal m s) (h' : Normal n k) (sign sign' : Sign) :
    (ofMagnitude sign m s).compare (ofMagnitude sign' n k) =
      some (compare (sign.apply (m * 2 ^ s : Nat)) (sign'.apply (n * 2 ^ k : Nat))) := by
  have hpos {n : Nat} (k : Nat) (hn : n ≠ 0) : (0 : Int) < (n * 2 ^ k : Nat) :=
    Int.natCast_pos.mpr (Nat.mul_pos (Nat.pos_of_ne_zero hn) (Nat.two_pow_pos k))
  by_cases hm : m = 0
  · subst hm
    rw [ofMagnitude_zero, Nat.zero_mul, Nat.cast_zero, apply_zero]
    by_cases hn : n = 0
    · subst hn
      rw [ofMagnitude_zero, Nat.zero_mul, Nat.cast_zero, apply_zero]
      rfl
    · rw [ofMagnitude_of_ne_zero _ _ hn]
      cases sign' with
      | negative =>
        exact congrArg some (Int.compare_eq_gt.mpr (Int.neg_neg_of_pos (hpos k hn))).symm
      | positive => exact congrArg some (Int.compare_eq_lt.mpr (hpos k hn)).symm
  · by_cases hn : n = 0
    · subst hn
      rw [ofMagnitude_of_ne_zero _ _ hm, ofMagnitude_zero, Nat.zero_mul, Nat.cast_zero, apply_zero]
      cases sign with
      | negative =>
        exact congrArg some (Int.compare_eq_lt.mpr (Int.neg_neg_of_pos (hpos s hm))).symm
      | positive => exact congrArg some (Int.compare_eq_gt.mpr (hpos s hm)).symm
    · have hfirst := hpos s hm
      have hsecond := hpos k hn
      cases sign with
      | negative =>
        cases sign' with
        | negative => exact compare_of_same_sign h h' hm hn .negative
        | positive =>
          rw [ofMagnitude_of_ne_zero _ _ hm, ofMagnitude_of_ne_zero _ _ hn, Sign.apply, Sign.apply,
            Int.compare_eq_lt.mpr (by omega)]
          rfl
      | positive =>
        cases sign' with
        | negative =>
          rw [ofMagnitude_of_ne_zero _ _ hm, ofMagnitude_of_ne_zero _ _ hn, Sign.apply, Sign.apply,
            Int.compare_eq_gt.mpr (by omega)]
          rfl
        | positive => exact compare_of_same_sign h h' hm hn .positive

theorem compare_units (hx : x.isFinite = true) (hy : y.isFinite = true) :
    (unpacked x).compare (unpacked y) = some (compare (units x) (units y)) := by
  obtain ⟨m, s, magnitude, hunpacked, hunits⟩ := exists_ofMagnitude hx
  obtain ⟨n, k, magnitude', hunpacked', hunits'⟩ := exists_ofMagnitude hy
  rw [hunpacked, hunpacked', hunits, hunits']
  exact compare_signed magnitude.normal magnitude'.normal _ _

theorem le_iff_units (hx : x.isFinite = true) (hy : y.isFinite = true) :
    x ≤ y ↔ units x ≤ units y := by
  rw [le_iff, Float.Model.UnpackedFloat.le, compare_units hx hy, Option.any_some]
  exact Int.isLE_compare

theorem lt_iff_units (hx : x.isFinite = true) (hy : y.isFinite = true) :
    x < y ↔ units x < units y := by
  rw [lt_iff, Float.Model.UnpackedFloat.lt, compare_units hx hy, beq_iff_eq, Option.some.injEq]
  exact Int.compare_eq_lt

theorem beq_iff_units (hx : x.isFinite = true) (hy : y.isFinite = true) :
    (x == y) = true ↔ units x = units y := by
  rw [beq_iff, Float.Model.UnpackedFloat.beq, compare_units hx hy, beq_iff_eq, Option.some.injEq]
  exact Int.compare_eq_eq

theorem isZero_iff_units : IsZero x ↔ x.isFinite = true ∧ units x = 0 := by
  have hnone : units 0 = 0 := rfl
  constructor
  · intro hzero
    have hfinite := isFinite_of_beq rfl (isZero_iff.mp hzero)
    exact ⟨hfinite, by rwa [isZero_iff, beq_iff_units hfinite rfl, hnone] at hzero⟩
  · rintro ⟨hfinite, hunits⟩
    rw [isZero_iff, beq_iff_units hfinite rfl, hunits, hnone]

/-- The least magnitude that is too large for a double, in units. -/
def unitsBound : Nat := 2 ^ 53 * 2 ^ largestShift

theorem unitsBound_pos : 0 < unitsBound := Nat.mul_pos (by decide) (Nat.two_pow_pos _)

theorem Normal.lt_iff_shift_le {m k : Nat} (h : Normal m k) (top : Nat) :
    m * 2 ^ k < 2 ^ 53 * 2 ^ top ↔ k ≤ top := by
  constructor
  · intro hlt
    by_contra hgt
    have hlarge : 2 ^ 52 * 2 ^ (top + 1) ≤ m * 2 ^ k :=
      Nat.mul_le_mul (h.full (by omega)) (Nat.pow_le_pow_right (by decide) (Nat.lt_of_not_le hgt))
    rw [Nat.pow_succ] at hlarge
    omega
  · intro hle
    calc m * 2 ^ k < 2 ^ 53 * 2 ^ k := Nat.mul_lt_mul_of_pos_right h.below (Nat.two_pow_pos k)
      _ ≤ 2 ^ 53 * 2 ^ top := Nat.mul_le_mul_left _ (Nat.pow_le_pow_right (by decide) hle)

theorem Normal.magnitude_of_lt {m k : Nat} (h : Normal m k) (hlt : m * 2 ^ k < unitsBound) :
    Magnitude m k := h.magnitude_of_le ((h.lt_iff_shift_le largestShift).mp hlt)

theorem Magnitude.lt_unitsBound {m k : Nat} (h : Magnitude m k) : m * 2 ^ k < unitsBound :=
  (h.normal.lt_iff_shift_le largestShift).mpr h.shift_le

def nearestSigned (s : Sign) (num den : Nat) : Float :=
  ofUnpacked (carried s (quotientRounded num den) (quotientShift num den))

theorem ofUnpacked_infinite {m k : Nat} (s : Sign) (h : Normal m k) (hk : largestShift < k) :
    ofUnpacked (ofMagnitude s m k) = ofUnpacked (.infinity s) := by
  have hpositive : m ≠ 0 := by
    have hfull : 2 ^ 52 ≤ m := h.full (by omega)
    omega
  have hbias : ((Float.Model.Format.binary64.exponentBias : Nat) : Int) = 1023 := rfl
  have hplaces :
      ((Float.Model.Format.binary64.mantissaBitsWithoutImplicit : Nat) : Int) = 52 := rfl
  have hbits : 2 ^ Float.Model.Format.binary64.exponentBits = 2048 := rfl
  have hlarge : 2 ^ Float.Model.Format.binary64.exponentBits ≤
      ((k : Int) - 1074 + (Float.Model.Format.binary64.exponentBias : Nat) +
        (Float.Model.Format.binary64.mantissaBitsWithoutImplicit : Nat)).toNat + 1 := by
    rw [hbits, hbias, hplaces]
    rw [largestShift] at hk
    omega
  have hpack : pack .binary64 (ofMagnitude s m k) = pack .binary64 (.infinity s) := by
    rw [ofMagnitude_of_ne_zero _ _ hpositive]
    exact if_pos hlarge
  show (⟨⟨UInt64.ofBitVec (pack .binary64 (ofMagnitude s m k)), _⟩⟩ : Float) = _
  simp only [hpack]
  rfl

theorem unpacked_infinity (s : Sign) : unpacked (ofUnpacked (.infinity s)) = .infinity s := by
  cases s <;> rfl

theorem isFinite_infinity (s : Sign) : (ofUnpacked (.infinity s)).isFinite = false := by
  cases s <;> rfl

theorem nearestUnits_zero (pos : 0 < den) : nearestUnits 0 den = 0 :=
  (nearestUnits_eq_zero_iff 0 pos).mpr (Nat.zero_le den)

theorem nearestSigned_of_lt (s : Sign) {num : Nat} (pos : 0 < den)
    (h : nearestUnits num den < unitsBound) : (nearestSigned s num den).isFinite = true ∧
      units (nearestSigned s num den) = s.apply (nearestUnits num den : Nat) := by
  obtain ⟨m, k, normal, hunits, hcarried⟩ := exists_carried num pos
  obtain ⟨negative, rfl⟩ := exists_signOf s
  rw [← hunits] at h ⊢
  have magnitude := normal.magnitude_of_lt h
  obtain ⟨hfinite, hvalue⟩ := ofFloat_ofMagnitude negative magnitude
  rw [nearestSigned, hcarried]
  exact ⟨hfinite, by rw [units, hvalue]⟩

theorem nearestSigned_of_ge (s : Sign) {num : Nat} (pos : 0 < den)
    (h : unitsBound ≤ nearestUnits num den) :
    nearestSigned s num den = ofUnpacked (.infinity s) := by
  obtain ⟨m, k, normal, hunits, hcarried⟩ := exists_carried num pos
  rw [← hunits] at h
  have hshift : largestShift < k := by
    by_contra hle
    exact absurd ((normal.lt_iff_shift_le largestShift).mpr (by omega)) (Nat.not_lt.mpr h)
  rw [nearestSigned, hcarried, ofUnpacked_infinite s normal hshift]

/-- The units of the double nearest to a quotient with a sign. -/
def nearestInt (num : Int) (den : Nat) : Int := num.sign * nearestUnits num.natAbs den

/-- Whether a double is the one nearest to a quotient of units, or an infinity if the quotient is
too large for a double. -/
def IsNearest (x : Float) (num : Int) (den : Nat) : Prop :=
  ∃ s : Sign, s.apply num.natAbs = num ∧ x = nearestSigned s num.natAbs den

theorem apply_nearestUnits {s : Sign} (pos : 0 < den) (h : s.apply num.natAbs = num) :
    s.apply (nearestUnits num.natAbs den : Nat) = nearestInt num den := by
  rw [nearestInt]
  rcases Int.lt_trichotomy num 0 with hneg | rfl | hpos
  · cases s with
    | negative => rw [Int.sign_eq_neg_one_of_neg hneg, Sign.apply, neg_one_mul]
    | positive =>
      rw [Sign.apply] at h
      omega
  · rw [Int.natAbs_zero, nearestUnits_zero pos, Nat.cast_zero, apply_zero, mul_zero]
  · cases s with
    | negative =>
      rw [Sign.apply] at h
      omega
    | positive => rw [Int.sign_eq_one_of_pos hpos, Sign.apply, one_mul]

namespace IsNearest

variable (pos : 0 < den) (h : IsNearest x num den)

include pos h

theorem isFinite_iff : x.isFinite = true ↔ nearestUnits num.natAbs den < unitsBound := by
  obtain ⟨s, -, rfl⟩ := h
  constructor
  · intro hfinite
    by_contra hge
    rw [nearestSigned_of_ge s pos (Nat.le_of_not_lt hge), isFinite_infinity] at hfinite
    cases hfinite
  · intro hlt
    exact (nearestSigned_of_lt s pos hlt).1

theorem isFinite_of_le (h' : IsNearest y num' den) (hle : num'.natAbs ≤ num.natAbs)
    (hx : x.isFinite = true) : y.isFinite = true :=
  (h'.isFinite_iff pos).mpr <| Nat.lt_of_le_of_lt
    (nearestUnits_mono pos pos (Nat.mul_le_mul_right den hle)) ((h.isFinite_iff pos).mp hx)

theorem units_eq (hx : x.isFinite = true) : units x = nearestInt num den := by
  have hlt := (h.isFinite_iff pos).mp hx
  obtain ⟨s, hsign, rfl⟩ := h
  rw [(nearestSigned_of_lt s pos hlt).2, apply_nearestUnits pos hsign]

theorem infinite (hx : x.isFinite = false) :
    num ≠ 0 ∧ ∃ s : Sign, s.apply num.natAbs = num ∧ unpacked x = .infinity s := by
  have hge : unitsBound ≤ nearestUnits num.natAbs den := by
    by_contra hlt
    rw [(h.isFinite_iff pos).mpr (Nat.lt_of_not_le hlt)] at hx
    cases hx
  constructor
  · rintro rfl
    rw [Int.natAbs_zero, nearestUnits_zero pos] at hge
    exact absurd unitsBound_pos (Nat.not_lt.mpr hge)
  · obtain ⟨s, hsign, rfl⟩ := h
    exact ⟨s, hsign, by rw [nearestSigned_of_ge s pos hge, unpacked_infinity]⟩

end IsNearest

theorem nearestInt_natCast (pos : 0 < den) (n : Nat) :
    nearestInt (n : Int) den = nearestUnits n den := by
  rw [nearestInt, Int.natAbs_natCast]
  rcases Nat.eq_zero_or_pos n with rfl | hpos
  · rw [nearestUnits_zero pos, Nat.cast_zero, mul_zero]
  · rw [Int.sign_eq_one_of_pos (Int.natCast_pos.mpr hpos), one_mul]

theorem nearestInt_neg (num : Int) (den : Nat) : nearestInt (-num) den = -nearestInt num den := by
  rw [nearestInt, nearestInt, Int.sign_neg, Int.natAbs_neg, neg_mul]

theorem natAbs_nearestInt (pos : 0 < den) (num : Int) :
    (nearestInt num den).natAbs = nearestUnits num.natAbs den := by
  obtain ⟨n, rfl | rfl⟩ := Int.eq_nat_or_neg num
  · rw [nearestInt_natCast pos, Int.natAbs_natCast, Int.natAbs_natCast]
  · rw [nearestInt_neg, nearestInt_natCast pos, Int.natAbs_neg, Int.natAbs_neg, Int.natAbs_natCast,
      Int.natAbs_natCast]

theorem nearestInt_mono (pos : 0 < den) (h : num ≤ num') :
    nearestInt num den ≤ nearestInt num' den := by
  have hmono {a b : Nat} (hab : a ≤ b) : nearestInt (a : Int) den ≤ nearestInt (b : Int) den := by
    rw [nearestInt_natCast pos, nearestInt_natCast pos]
    exact Int.ofNat_le.mpr (nearestUnits_mono pos pos (Nat.mul_le_mul_right den hab))
  obtain ⟨a, rfl | rfl⟩ := Int.eq_nat_or_neg num
  · obtain ⟨b, rfl⟩ := Int.eq_ofNat_of_zero_le (Int.le_trans (Int.natCast_nonneg a) h)
    exact hmono (Int.ofNat_le.mp h)
  · obtain ⟨b, rfl | rfl⟩ := Int.eq_nat_or_neg num'
    · rw [nearestInt_neg, nearestInt_natCast pos, nearestInt_natCast pos]
      omega
    · rw [nearestInt_neg, nearestInt_neg]
      exact Int.neg_le_neg (hmono (by omega))

theorem nearestInt_nonneg (pos : 0 < den) (h : 0 ≤ num) : 0 ≤ nearestInt num den := by
  obtain ⟨n, rfl⟩ := Int.eq_ofNat_of_zero_le h
  rw [nearestInt_natCast pos]
  exact Int.natCast_nonneg _

/-- A whole number of units is off by a part in `2 ^ 53`. -/
theorem nearestInt_error (num : Int) : 2 ^ 53 * |nearestInt num 1 - num| ≤ |num| := by
  obtain ⟨n, rfl | rfl⟩ := Int.eq_nat_or_neg num
  · rw [nearestInt_natCast Nat.one_pos, Nat.abs_cast]
    exact nearestUnits_error_of_whole n
  · rw [nearestInt_neg, nearestInt_natCast Nat.one_pos, neg_sub_neg, abs_sub_comm, abs_neg,
      Nat.abs_cast]
    exact nearestUnits_error_of_whole n

theorem apply_mul (s : Sign) (a b : Int) : s.apply (a * b) = s.apply a * b := by
  cases s
  · exact (neg_mul a b).symm
  · rfl

theorem carried_zero (s : Sign) (pos : 0 < den) :
    carried s (quotientRounded 0 den) (quotientShift 0 den) = .zero s := by
  have hrounded : quotientRounded 0 den = 0 := by
    have hzero := nearestUnits_zero pos
    rw [nearestUnits] at hzero
    exact (Nat.mul_eq_zero.mp hzero).resolve_right (Nat.ne_of_gt (Nat.two_pow_pos _))
  rw [hrounded, carried, if_pos (by decide), ofMagnitude_zero]

theorem unitsOfOne_pos : 0 < unitsOfOne := by
  rw [unitsOfOne_eq]
  generalize 1074 = bias
  exact Nat.two_pow_pos bias

theorem mul_ofMagnitude {m k n j : Nat} (first : Normal m k) (second : Normal n j) (s t : Sign) :
    mul .binary64 (ofMagnitude s m k) (ofMagnitude t n j) =
      carried (s * t) (quotientRounded (m * 2 ^ k * (n * 2 ^ j)) unitsOfOne)
        (quotientShift (m * 2 ^ k * (n * 2 ^ j)) unitsOfOne) := by
  by_cases hm : m = 0
  · subst hm
    rw [ofMagnitude_zero, Nat.zero_mul, Nat.zero_mul, carried_zero _ unitsOfOne_pos]
    by_cases hn : n = 0
    · rw [hn, ofMagnitude_zero]
      rfl
    · rw [ofMagnitude_of_ne_zero _ _ hn]
      rfl
  · by_cases hn : n = 0
    · subst hn
      rw [ofMagnitude_zero, Nat.zero_mul, Nat.mul_zero, carried_zero _ unitsOfOne_pos,
        ofMagnitude_of_ne_zero _ _ hm]
      rfl
    · have hexponent : (k : Int) - 1074 + ((j : Int) - 1074) =
          ((k + j : Nat) : Int) - (1074 : Nat) - 1074 := by omega
      have hvalue : m * 2 ^ k * (n * 2 ^ j) * 2 ^ 1074 = m * n * (unitsOfOne * 2 ^ (k + j)) := by
        rw [unitsOfOne_eq]
        generalize 2 ^ 1074 = one
        ring
      have hfull : k + j ≤ 1074 ∨ 2 ^ 52 ≤ m * n := by
        rcases Nat.eq_zero_or_pos k with hk | hk
        · rcases Nat.eq_zero_or_pos j with hj | hj
          · exact .inl (by omega)
          · exact .inr (Nat.le_trans (second.full hj) (Nat.le_mul_of_pos_left _ (by omega)))
        · exact .inr (Nat.le_trans (first.full hk) (Nat.le_mul_of_pos_right _ (by omega)))
      rw [ofMagnitude_of_ne_zero _ _ hm, ofMagnitude_of_ne_zero _ _ hn, mul, hexponent]
      exact roundWithAccuracy_exact (s * t) unitsOfOne_pos hvalue hfull

theorem apply_mul_apply (s t : Sign) (a b : Nat) :
    (s * t).apply (a * b : Nat) = s.apply a * t.apply b := by
  rw [Nat.cast_mul]
  cases s <;> cases t
  · exact (neg_mul_neg (a : Int) b).symm
  · exact (neg_mul (a : Int) b).symm
  · exact (mul_neg (a : Int) b).symm
  · rfl

theorem natAbs_apply (s : Sign) (a : Nat) : (s.apply a).natAbs = a := by
  cases s
  · exact Int.natAbs_neg a
  · rfl

theorem isNearest_mul (hx : x.isFinite = true) (hy : y.isFinite = true) :
    IsNearest (x * y) (units x * units y) unitsOfOne := by
  obtain ⟨m, k, magnitude, hunpacked, hunits⟩ := exists_ofMagnitude hx
  obtain ⟨n, j, magnitude', hunpacked', hunits'⟩ := exists_ofMagnitude hy
  rw [hunits, hunits', ← apply_mul_apply]
  refine ⟨signOf (isNegative x) * signOf (isNegative y), ?_, ?_⟩
  · rw [natAbs_apply]
  · rw [natAbs_apply, mul_eq, hunpacked, hunpacked', nearestSigned,
      mul_ofMagnitude magnitude.normal magnitude'.normal]

theorem accuracyOfFraction_mul_right {rest den factor : Nat} (pos : 0 < factor) :
    accuracyOfFraction (rest * factor) (den * factor) = accuracyOfFraction rest den := by
  have htwice : 2 * (rest * factor) = 2 * rest * factor := (Nat.mul_assoc _ _ _).symm
  have hcompare : compare (2 * rest * factor) (den * factor) = compare (2 * rest) den := by
    rcases Nat.lt_trichotomy (2 * rest) den with hlt | heq | hgt
    · rw [Nat.compare_eq_lt.mpr hlt, Nat.compare_eq_lt.mpr (Nat.mul_lt_mul_of_pos_right hlt pos)]
    · rw [Nat.compare_eq_eq.mpr heq, Nat.compare_eq_eq.mpr (by rw [heq])]
    · rw [Nat.compare_eq_gt.mpr hgt, Nat.compare_eq_gt.mpr (Nat.mul_lt_mul_of_pos_right hgt pos)]
  have hzero : rest * factor = 0 ↔ rest = 0 := by
    rw [Nat.mul_eq_zero]
    omega
  rw [accuracyOfFraction, accuracyOfFraction, htwice, hcompare]
  simp only [hzero]

/-- A quotient is computed with at least 53 bits, unless it is that small. -/
theorem two_pow_le_div {m n shift : Nat} (hm : m ≠ 0) (hn : n ≠ 0)
    (h : n.log2 + 53 ≤ m.log2 + shift) : 2 ^ 52 ≤ m * 2 ^ shift / n := by
  rw [Nat.le_div_iff_mul_le (Nat.pos_of_ne_zero hn)]
  calc 2 ^ 52 * n ≤ 2 ^ 52 * 2 ^ (n.log2 + 1) :=
        Nat.mul_le_mul_left _ (Nat.le_of_lt Nat.lt_log2_self)
    _ = 2 ^ (n.log2 + 53) := by rw [← Nat.pow_add]; congr 1; omega
    _ ≤ 2 ^ (m.log2 + shift) := Nat.pow_le_pow_right (by decide) h
    _ = 2 ^ m.log2 * 2 ^ shift := Nat.pow_add _ _ _
    _ ≤ m * 2 ^ shift := Nat.mul_le_mul_right _ (Nat.log2_self_le hm)

theorem div_ofMagnitude {m k n j : Nat} (hn : n ≠ 0) (s t : Sign) :
    div .binary64 (ofMagnitude s m k) (ofMagnitude t n j) =
      carried (s / t) (quotientRounded (m * 2 ^ k * unitsOfOne) (n * 2 ^ j))
        (quotientShift (m * 2 ^ k * unitsOfOne) (n * 2 ^ j)) := by
  have hden : 0 < n * 2 ^ j := Nat.mul_pos (Nat.pos_of_ne_zero hn) (Nat.two_pow_pos j)
  by_cases hm : m = 0
  · subst hm
    rw [ofMagnitude_zero, Nat.zero_mul, Nat.zero_mul, carried_zero _ hden,
      ofMagnitude_of_ne_zero _ _ hn]
    rfl
  · obtain ⟨e, he⟩ : ∃ e : Int, min ((k : Int) - 1074 - ((j : Int) - 1074))
        (max ((m.log2 : Int) + 1 + ((k : Int) - 1074) - (n.log2 + 1 + ((j : Int) - 1074)) - 53)
          (-1074)) = e := ⟨_, rfl⟩
    obtain ⟨shift, hshift⟩ : ∃ shift : Nat,
        ((k : Int) - 1074 - ((j : Int) - 1074) - e).toNat = shift := ⟨_, rfl⟩
    obtain ⟨p, hp⟩ : ∃ p : Nat, (e + 1074).toNat = p := ⟨_, rfl⟩
    obtain ⟨q, hq⟩ : ∃ q : Nat, (-(e + 1074)).toNat = q := ⟨_, rfl⟩
    have hexponent : e = (p : Int) - q - 1074 := by omega
    have hbalance : k + 1074 + q = shift + (j + p) := by omega
    have hnum : m * 2 ^ k * unitsOfOne * 2 ^ q = m * 2 ^ shift * 2 ^ (j + p) := by
      rw [unitsOfOne_eq, Nat.mul_assoc, Nat.mul_assoc, Nat.mul_assoc, ← Nat.pow_add, ← Nat.pow_add,
        ← Nat.pow_add, ← hbalance, Nat.add_assoc]
    have hscaled : n * 2 ^ j * 2 ^ p = n * 2 ^ (j + p) := by
      rw [Nat.mul_assoc, ← Nat.pow_add]
    have hquotient : m * 2 ^ k * unitsOfOne * 2 ^ q / (n * 2 ^ j * 2 ^ p) = m * 2 ^ shift / n := by
      rw [hnum, hscaled, Nat.mul_div_mul_right _ _ (Nat.two_pow_pos _)]
    have hfull : p ≤ q ∨ 2 ^ 52 ≤ m * 2 ^ k * unitsOfOne * 2 ^ q / (n * 2 ^ j * 2 ^ p) := by
      rw [hquotient]
      rcases Nat.lt_or_ge q p with hlt | hge
      · exact .inr (two_pow_le_div hm hn (by omega))
      · exact .inl hge
    have hround := roundWithAccuracy_quotient (s / t) (m * 2 ^ k * unitsOfOne) hden hfull
    rw [hquotient, hnum, hscaled, Nat.mul_mod_mul_right,
      accuracyOfFraction_mul_right (Nat.two_pow_pos _)] at hround
    rw [ofMagnitude_of_ne_zero _ _ hm, ofMagnitude_of_ne_zero _ _ hn, div, divCore]
    simp only [targetExponent_eq, Float.Model.totalExponent, he, hshift, Nat.shiftLeft_eq]
    rw [hexponent, hround]

theorem apply_div_apply (s t : Sign) (a : Nat) {b : Nat} (pos : 0 < b) :
    (s / t).apply a = s.apply a * (t.apply b).sign := by
  have hsign : (b : Int).sign = 1 := Int.sign_eq_one_of_pos (Int.natCast_pos.mpr pos)
  cases s <;> cases t <;> simp only [Sign.apply, Int.sign_neg, hsign, mul_neg, mul_one, neg_neg] <;>
    rfl

theorem isNearest_div (hx : x.isFinite = true) (hy : y.isFinite = true) (hne : units y ≠ 0) :
    IsNearest (x / y) (units x * (units y).sign * unitsOfOne) (units y).natAbs := by
  obtain ⟨m, k, magnitude, hunpacked, hunits⟩ := exists_ofMagnitude hx
  obtain ⟨n, j, magnitude', hunpacked', hunits'⟩ := exists_ofMagnitude hy
  have hn : n ≠ 0 := by
    rintro rfl
    rw [hunits', Nat.zero_mul, Nat.cast_zero, apply_zero] at hne
    exact hne rfl
  have hpos : 0 < n * 2 ^ j := Nat.mul_pos (Nat.pos_of_ne_zero hn) (Nat.two_pow_pos j)
  have hdiv : x / y = ofUnpacked (div .binary64 (unpacked x) (unpacked y)) := rfl
  rw [hunits, hunits', ← apply_div_apply _ _ _ hpos, ← apply_mul, ← Nat.cast_mul]
  refine ⟨signOf (isNegative x) / signOf (isNegative y), ?_, ?_⟩
  · rw [natAbs_apply]
  · rw [natAbs_apply, natAbs_apply, hdiv, hunpacked, hunpacked', nearestSigned, div_ofMagnitude hn]

theorem Normal.unique {m s n k : Nat} (h : Normal m s) (h' : Normal n k)
    (heq : m * 2 ^ s = n * 2 ^ k) : m = n ∧ s = k := by
  have hcompare := h.compare_eq h'
  rw [Nat.compare_eq_eq.mpr heq, eq_comm, Ordering.then_eq_eq, Nat.compare_eq_eq,
    Nat.compare_eq_eq] at hcompare
  exact hcompare.symm

theorem isNearest_ofMagnitude {m k : Nat} (h : Normal m k) (s : Sign) :
    IsNearest (ofUnpacked (ofMagnitude s m k)) (s.apply (m * 2 ^ k : Nat)) 1 := by
  obtain ⟨n, j, normal, hunits, hcarried⟩ := exists_carried (m * 2 ^ k) Nat.one_pos
  have hnearest := nearestUnits_of_normal Nat.one_pos h
  rw [Nat.mul_one] at hnearest
  obtain ⟨rfl, rfl⟩ := normal.unique h (hunits.trans hnearest)
  refine ⟨s, ?_, ?_⟩
  · rw [natAbs_apply]
  · rw [natAbs_apply, nearestSigned, hcarried]

theorem isNearest_self (hx : x.isFinite = true) : IsNearest x (units x) 1 := by
  obtain ⟨m, k, magnitude, hunpacked, hunits⟩ := exists_ofMagnitude hx
  have hself := isNearest_ofMagnitude magnitude.normal (signOf (isNegative x))
  rwa [← hunpacked, ← hunits, ofUnpacked_unpacked] at hself

theorem isNearest_zero (s : Sign) : IsNearest (ofUnpacked (.zero s)) 0 1 :=
  ⟨s, apply_zero s, by rw [nearestSigned, Int.natAbs_zero, carried_zero s Nat.one_pos]⟩

theorem isNearest_normalize (sum : Int) (shift : Nat) :
    IsNearest (ofUnpacked (Float.Model.UnpackedFloat.normalize .binary64 sum
      ((shift : Int) - 1074) .positive)) (sum * 2 ^ shift) 1 := by
  have hround (s : Sign) {m : Nat} (positive : 0 < m) : IsNearest (ofUnpacked
      (Float.Model.UnpackedFloat.round .binary64 s m ((shift : Int) - 1074)))
        (s.apply m * 2 ^ shift) 1 := by
    have hscaled : s.apply m * 2 ^ shift = s.apply (m * 2 ^ shift : Nat) := by
      rw [Nat.cast_mul, apply_mul]
      norm_cast
    rw [hscaled]
    refine ⟨s, ?_, ?_⟩
    · rw [natAbs_apply]
    · rw [natAbs_apply, nearestSigned, round_eq s positive]
  rw [Float.Model.UnpackedFloat.normalize]
  obtain ⟨m, rfl | rfl⟩ := Int.eq_nat_or_neg sum
  · rcases Nat.eq_zero_or_pos m with rfl | hpos
    · rw [Nat.cast_zero, zero_mul]
      exact isNearest_zero .positive
    · rw [Int.compare_eq_gt.mpr (Int.natCast_pos.mpr hpos)]
      exact hround .positive hpos
  · rcases Nat.eq_zero_or_pos m with rfl | hpos
    · rw [Nat.cast_zero, neg_zero, zero_mul]
      exact isNearest_zero .positive
    · rw [Int.compare_eq_lt.mpr (Int.neg_neg_of_pos (Int.natCast_pos.mpr hpos))]
      dsimp only
      rw [Int.neg_neg]
      exact hround .negative hpos

section

variable {m k n j : Nat} {s t : Sign}

/-- The operands are brought to the smaller of their shifts first. -/
theorem isNearest_add_of_ne_zero (hm : m ≠ 0) (hn : n ≠ 0) :
    IsNearest (ofUnpacked (add .binary64 (ofMagnitude s m k) (ofMagnitude t n j)))
      (s.apply (m * 2 ^ k : Nat) + t.apply (n * 2 ^ j : Nat)) 1 := by
  have hexponent : min ((k : Int) - 1074) ((j : Int) - 1074) =
      ((min k j : Nat) : Int) - 1074 := by omega
  have hamount (i : Nat) :
      ((i : Int) - 1074 - (((min k j : Nat) : Int) - 1074)).toNat = i - min k j := by omega
  have hscaled (s : Sign) (m : Nat) {i : Nat} (hi : min k j ≤ i) :
      s.apply ((m * 2 ^ (i - min k j) : Nat) : Int) * 2 ^ min k j =
        s.apply ((m * 2 ^ i : Nat) : Int) := by
    rw [← apply_mul]
    congr 1
    push_cast
    rw [mul_assoc, ← pow_add, Nat.sub_add_cancel hi]
  rw [ofMagnitude_of_ne_zero _ _ hm, ofMagnitude_of_ne_zero _ _ hn, add]
  simp only [decreaseExponent, hexponent, hamount, Nat.shiftLeft_eq]
  have hsum := isNearest_normalize (s.apply (m * 2 ^ (k - min k j) : Nat) +
    t.apply (n * 2 ^ (j - min k j) : Nat)) (min k j)
  rwa [Int.add_mul, hscaled _ _ (Nat.min_le_left _ _), hscaled _ _ (Nat.min_le_right _ _)] at hsum

theorem isNearest_add_ofMagnitude (first : Normal m k) (second : Normal n j) :
    IsNearest (ofUnpacked (add .binary64 (ofMagnitude s m k) (ofMagnitude t n j)))
      (s.apply (m * 2 ^ k : Nat) + t.apply (n * 2 ^ j : Nat)) 1 := by
  by_cases hm : m = 0
  · subst hm
    rw [ofMagnitude_zero, Nat.zero_mul, Nat.cast_zero, apply_zero, zero_add]
    by_cases hn : n = 0
    · subst hn
      rw [ofMagnitude_zero, Nat.zero_mul, Nat.cast_zero, apply_zero]
      obtain hsame | ⟨u, -, hu, -⟩ := agree_zero_add (.zero t) s
      · rw [hsame]
        exact isNearest_zero t
      · rw [hu]
        exact isNearest_zero u
    · have hsecond := isNearest_ofMagnitude second t
      rwa [ofMagnitude_of_ne_zero _ _ hn] at hsecond ⊢
  · by_cases hn : n = 0
    · subst hn
      have hfirst := isNearest_ofMagnitude first s
      rw [ofMagnitude_zero, Nat.zero_mul, Nat.cast_zero, apply_zero, add_zero]
      rwa [ofMagnitude_of_ne_zero _ _ hm] at hfirst ⊢
    · exact isNearest_add_of_ne_zero hm hn

end

/-- A sum of finite doubles is the double nearest to their exact sum. -/
theorem isNearest_add (hx : x.isFinite = true) (hy : y.isFinite = true) :
    IsNearest (x + y) (units x + units y) 1 := by
  obtain ⟨m, k, magnitude, hunpacked, hunits⟩ := exists_ofMagnitude hx
  obtain ⟨n, j, magnitude', hunpacked', hunits'⟩ := exists_ofMagnitude hy
  rw [hunits, hunits', add_eq, hunpacked, hunpacked']
  exact isNearest_add_ofMagnitude magnitude.normal magnitude'.normal

theorem neg_ofMagnitude (s : Sign) (m k : Nat) :
    neg (ofMagnitude s m k) = ofMagnitude (-s) m k := by
  by_cases hm : m = 0
  · rw [hm, ofMagnitude_zero, ofMagnitude_zero]
    rfl
  · rw [ofMagnitude_of_ne_zero _ _ hm, ofMagnitude_of_ne_zero _ _ hm]
    rfl

theorem isFinite_eq (x : Float) : x.isFinite = (unpacked x).isFinite := rfl

theorem unpacked_neg (x : Float) : unpacked (-x) = neg (unpacked x) := by
  cases hfinite : x.isFinite with
  | true =>
    obtain ⟨m, k, magnitude, hunpacked, -⟩ := exists_ofMagnitude hfinite
    obtain ⟨negative, hsign⟩ := exists_signOf (-signOf (isNegative x))
    rw [neg_eq, hunpacked, neg_ofMagnitude, ← hsign, unpacked_ofMagnitude negative magnitude]
  | false =>
    rw [isFinite_eq] at hfinite
    rw [neg_eq]
    cases hx : unpacked x with
    | notANumber => rfl
    | infinity s => exact unpacked_infinity (-s)
    | zero s => rw [hx] at hfinite; cases hfinite
    | finite => rw [hx] at hfinite; cases hfinite

theorem sub_eq_add (u v : Float.Model.UnpackedFloat) :
    sub .binary64 u v = add .binary64 u (neg v) := by
  have happly (s : Sign) (a : Int) : (-s).apply a = -s.apply a := by
    cases s
    · exact (Int.neg_neg a).symm
    · rfl
  have hsign (s : Sign) : - -s = s := by cases s <;> rfl
  cases u with
  | notANumber => rfl
  | infinity s => cases v with
    | infinity t => cases s <;> cases t <;> rfl
    | notANumber | zero | finite => rfl
  | zero s => cases v with
    | zero t => cases s <;> cases t <;> rfl
    | notANumber | infinity | finite => rfl
  | finite s m e positive => cases v with
    | finite t n j positive' =>
      rw [sub, neg, add]
      simp only [happly, Int.sub_eq_add_neg]
    | notANumber | infinity | zero => rfl

theorem isFinite_ofUnpacked {u : Float.Model.UnpackedFloat} (h : u.isFinite = false) :
    (ofUnpacked u).isFinite = false := by
  cases u with
  | notANumber => rfl
  | infinity s => exact isFinite_infinity s
  | zero | finite => cases h

theorem isFinite_operands {op : Float.Model.UnpackedFloat → Float.Model.UnpackedFloat →
      Float.Model.UnpackedFloat}
    (keeps : ∀ u v, u.isFinite = false ∨ v.isFinite = false → (op u v).isFinite = false)
    (h : (ofUnpacked (op (unpacked x) (unpacked y))).isFinite = true) :
    x.isFinite = true ∧ y.isFinite = true := by
  rw [isFinite_eq x, isFinite_eq y, ← Bool.and_eq_true]
  by_contra hnot
  have hside : (unpacked x).isFinite = false ∨ (unpacked y).isFinite = false := by
    rwa [Bool.not_eq_true, Bool.and_eq_false_iff] at hnot
  rw [isFinite_ofUnpacked (keeps _ _ hside)] at h
  cases h

theorem isFinite_of_add (h : (x + y).isFinite = true) :
    x.isFinite = true ∧ y.isFinite = true := by
  refine isFinite_operands (fun u v huv => ?_) h
  cases u with
  | notANumber => rfl
  | infinity s => cases v with
    | infinity t => cases s <;> cases t <;> rfl
    | notANumber | zero | finite => rfl
  | zero | finite => cases v with
    | notANumber | infinity => rfl
    | zero | finite => rcases huv with hu | hv <;> contradiction

theorem isFinite_of_mul (h : (x * y).isFinite = true) :
    x.isFinite = true ∧ y.isFinite = true := by
  refine isFinite_operands (fun u v huv => ?_) h
  cases u with
  | notANumber => rfl
  | infinity s => cases v <;> rfl
  | zero | finite => cases v with
    | notANumber | infinity => rfl
    | zero | finite => rcases huv with hu | hv <;> contradiction

theorem isFinite_of_div (h : (x / y).isFinite = true) : x.isFinite = true := by
  have hdiv : x / y = ofUnpacked (div .binary64 (unpacked x) (unpacked y)) := rfl
  rw [hdiv] at h
  rw [isFinite_eq]
  by_contra hnot
  have hkept : (div .binary64 (unpacked x) (unpacked y)).isFinite = false := by
    cases hx : unpacked x with
    | notANumber => rfl
    | infinity s => cases unpacked y <;> rfl
    | zero | finite => rw [hx] at hnot; exact absurd rfl hnot
  rw [isFinite_ofUnpacked hkept] at h
  cases h

theorem sub_eq_add_neg (x y : Float) : x - y = x + -y := by
  rw [sub_eq, add_eq, unpacked_neg, sub_eq_add]

/-- The opposite is taken alike by a factor and by a sign, whatever the operand is. -/
theorem neg_one_mul (x : Float) : -1 * x = -(1 * x) := by
  cases hfinite : x.isFinite with
  | true => rw [neg_one_mul_of_isFinite hfinite, one_mul_of_isFinite hfinite]
  | false =>
    rw [isFinite_eq] at hfinite
    rw [mul_eq, mul_eq, unpacked_one, unpacked_neg_one]
    cases hx : unpacked x with
    | notANumber => rfl
    | infinity s => cases s <;> rfl
    | zero | finite => rw [hx] at hfinite; cases hfinite

theorem add_isZero (hz : IsZero z) : x + z = x ∨ IsZero (x + z) ∧ IsZero x := by
  obtain ⟨s, hs⟩ := hz
  rw [add_eq, hs]
  obtain hsame | ⟨t, u, hsum, hx⟩ := agree_add_zero (unpacked x) s
  · exact .inl (by rw [hsame, ofUnpacked_unpacked])
  · exact .inr ⟨hsum ▸ isZero_ofUnpacked t, u, hx⟩

theorem isNearest_sub (hx : x.isFinite = true) (hy : y.isFinite = true) :
    IsNearest (x - y) (units x - units y) 1 := by
  rw [sub_eq_add_neg, Int.sub_eq_add_neg, ← units_neg hy]
  exact isNearest_add hx (isFinite_neg hy)

theorem nearestInt_units (hx : x.isFinite = true) : nearestInt (units x) 1 = units x :=
  ((isNearest_self hx).units_eq Nat.one_pos hx).symm

theorem nearestUnits_natAbs_units (hx : x.isFinite = true) :
    nearestUnits (units x).natAbs 1 = (units x).natAbs := by
  rw [← natAbs_nearestInt Nat.one_pos, nearestInt_units hx]

theorem natAbs_units_lt (hx : x.isFinite = true) : (units x).natAbs < unitsBound := by
  rw [← nearestUnits_natAbs_units hx]
  exact ((isNearest_self hx).isFinite_iff Nat.one_pos).mp hx

theorem IsNearest.isZero_iff (h : IsNearest x num den) (pos : 0 < den) :
    IsZero x ↔ 2 * num.natAbs ≤ den := by
  rw [← nearestUnits_eq_zero_iff _ pos, isZero_iff_units]
  constructor
  · rintro ⟨hfinite, hunits⟩
    rw [← natAbs_nearestInt pos, ← h.units_eq pos hfinite, hunits]
    rfl
  · intro hnone
    have hfinite : x.isFinite = true := by
      rw [h.isFinite_iff pos, hnone]
      exact unitsBound_pos
    refine ⟨hfinite, ?_⟩
    rw [h.units_eq pos hfinite, ← Int.natAbs_eq_zero, natAbs_nearestInt pos, hnone]

theorem IsNearest.natAbs_units_le {m k : Nat} (h : IsNearest x num 1) (magnitude : Magnitude m k)
    (hle : num.natAbs ≤ m * 2 ^ k) : x.isFinite = true ∧ (units x).natAbs ≤ m * 2 ^ k := by
  have hself := nearestUnits_of_normal Nat.one_pos magnitude.normal
  have hnearest := nearestUnits_mono Nat.one_pos Nat.one_pos (Nat.mul_le_mul_right 1 hle)
  rw [Nat.mul_one] at hself
  rw [hself] at hnearest
  have hfinite : x.isFinite = true :=
    (h.isFinite_iff Nat.one_pos).mpr (Nat.lt_of_le_of_lt hnearest magnitude.lt_unitsBound)
  rw [h.units_eq Nat.one_pos hfinite, natAbs_nearestInt Nat.one_pos]
  exact ⟨hfinite, hnearest⟩

/-- Doubles that are no further apart than a third one have no larger difference, rounded as it
is. -/
theorem abs_sub_le (hx : x.isFinite = true) (hy : y.isFinite = true) (hz : z.isFinite = true)
    (h : |units x - units y| ≤ units z) : (x - y).abs ≤ z := by
  obtain ⟨m, k, magnitude, -, hunits⟩ := exists_ofMagnitude hz
  have habs : (units z).natAbs = m * 2 ^ k := by rw [hunits, natAbs_apply]
  have hbound : (units x - units y).natAbs ≤ m * 2 ^ k := by
    rw [Int.abs_eq_natAbs] at h
    omega
  obtain ⟨hfinite, hle⟩ := (isNearest_sub hx hy).natAbs_units_le magnitude hbound
  rw [le_iff_units (abs_unsigned hfinite).1 hz, units_abs hfinite, Int.abs_eq_natAbs]
  have := abs_nonneg (units x - units y)
  omega

theorem isNearest_ofScientific (n : Nat) : IsNearest
    (ofUnpacked (Float.Model.UnpackedFloat.ofScientific .binary64 n 0))
      (n * unitsOfOne : Nat) 1 := by
  rcases Nat.eq_zero_or_pos n with rfl | hpos
  · rw [Nat.zero_mul]
    exact isNearest_zero .positive
  · -- The significand is scaled by as many bits as a double has before it is rounded.
    obtain ⟨p, hp⟩ : ∃ p, p + 53 = 1074 := ⟨1021, rfl⟩
    have hvalue : n * unitsOfOne * 2 ^ 0 = n * 2 ^ 53 * 10 ^ 0 * (1 * 2 ^ p) := by
      rw [unitsOfOne_eq, ← hp]
      ring
    have hexponent : -(53 : Int) + 0 = (p : Int) - (0 : Nat) - 1074 := by omega
    have hsmall : ¬(0 : Int) <
        -((2 ^ Float.Model.Format.binary64.exponentBits : Int) + n.log2) := by
      have hbits : (2 ^ Float.Model.Format.binary64.exponentBits : Int) = 2048 := rfl
      rw [hbits]
      omega
    have hbits : Float.Model.Format.binary64.mantissaBits = 53 := rfl
    have hround := roundWithAccuracy_exact .positive Nat.one_pos hvalue (.inr (by omega))
    refine ⟨.positive, rfl, ?_⟩
    rw [Float.Model.UnpackedFloat.ofScientific, dif_neg (Nat.ne_of_gt hpos), if_neg (by decide),
      if_neg hsmall, if_pos (Int.le_refl 0), mul, hbits, Nat.shiftLeft_eq, Int.natAbs_natCast,
      nearestSigned, ← hround, ← hexponent]
    rfl

theorem isNearest_toFloat {n : Nat} (h : n < 2 ^ 53) :
    IsNearest n.toUInt64.toFloat (n * unitsOfOne : Nat) 1 := by
  have hn : n.toUInt64.toNat = n := Nat.mod_eq_of_lt (by omega)
  have hsame : n.toUInt64.toFloat = ofUnpacked (Float.Model.UnpackedFloat.normalize .binary64
      (n.toUInt64.toNat : Int) (((1074 : Nat) : Int) - 1074) .positive) := rfl
  rw [hsame, hn, unitsOfOne_eq, Nat.cast_mul, Nat.cast_pow]
  exact isNearest_normalize n 1074

theorem ofNat_of_lt {n : Nat} (h : n < 2 ^ 53) : Float.ofNat n = n.toUInt64.toFloat * 1 := by
  have hn : n < 2 ^ 53 ∧ 0 ≤ 22 := ⟨h, by decide⟩
  show Float.ofScientific n false 0 = _
  rw [Float.ofScientific, dif_pos hn]
  rfl

theorem ofNat_of_ge {n : Nat} (h : 2 ^ 53 ≤ n) :
    Float.ofNat n = ofUnpacked (Float.Model.UnpackedFloat.ofScientific .binary64 n 0) := by
  have hn : ¬(n < 2 ^ 53 ∧ 0 ≤ 22) := fun hn => Nat.not_lt.mpr h hn.1
  show Float.ofScientific n false 0 = _
  rw [Float.ofScientific, dif_neg hn]
  rfl

theorem isNearest_ofNat (n : Nat) : IsNearest (Float.ofNat n) (n * unitsOfOne : Nat) 1 := by
  rcases Nat.lt_or_ge n (2 ^ 53) with hlt | hge
  · have hnearest := isNearest_toFloat hlt
    obtain ⟨bias, hbias⟩ : ∃ bias : Nat, 1074 = bias := ⟨_, rfl⟩
    have magnitude : Magnitude (2 ^ 52) (bias + 1) := by
      subst hbias
      exact ⟨by decide, by decide, by decide⟩
    have hbelow : ((n * unitsOfOne : Nat) : Int).natAbs ≤ 2 ^ 52 * 2 ^ (bias + 1) := by
      rw [Int.natAbs_natCast, unitsOfOne_eq, hbias]
      calc n * 2 ^ bias ≤ 2 ^ 53 * 2 ^ bias := Nat.mul_le_mul_right _ (Nat.le_of_lt hlt)
        _ = 2 ^ 52 * 2 ^ (bias + 1) := by ring
    rwa [ofNat_of_lt hlt, mul_one_of_isFinite (hnearest.natAbs_units_le magnitude hbelow).1]
  · rw [ofNat_of_ge hge]
    exact isNearest_ofScientific n

end Calculator.Binary64
