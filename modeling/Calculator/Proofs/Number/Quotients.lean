import Calculator.Proofs.Number.FixedPlaces

/-!
Quotients as the arithmetic on doubles rounds them. A product, a quotient or a sum of doubles is a
quotient of natural numbers of units; the arithmetic cuts it off at an exponent of its own, keeps a
bit and a flag of what it cut off, and shifts from there. However far it is shifted, the result is
the double nearest to the quotient, `nearestUnits`, which grows with the quotient.
-/

set_option autoImplicit false
set_option relaxedAutoImplicit false

namespace Calculator

theorem Rounding.halfEven_mul_right {num den factor : Nat} (pos : 0 < factor) :
    halfEven (num * factor) (den * factor) = halfEven num den := by
  have htwice : 2 * (num % den * factor) = 2 * (num % den) * factor := (Nat.mul_assoc _ _ _).symm
  rw [halfEven, halfEven, Nat.mul_div_mul_right _ _ pos, Nat.mul_mod_mul_right, htwice]
  simp only [Nat.mul_lt_mul_right pos, Nat.mul_left_inj (Nat.ne_of_gt pos)]

namespace Binary64

open Float.Model (Format totalExponent)
open Float.Model.UnpackedFloat

variable {num den num' den' m k : Nat} {em : ExtendedMantissa}

/-- A quotient as the arithmetic on doubles cuts it off: the whole part, the bit after it, and
whether anything follows that bit. -/
structure CutOff (em : ExtendedMantissa) (num den : Nat) : Prop where
  mantissa : em.mantissa = num / den
  roundBit : em.roundBit = true ↔ den ≤ 2 * (num % den)
  stickyBit : em.stickyBit = true ↔ num % den ≠ 0 ∧ 2 * (num % den) ≠ den

theorem cutOff_accuracyOfFraction (num : Nat) (pos : 0 < den) :
    CutOff (.ofMantissaAndAccuracy (num / den) (accuracyOfFraction (num % den) den)) num den := by
  rw [accuracyOfFraction]
  by_cases hzero : num % den = 0
  · rw [if_pos hzero]
    exact ⟨rfl, by simp [ExtendedMantissa.ofMantissaAndAccuracy, hzero, Nat.ne_of_gt pos],
      by simp [ExtendedMantissa.ofMantissaAndAccuracy, hzero]⟩
  · rw [if_neg hzero]
    rcases Nat.lt_trichotomy (2 * (num % den)) den with hlt | heq | hgt
    · rw [Nat.compare_eq_lt.mpr hlt]
      exact ⟨rfl, by simp [ExtendedMantissa.ofMantissaAndAccuracy, hlt],
        by simp [ExtendedMantissa.ofMantissaAndAccuracy, hzero, Nat.ne_of_lt hlt]⟩
    · rw [Nat.compare_eq_eq.mpr heq]
      exact ⟨rfl, by simp [ExtendedMantissa.ofMantissaAndAccuracy, heq],
        by simp [ExtendedMantissa.ofMantissaAndAccuracy, heq]⟩
    · rw [Nat.compare_eq_gt.mpr hgt]
      exact ⟨rfl, by simp [ExtendedMantissa.ofMantissaAndAccuracy, Nat.le_of_lt hgt],
        by simp [ExtendedMantissa.ofMantissaAndAccuracy, hzero, Nat.ne_of_gt hgt]⟩

theorem CutOff.shiftRightOne (h : CutOff em num den) (pos : 0 < den) :
    CutOff em.shiftRightOne num (den * 2) := by
  have hquotient : num / (den * 2) = num / den / 2 := (Nat.div_div_eq_div_mul num den 2).symm
  have hremainder : num % (den * 2) = num % den + den * (num / den % 2) := Nat.mod_mul
  have hbound : num % den < den := Nat.mod_lt num pos
  obtain ⟨mantissa, roundBit, stickyBit⟩ := em
  obtain ⟨hmantissa, hround, hsticky⟩ := h
  dsimp only at hmantissa hround hsticky
  subst hmantissa
  refine ⟨hquotient.symm, ?_, ?_⟩
  · rw [ExtendedMantissa.shiftRightOne, hremainder]
    dsimp only
    rcases Nat.mod_two_eq_zero_or_one (num / den) with hbit | hbit
    · rw [hbit]
      simp
      omega
    · rw [hbit]
      simp
      omega
  · rw [ExtendedMantissa.shiftRightOne, hremainder]
    dsimp only
    rw [Bool.or_eq_true, hround, hsticky]
    rcases Nat.mod_two_eq_zero_or_one (num / den) with hbit | hbit
    · rw [hbit, Nat.mul_zero]
      omega
    · rw [hbit, Nat.mul_one]
      omega

theorem CutOff.shiftRight (h : CutOff em num den) (pos : 0 < den) (n : Nat) :
    CutOff (em >>> n) num (den * 2 ^ n) := by
  change CutOff (n.repeat ExtendedMantissa.shiftRightOne em) num (den * 2 ^ n)
  induction n with
  | zero => rwa [Nat.pow_zero, Nat.mul_one]
  | succ n ih =>
    rw [Nat.repeat, Nat.pow_succ, ← Nat.mul_assoc]
    exact ih.shiftRightOne (Nat.mul_pos pos (Nat.two_pow_pos n))

theorem CutOff.roundedMantissa (h : CutOff em num den) (pos : 0 < den) :
    em.roundedMantissa = Rounding.halfEven num den := by
  obtain ⟨mantissa, roundBit, stickyBit⟩ := em
  obtain ⟨hmantissa, hround, hsticky⟩ := h
  dsimp only at hmantissa hround hsticky
  subst hmantissa
  rw [Rounding.halfEven]
  cases roundBit <;> cases stickyBit <;>
    simp only [ExtendedMantissa.roundedMantissa, ExtendedMantissa.accuracy,
      Accuracy.roundToNearestEven] <;> simp at hround hsticky <;> split_ifs <;> omega

theorem log2_le_of_lt {n k : Nat} (h : n < 2 ^ k) : n.log2 ≤ k := by
  rcases Nat.eq_zero_or_pos n with rfl | hpos
  · exact Nat.zero_le k
  · exact Nat.le_of_lt ((Nat.log2_lt (Nat.ne_of_gt hpos)).mpr h)

/-- The quotient begins at the same place however far it is shifted before it is cut off. -/
theorem log2_quotient (num : Nat) (pos : 0 < den) {p q : Nat}
    (h : p ≤ q ∨ 2 ^ 52 ≤ num * 2 ^ q / (den * 2 ^ p)) :
    (num * 2 ^ q / (den * 2 ^ p)).log2 + p - (q + 52) = quotientShift num den := by
  have hden : 0 < den * 2 ^ p := Nat.mul_pos pos (Nat.two_pow_pos p)
  have hscaled {j k : Nat} (hjk : j + p = k + q) :
      2 ^ j * (den * 2 ^ p) = 2 ^ k * den * 2 ^ q := by
    calc 2 ^ j * (den * 2 ^ p) = 2 ^ (j + p) * den := by rw [Nat.pow_add]; ring
      _ = 2 ^ k * den * 2 ^ q := by rw [hjk, Nat.pow_add]; ring
  -- A shift to the right leaves 53 bits, so the quotient had as many more.
  have hroom {k : Nat} (hbelow : num < 2 ^ k * den) : p ≤ q ∨ 52 + p < k + q := by
    rcases h with hpq | hge
    · exact .inl hpq
    · right
      have hlt : 2 ^ (52 + p) * den < 2 ^ (k + q) * den := by
        calc 2 ^ (52 + p) * den = 2 ^ 52 * (den * 2 ^ p) := by ring
          _ ≤ num * 2 ^ q := (Nat.le_div_iff_mul_le hden).mp hge
          _ < 2 ^ k * den * 2 ^ q := Nat.mul_lt_mul_of_pos_right hbelow (Nat.two_pow_pos q)
          _ = 2 ^ (k + q) * den := by rw [Nat.pow_add]; ring
      exact (Nat.pow_lt_pow_iff_right (by decide)).mp (Nat.lt_of_mul_lt_mul_right hlt)
  rw [quotientShift]
  rcases Nat.lt_or_ge (num / den) (2 ^ 52) with hsmall | hlarge
  · have hnum : num < 2 ^ 52 * den := (Nat.div_lt_iff_lt_mul pos).mp hsmall
    have hpq := hroom hnum
    have hquotient : num * 2 ^ q / (den * 2 ^ p) < 2 ^ (52 + q - p) := by
      rw [Nat.div_lt_iff_lt_mul hden, hscaled (show 52 + q - p + p = 52 + q by omega)]
      exact Nat.mul_lt_mul_of_pos_right hnum (Nat.two_pow_pos q)
    have hlog := log2_le_of_lt hsmall
    have hlog' := log2_le_of_lt hquotient
    omega
  · have hne : num / den ≠ 0 := by omega
    have hlow : 2 ^ (num / den).log2 * den ≤ num :=
      (Nat.le_div_iff_mul_le pos).mp (Nat.log2_self_le hne)
    have hhigh : num < 2 ^ ((num / den).log2 + 1) * den :=
      (Nat.div_lt_iff_lt_mul pos).mp Nat.lt_log2_self
    have hpq := hroom hhigh
    generalize (num / den).log2 = k at *
    have hlog : (num * 2 ^ q / (den * 2 ^ p)).log2 = k + q - p := by
      apply log2_div hden
      · rw [hscaled (show k + q - p + p = k + q by omega)]
        exact Nat.mul_le_mul_right _ hlow
      · rw [hscaled (show k + q - p + 1 + p = k + 1 + q by omega)]
        exact Nat.mul_lt_mul_of_pos_right hhigh (Nat.two_pow_pos q)
    omega

theorem targetExponent_eq (e : Int) :
    Format.binary64.targetExponent e = max (e - 53) (-1074) := rfl

/-- Rounding looks at the quotient only, not at the exponent that the arithmetic computed it with,
if no bit is shifted in that the quotient does not have. -/
theorem shiftToTargetExponent_quotient (num : Nat) (pos : 0 < den) {p q : Nat}
    (h : p ≤ q ∨ 2 ^ 52 ≤ num * 2 ^ q / (den * 2 ^ p)) : ∃ em,
    shiftToTargetExponent .binary64 (num * 2 ^ q / (den * 2 ^ p)) ((p : Int) - q - 1074)
        (accuracyOfFraction (num * 2 ^ q % (den * 2 ^ p)) (den * 2 ^ p)) =
      (em, (quotientShift num den : Int) - 1074) ∧ em.roundedMantissa =
      quotientRounded num den := by
  have hden : 0 < den * 2 ^ p := Nat.mul_pos pos (Nat.two_pow_pos p)
  have hlog := log2_quotient num pos h
  have htarget : Format.binary64.targetExponent
      (totalExponent (num * 2 ^ q / (den * 2 ^ p)) ((p : Int) - q - 1074)) =
        (quotientShift num den : Int) - 1074 := by
    rw [targetExponent_eq, totalExponent]
    omega
  have hroom : p ≤ quotientShift num den + q := by
    rcases h with hpq | hge
    · omega
    · have hne : num * 2 ^ q / (den * 2 ^ p) ≠ 0 := by omega
      have := (Nat.le_log2 hne).mpr hge
      omega
  have hamount : ((quotientShift num den : Int) - 1074 - ((p : Int) - q - 1074)).toNat =
      quotientShift num den + q - p := by omega
  have hcut := (cutOff_accuracyOfFraction (num * 2 ^ q) hden).shiftRight hden
    (quotientShift num den + q - p)
  have hscaled : den * 2 ^ p * 2 ^ (quotientShift num den + q - p) =
      den * 2 ^ quotientShift num den * 2 ^ q := by
    rw [Nat.mul_assoc, Nat.mul_assoc, ← Nat.pow_add, ← Nat.pow_add]
    congr 2
    omega
  rw [hscaled] at hcut
  rw [shiftToTargetExponent, htarget, shiftToExponent, hamount]
  refine ⟨_, Prod.ext rfl ?_, ?_⟩
  · show (p : Int) - q - 1074 + ((quotientShift num den + q - p : Nat) : Int) = _
    omega
  · have hunit : 0 < den * 2 ^ quotientShift num den := Nat.mul_pos pos (Nat.two_pow_pos _)
    rw [hcut.roundedMantissa (Nat.mul_pos hunit (Nat.two_pow_pos q)), quotientRounded,
      Rounding.halfEven_mul_right (Nat.two_pow_pos q)]

/-- A significand of at most 53 bits, or one that rounding carried over to the next power of
two. -/
def carried (s : Sign) (significand shift : Nat) : Float.Model.UnpackedFloat :=
  if significand < 2 ^ 53 then ofMagnitude s significand shift
  else ofMagnitude s (2 ^ 52) (shift + 1)

theorem shiftToTargetExponent_of_lt {significand : Nat} (h : significand < 2 ^ 53) (shift : Nat) :
    shiftToTargetExponent .binary64 significand ((shift : Int) - 1074) .exact =
      (⟨significand, false, false⟩, (shift : Int) - 1074) := by
  have hlog : significand.log2 ≤ 52 := by
    rcases Nat.eq_zero_or_pos significand with hzero | hpos
    · rw [hzero]
      decide
    · exact Nat.le_of_lt_succ ((Nat.log2_lt (Nat.ne_of_gt hpos)).mpr h)
  have hamount : (max ((significand.log2 : Int) + 1 + ((shift : Int) - 1074) - 53) (-1074) -
      ((shift : Int) - 1074)).toNat = 0 := by omega
  have hnone := shiftRight_exact significand 0
  rw [Nat.pow_zero, Nat.mul_one] at hnone
  rw [shiftToTargetExponent, targetExponent_eq, totalExponent, shiftToExponent, hamount]
  simp only [ExtendedMantissa.ofMantissaAndAccuracy, hnone]
  simp

theorem shiftToTargetExponent_carry (shift : Nat) :
    shiftToTargetExponent .binary64 (2 ^ 53) ((shift : Int) - 1074) .exact =
      (⟨2 ^ 52, false, false⟩, ((shift + 1 : Nat) : Int) - 1074) := by
  have hlog : (2 ^ 53).log2 = 53 := Nat.log2_two_pow
  have hamount : (max (((53 : Nat) : Int) + 1 + ((shift : Int) - 1074) - 53) (-1074) -
      ((shift : Int) - 1074)).toNat = 1 := by omega
  rw [shiftToTargetExponent, targetExponent_eq, totalExponent, shiftToExponent, hlog, hamount]
  refine Prod.ext rfl ?_
  show (shift : Int) - 1074 + ((1 : Nat) : Int) = _
  omega

theorem roundWithAccuracy_eq (s : Sign) {significand shift : Nat} {e : Int}
    {accuracy : Accuracy}
    (hshift : shiftToTargetExponent .binary64 significand e accuracy = (em, (shift : Int) - 1074))
    (h : em.roundedMantissa ≤ 2 ^ 53) :
    roundWithAccuracy .binary64 s significand e accuracy = carried s em.roundedMantissa shift := by
  rw [roundWithAccuracy, hshift, carried]
  dsimp only
  by_cases hsmall : em.roundedMantissa < 2 ^ 53
  · rw [if_pos hsmall, ofMagnitude]
    simp only [shiftToTargetExponent_of_lt hsmall]
  · have hcarry : em.roundedMantissa = 2 ^ 53 := by omega
    rw [if_neg hsmall, ofMagnitude]
    simp only [hcarry, shiftToTargetExponent_carry]

theorem roundWithAccuracy_quotient (s : Sign) (num : Nat) (pos : 0 < den) {p q : Nat}
    (h : p ≤ q ∨ 2 ^ 52 ≤ num * 2 ^ q / (den * 2 ^ p)) :
    roundWithAccuracy .binary64 s (num * 2 ^ q / (den * 2 ^ p)) ((p : Int) - q - 1074)
        (accuracyOfFraction (num * 2 ^ q % (den * 2 ^ p)) (den * 2 ^ p)) =
      carried s (quotientRounded num den) (quotientShift num den) := by
  obtain ⟨em, hshift, hrounded⟩ := shiftToTargetExponent_quotient num pos h
  have hbound := (quotientRounded_bounds num pos).1
  rw [← hrounded] at hbound
  rw [roundWithAccuracy_eq s hshift hbound, hrounded]

theorem roundWithAccuracy_exact (s : Sign) (pos : 0 < den) {p q : Nat}
    (hquotient : num * 2 ^ q = m * (den * 2 ^ p)) (h : p ≤ q ∨ 2 ^ 52 ≤ m) :
    roundWithAccuracy .binary64 s m ((p : Int) - q - 1074) .exact =
      carried s (quotientRounded num den) (quotientShift num den) := by
  have hden : 0 < den * 2 ^ p := Nat.mul_pos pos (Nat.two_pow_pos p)
  have hdiv : num * 2 ^ q / (den * 2 ^ p) = m := by
    rw [hquotient]
    exact Nat.mul_div_cancel m hden
  have hmod : num * 2 ^ q % (den * 2 ^ p) = 0 := by
    rw [hquotient]
    exact Nat.mul_mod_left m _
  have hround := roundWithAccuracy_quotient s num pos (p := p) (q := q) (by rwa [hdiv])
  rwa [hdiv, hmod] at hround

/-- A whole number of units has its bits shifted in before it is rounded, if it has too few. -/
theorem round_eq (s : Sign) {shift : Nat} (positive : 0 < m) :
    Float.Model.UnpackedFloat.round .binary64 s m ((shift : Int) - 1074) =
      carried s (quotientRounded (m * 2 ^ shift) 1) (quotientShift (m * 2 ^ shift) 1) := by
  obtain ⟨amount, hamount⟩ : ∃ amount : Nat, ((shift : Int) - 1074 -
      max ((m.log2 : Int) + 1 + ((shift : Int) - 1074) - 53) (-1074)).toNat = amount := ⟨_, rfl⟩
  have hle : amount ≤ shift := by omega
  have hexponent : (shift : Int) - 1074 - (amount : Int) =
      ((shift - amount : Nat) : Int) - (0 : Nat) - 1074 := by omega
  have hvalue : m * 2 ^ shift * 2 ^ 0 = m * 2 ^ amount * (1 * 2 ^ (shift - amount)) := by
    rw [Nat.pow_zero, Nat.mul_one, Nat.one_mul, Nat.mul_assoc, ← Nat.pow_add,
      Nat.add_sub_cancel' hle]
  have hfull : shift - amount ≤ 0 ∨ 2 ^ 52 ≤ m * 2 ^ amount := by
    rcases Nat.eq_zero_or_pos (shift - amount) with hzero | hpos
    · exact .inl (Nat.le_of_eq hzero)
    · right
      have hlog : 52 ≤ (m * 2 ^ amount).log2 := by
        rw [log2_mul_two_pow positive]
        omega
      exact (Nat.le_log2 (Nat.ne_of_gt (Nat.mul_pos positive (Nat.two_pow_pos amount)))).mp hlog
  rw [Float.Model.UnpackedFloat.round, targetExponent_eq, totalExponent, decreaseExponent]
  simp only [hamount, hexponent, Nat.shiftLeft_eq]
  exact roundWithAccuracy_exact s Nat.one_pos hvalue hfull

/-- The units of the double nearest to a quotient of units, of those that there would be if their
shifts had no bound. -/
def nearestUnits (num den : Nat) : Nat := quotientRounded num den * 2 ^ quotientShift num den

theorem exists_carried (num : Nat) (pos : 0 < den) : ∃ m k, Normal m k ∧
    m * 2 ^ k = nearestUnits num den ∧
    ∀ s, carried s (quotientRounded num den) (quotientShift num den) = ofMagnitude s m k := by
  obtain ⟨hmost, hleast⟩ := quotientRounded_bounds num pos
  rw [nearestUnits]
  generalize quotientRounded num den = r at *
  generalize quotientShift num den = t at *
  rcases Nat.lt_or_eq_of_le hmost with hsmall | rfl
  · exact ⟨r, t, ⟨hsmall, hleast⟩, rfl, fun s => if_pos hsmall⟩
  · exact ⟨2 ^ 52, t + 1, ⟨by decide, fun _ => Nat.le_refl _⟩, by ring,
      fun s => if_neg (Nat.lt_irrefl _)⟩

theorem nearestUnits_closest (num : Nat) (pos : 0 < den) (h : Normal m k) :
    |((nearestUnits num den * den : Nat) : Int) - num| ≤ |((m * 2 ^ k * den : Nat) : Int) - num| :=
  abs_quotientRounded_sub_le num pos h

theorem nearestUnits_of_normal (pos : 0 < den) (h : Normal m k) :
    nearestUnits (m * 2 ^ k * den) den = m * 2 ^ k := by
  have hclosest := nearestUnits_closest (m * 2 ^ k * den) pos h
  rw [sub_self, abs_zero] at hclosest
  have hsame := sub_eq_zero.mp (abs_eq_zero.mp (Int.le_antisymm hclosest (abs_nonneg _)))
  exact Nat.eq_of_mul_eq_mul_right pos (Int.ofNat_inj.mp hsame)

theorem nearestUnits_mul_right {factor : Nat} (pos : 0 < factor) :
    nearestUnits (num * factor) (den * factor) = nearestUnits num den := by
  have hunit (t : Nat) : den * factor * 2 ^ t = den * 2 ^ t * factor := Nat.mul_right_comm _ _ _
  rw [nearestUnits, nearestUnits, quotientRounded, quotientRounded, quotientShift, quotientShift,
    Nat.mul_div_mul_right _ _ pos, hunit, Rounding.halfEven_mul_right pos]

theorem nearestUnits_mono (pos : 0 < den) (pos' : 0 < den') (h : num * den' ≤ num' * den) :
    nearestUnits num den ≤ nearestUnits num' den' := by
  rcases Nat.lt_or_eq_of_le h with hlt | heq
  · obtain ⟨m, k, normal, hunits, -⟩ := exists_carried num pos
    obtain ⟨m', k', normal', hunits', -⟩ := exists_carried num' pos'
    have hclosest := nearestUnits_closest num pos normal'
    have hclosest' := nearestUnits_closest num' pos' normal
    rw [hunits'] at hclosest
    rw [hunits] at hclosest'
    generalize nearestUnits num den = r at *
    generalize nearestUnits num' den' = r' at *
    by_contra hgt
    -- The middle between the two results is at most the first quotient and at least the second.
    have hbelow : r' * den < r * den := Nat.mul_lt_mul_of_pos_right (Nat.lt_of_not_le hgt) pos
    have hbelow' : r' * den' < r * den' := Nat.mul_lt_mul_of_pos_right (Nat.lt_of_not_le hgt) pos'
    rw [Int.abs_eq_natAbs, Int.abs_eq_natAbs] at hclosest hclosest'
    have hfirst : (r * den + r' * den) * den' ≤ 2 * num * den' :=
      Nat.mul_le_mul_right den' (by omega)
    have hsecond : 2 * num' * den ≤ (r * den' + r' * den') * den :=
      Nat.mul_le_mul_right den (by omega)
    have hmiddle : (r * den + r' * den) * den' = (r * den' + r' * den') * den := by ring
    rw [Nat.mul_assoc] at hfirst hsecond
    omega
  · have hscaled : nearestUnits (num * den') (den * den') = nearestUnits num den :=
      nearestUnits_mul_right pos'
    rw [heq, Nat.mul_comm den den', nearestUnits_mul_right pos] at hscaled
    exact Nat.le_of_eq hscaled.symm

theorem normal_one : Normal 1 0 := ⟨by decide, fun h => absurd h (Nat.lt_irrefl 0)⟩

theorem nearestUnits_eq_zero_iff (num : Nat) (pos : 0 < den) :
    nearestUnits num den = 0 ↔ 2 * num ≤ den := by
  constructor
  · intro hzero
    have hclosest := nearestUnits_closest num pos normal_one
    rw [hzero, Int.abs_eq_natAbs, Int.abs_eq_natAbs] at hclosest
    simp only [Nat.zero_mul, Nat.one_mul, Nat.pow_zero] at hclosest
    omega
  · intro hsmall
    have hquotient : num / den = 0 := Nat.div_eq_of_lt (by omega)
    have hshift : quotientShift num den = 0 := by rw [quotientShift, hquotient]; rfl
    have hrounded := (Rounding.halfEven_eq_zero_iff num pos).mpr hsmall
    rw [nearestUnits, quotientRounded, hshift, Nat.pow_zero, Nat.mul_one, Nat.mul_one,
      hrounded]

theorem nearestUnits_error (num : Nat) (pos : 0 < den) :
    2 ^ 53 * |((nearestUnits num den * den : Nat) : Int) - num| ≤
      max (num : Int) (2 ^ 52 * den : Nat) := by
  have hunit : 0 < den * 2 ^ quotientShift num den := Nat.mul_pos pos (Nat.two_pow_pos _)
  have hclose := Rounding.two_mul_abs_halfEven_sub_le num hunit
  have hlow := (quotient_bounds num pos).2
  have hplace : nearestUnits num den * den =
      quotientRounded num den * (den * 2 ^ quotientShift num den) := by
    rw [nearestUnits]
    ring
  rw [← quotientRounded, ← hplace] at hclose
  rcases Nat.eq_zero_or_pos (quotientShift num den) with hzero | hshift
  · rw [hzero, Nat.pow_zero, Nat.mul_one] at hclose
    omega
  · have := hlow hshift
    omega

theorem nearestUnits_error_of_whole (num : Nat) :
    2 ^ 53 * |(nearestUnits num 1 : Int) - num| ≤ num := by
  have herror := nearestUnits_error num Nat.one_pos
  rw [Nat.mul_one] at herror
  omega

end Binary64

end Calculator
