import Calculator.Proofs.Complex.Printing
import Calculator.Proofs.Number.Reprinting

/-!
The text of a complex number read and written again. A part that is written is read as a number
with the same text. Whether a part is written is decided before it is rounded to three places, so
one that is not negligible but is rounded to zero is written the first time and left out the second.
Apart from such parts the text is stable, and the text of what is read always is.
-/

set_option autoImplicit false
set_option relaxedAutoImplicit false

namespace Calculator.Complex

open Binary64 (isNegative units unitsOfOne unitsOfOne_eq unitsOfOne_pos nearestUnits Normal IsZero)

variable {x v : Float} {z : Complex}

/-- The least double that is not rounded to zero at three places. -/
def leastShown : Float := 0.0005

theorem ofFloat_leastShown : Binary64.ofFloat leastShown = .finite false 4611686018427388 1011 := by
  decide +kernel

/-- Which multiples are more than half a unit, for a bound between two neighbouring multiples of a
power of two. -/
theorem two_mul_mul_le_iff {m k bound factor bits : Nat} (shift : Nat) (h : Normal m k)
    (full : 2 ^ 52 ≤ bound) (low : 2 * (bound * factor) ≤ 2 ^ bits)
    (high : 2 ^ bits < 2 * ((bound + 1) * factor)) :
    2 * (m * 2 ^ k * factor) ≤ 2 ^ (bits + shift) ↔ m * 2 ^ k ≤ bound * 2 ^ shift := by
  have hpos : 0 < 2 ^ shift := Nat.two_pow_pos shift
  have hscaled (n : Nat) : 2 * (n * 2 ^ shift * factor) = 2 * (n * factor) * 2 ^ shift := by ring
  rw [Nat.pow_add]
  constructor
  · intro hle
    by_contra hgt
    have hnext := (h.lt_iff_le full shift).mp (Nat.lt_of_not_le hgt)
    have hlarge := Nat.mul_le_mul_left 2 (Nat.mul_le_mul_right factor hnext)
    rw [hscaled] at hlarge
    have := Nat.mul_lt_mul_of_pos_right high hpos
    omega
  · intro hle
    calc 2 * (m * 2 ^ k * factor) ≤ 2 * (bound * 2 ^ shift * factor) :=
          Nat.mul_le_mul_left 2 (Nat.mul_le_mul_right factor hle)
      _ = 2 * (bound * factor) * 2 ^ shift := hscaled bound
      _ ≤ 2 ^ bits * 2 ^ shift := Nat.mul_le_mul_right _ low

theorem written_eq_zero_iff (hx : x.isFinite = true) :
    Number.written 3 x.abs = 0 ↔ ¬leastShown ≤ x.abs := by
  obtain ⟨m, k, magnitude, -, hunits⟩ := Binary64.exists_ofMagnitude hx
  have habs : units x.abs = (m * 2 ^ k : Nat) := by
    rw [Binary64.units_abs hx, hunits, Int.abs_eq_natAbs, Binary64.natAbs_apply]
  have hleast : units leastShown = (4611686018427388 * 2 ^ 1011 : Nat) := by
    rw [units, ofFloat_leastShown]
    rfl
  have hbias : 1074 = 63 + 1011 := rfl
  have hiff := two_mul_mul_le_iff 1011 magnitude.normal (by decide : 2 ^ 52 ≤ 4611686018427387)
    (by decide : 2 * (4611686018427387 * 10 ^ 3) ≤ 2 ^ 63) (by decide)
  have hnext := magnitude.normal.lt_iff_le (n := 4611686018427387) (by decide) 1011
  rw [Number.written, Rounding.halfEven_eq_zero_iff _ unitsOfOne_pos, habs, Int.natAbs_natCast,
    unitsOfOne_eq, hbias, hiff, Binary64.le_iff_units (by decide +kernel)
      (Binary64.abs_unsigned hx).1, habs, hleast, ← Nat.not_lt, hnext, Int.ofNat_le]

structure Rereads (x v : Float) : Prop where
  finite : v.isFinite = true
  unsigned : isNegative v = false
  text : Number.fixed 3 v = Number.fixed 3 x.abs
  units_eq : units v = nearestUnits (Number.written 3 x.abs * unitsOfOne) (10 ^ 3)

theorem rereads (hx : x.isFinite = true) : Rereads x (reread x) := by
  obtain ⟨hfinite, hsign⟩ := Binary64.abs_unsigned hx
  obtain ⟨v, hread, hv, hunsigned, hunits, htext⟩ :=
    Number.fixed_read? hfinite hsign (by decide : 3 ≤ 300)
  have hreread : reread x = v := by rw [reread, magnitudeText, hread, Option.getD_some]
  rw [hreread]
  exact ⟨hv, hunsigned, htext, hunits⟩

theorem Rereads.isZero (h : Rereads x v) (hx : x.isFinite = true) (hidden : ¬leastShown ≤ x.abs) :
    IsZero v := by
  have hnone := (written_eq_zero_iff hx).mpr hidden
  refine Binary64.isZero_iff_units.mpr ⟨h.finite, ?_⟩
  rw [h.units_eq, hnone, Nat.zero_mul, Binary64.nearestUnits_zero (by decide)]
  rfl

theorem Rereads.leastShown_le (h : Rereads x v) (hx : x.isFinite = true)
    (shown : leastShown ≤ x.abs) : leastShown ≤ v := by
  have hsome : 0 < Number.written 3 x.abs :=
    Nat.pos_of_ne_zero fun hnone => (written_eq_zero_iff hx).mp hnone shown
  have hleast : units leastShown ≤ (nearestUnits unitsOfOne (10 ^ 3) : Nat) := by decide +kernel
  have hmono : nearestUnits unitsOfOne (10 ^ 3) ≤
      nearestUnits (Number.written 3 x.abs * unitsOfOne) (10 ^ 3) :=
    Binary64.nearestUnits_mono (by decide) (by decide)
      (Nat.mul_le_mul_right _ (Nat.le_mul_of_pos_left _ hsome))
  rw [Binary64.le_iff_units (by decide +kernel) h.finite, h.units_eq]
  omega

structure Shown (x v : Float) : Prop where
  finite : v.isFinite = true
  sign : isNegative v = isNegative x
  text : Number.fixed 3 v.abs = Number.fixed 3 x.abs
  shown : leastShown ≤ v.abs

theorem signedReread_eq (hx : x.isFinite = true) :
    signedReread x = if isNegative x then -reread x else reread x := by
  have hfinite := (rereads hx).finite
  rw [signedReread, leadingSign]
  split
  · exact Binary64.neg_one_mul_of_isFinite hfinite
  · exact Binary64.one_mul_of_isFinite hfinite

theorem signedReread_spec (hx : x.isFinite = true) : (signedReread x).isFinite = true ∧
    isNegative (signedReread x) = isNegative x ∧ (signedReread x).abs = reread x := by
  have h := rereads hx
  rw [signedReread_eq hx]
  cases hsign : isNegative x with
  | true =>
    rw [if_pos rfl]
    have hnegative : isNegative (-reread x) = true := by
      rw [Binary64.isNegative_neg h.finite, h.unsigned]
      rfl
    have hfinite := Binary64.isFinite_neg h.finite
    refine ⟨hfinite, hnegative, ?_⟩
    rw [Binary64.abs_eq_of_isFinite hfinite, hnegative, if_pos rfl,
      Binary64.neg_neg_of_isFinite h.finite]
  | false =>
    rw [if_neg Bool.false_ne_true]
    refine ⟨h.finite, h.unsigned, ?_⟩
    rw [Binary64.abs_eq_of_isFinite h.finite, h.unsigned, if_neg Bool.false_ne_true]

theorem shown_signedReread (hx : x.isFinite = true) (shown : leastShown ≤ x.abs) :
    Shown x (signedReread x) := by
  have h := rereads hx
  obtain ⟨hfinite, hsign, habs⟩ := signedReread_spec hx
  refine ⟨hfinite, hsign, ?_, ?_⟩
  · rw [habs, h.text]
  · rw [habs]
    exact h.leastShown_le hx shown

theorem isZero_signedReread (hx : x.isFinite = true) (hidden : ¬leastShown ≤ x.abs) :
    IsZero (signedReread x) := by
  obtain ⟨s, hs⟩ := (rereads hx).isZero hx hidden
  rw [signedReread_eq hx]
  split
  · rw [Binary64.neg_eq, hs]
    exact Binary64.isZero_ofUnpacked (-s)
  · exact ⟨s, hs⟩

theorem fixed_signedReread (hx : x.isFinite = true) :
    Number.fixed 3 (signedReread x) = Number.fixed 3 x := by
  obtain ⟨hfinite, hsign, habs⟩ := signedReread_spec hx
  apply String.toList_inj.mp
  rw [toList_fixed hfinite, toList_fixed hx, signText, signText, hsign, magnitudeText,
    magnitudeText, habs, (rereads hx).text]

theorem Shown.fixed_eq (h : Shown x v) (hx : x.isFinite = true) :
    Number.fixed 3 v = Number.fixed 3 x := by
  apply String.toList_inj.mp
  rw [toList_fixed h.finite, toList_fixed hx, signText, signText, h.sign, magnitudeText,
    magnitudeText, h.text]

theorem not_negligible (hx : x.isFinite = true) (shown : leastShown ≤ x.abs) :
    ¬x.abs < negligible := by
  have hfinite := (Binary64.abs_unsigned hx).1
  have hsmall : units negligible ≤ units leastShown := by decide +kernel
  rw [Binary64.le_iff_units (by decide +kernel) hfinite] at shown
  rw [Binary64.lt_iff_units hfinite (by decide +kernel)]
  omega

theorem negligible_of_isZero (hx : IsZero x) : x.abs < negligible := by
  by_contra hkept
  exact not_isZero hkept hx

theorem render_real (h : IsZero z.im) : z.render = Number.fixed 3 z.re := by
  rw [render, if_pos (negligible_of_isZero h)]

theorem render_imaginary (hre : IsZero z.re) {y : Float} (him : Shown y z.im)
    (hy : y.isFinite = true) (kept : ¬y.abs < negligible) : z.render =
      (if y < 0 then "-" else "") ++ Number.fixed 3 y.abs ++ "i" := by
  have hkept := not_negligible him.finite him.shown
  have hsign : z.im < 0 ↔ y < 0 := by
    rw [lt_zero_iff him.finite hkept, lt_zero_iff hy kept, him.sign]
  rw [render, if_neg hkept, if_pos (negligible_of_isZero hre), him.text]
  simp only [hsign]

theorem render_both {x y : Float} (hre : Shown x z.re) (him : Shown y z.im)
    (hx : x.isFinite = true) (hy : y.isFinite = true) (kept : ¬y.abs < negligible) : z.render =
      Number.fixed 3 x ++ (if y < 0 then " - " else " + ") ++ Number.fixed 3 y.abs ++ "i" := by
  have hkept := not_negligible him.finite him.shown
  have hsign : z.im < 0 ↔ y < 0 := by
    rw [lt_zero_iff him.finite hkept, lt_zero_iff hy kept, him.sign]
  rw [render, if_neg hkept, if_neg (not_negligible hre.finite hre.shown), him.text,
    hre.fixed_eq hx]
  simp only [hsign]

theorem mem_fixed {c : Char} (hx : x.isFinite = true) (h : c ∈ (Number.fixed 3 x).toList) :
    c = '-' ∨ Pattern.isNumeral c = true := by
  rw [toList_fixed hx, List.mem_append] at h
  rcases h with hsign | hmagnitude
  · left
    rw [signText] at hsign
    split at hsign
    · exact List.mem_singleton.mp hsign
    · cases hsign
  · exact .inr ((numeral_magnitudeText hx).numerals c hmagnitude)

theorem parse_render_readBack (hre : z.re.isFinite = true) (him : z.im.isFinite = true) :
    parse z.render = .ok (readBack z) := by
  obtain ⟨e, derived, value⟩ := evaluates_render hre him
  exact parse_of_derives derived value

def Kept (x v : Float) : Prop := v = signedReread x ∨ IsZero v ∧ IsZero (signedReread x)

theorem Kept.shown (h : Kept x v) (hx : x.isFinite = true) (shown : leastShown ≤ x.abs) :
    Shown x v := by
  have hshown := shown_signedReread hx shown
  rcases h with rfl | ⟨-, hzero⟩
  · exact hshown
  · exact absurd hzero (not_isZero (not_negligible hshown.finite hshown.shown))

theorem Kept.isZero (h : Kept x v) (hx : x.isFinite = true) (hidden : ¬leastShown ≤ x.abs) :
    IsZero v := by
  rcases h with rfl | ⟨hzero, -⟩
  · exact isZero_signedReread hx hidden
  · exact hzero

theorem kept_readBack (him : z.im.isFinite = true)
    (right : ¬z.im.abs < negligible) (left : ¬z.re.abs < negligible) :
    Kept z.re (readBack z).re ∧ Kept z.im (readBack z).im := by
  have hneg : IsZero (-0) := ⟨.negative, rfl⟩
  have hpart := signedReread_eq him
  rw [readBack, if_neg right, if_neg left]
  cases hsign : isNegative z.im with
  | true =>
    rw [hsign, if_pos rfl] at hpart
    rw [if_pos rfl]
    constructor
    · show Kept z.re (signedReread z.re - 0)
      rw [Binary64.sub_eq_add_neg]
      exact Binary64.add_isZero hneg
    · show Kept z.im (0 - 1 * reread z.im)
      rw [Kept, Binary64.sub_eq_add_neg, Binary64.one_mul_of_isFinite (rereads him).finite, hpart]
      exact Binary64.isZero_add Binary64.isZero_zero
  | false =>
    rw [hsign, if_neg Bool.false_ne_true] at hpart
    rw [if_neg Bool.false_ne_true]
    constructor
    · exact Binary64.add_isZero Binary64.isZero_zero
    · show Kept z.im (0 + 1 * reread z.im)
      rw [Kept, Binary64.one_mul_of_isFinite (rereads him).finite, hpart]
      exact Binary64.isZero_add Binary64.isZero_zero

/-- Whether a number has a stable text: no part is written that is rounded to zero. -/
def Stable (z : Complex) : Prop :=
  z.im.abs < negligible ∨ leastShown ≤ z.im.abs ∧ (z.re.abs < negligible ∨ leastShown ≤ z.re.abs)

theorem isZero_real_im (x : Float) : IsZero (real x).im := Binary64.isZero_zero

theorem isZero_imaginary_re (x : Float) : IsZero (imaginary x).re := Binary64.isZero_zero

theorem render_readBack_of_stable (hre : z.re.isFinite = true) (him : z.im.isFinite = true)
    (h : Stable z) : (readBack z).render = z.render := by
  rcases h with right | ⟨shown, hre'⟩
  · rw [readBack, if_pos right, render_real (isZero_real_im _), render, if_pos right]
    exact fixed_signedReread hre
  · have right := not_negligible him shown
    by_cases left : z.re.abs < negligible
    · have hshown : Shown z.im (imaginary (signedReread z.im)).im := shown_signedReread him shown
      rw [readBack, if_neg right, if_pos left,
        render_imaginary (isZero_imaginary_re _) hshown him right, render, if_neg right,
        if_pos left]
    · obtain ⟨keptRe, keptIm⟩ := kept_readBack him right left
      rw [render_both (keptRe.shown hre (hre'.resolve_left left)) (keptIm.shown him shown) hre him
        right, render, if_neg right, if_neg left]

theorem render_readBack_ne (hre : z.re.isFinite = true) (him : z.im.isFinite = true)
    (h : ¬Stable z) : (readBack z).render ≠ z.render := by
  have right : ¬z.im.abs < negligible := fun right => h (.inl right)
  intro hsame
  have finite : (readBack z).re.isFinite = true := (near_readBack hre him).1.1
  by_cases shown : leastShown ≤ z.im.abs
  · have left : ¬z.re.abs < negligible := fun left => h (.inr ⟨shown, .inl left⟩)
    have hidden : ¬leastShown ≤ z.re.abs := fun hre' => h (.inr ⟨shown, .inr hre'⟩)
    obtain ⟨keptRe, keptIm⟩ := kept_readBack him right left
    have hblank : ' ' ∈ (readBack z).render.toList := by
      have hbetween : ' ' ∈ (if z.im < 0 then " - " else " + ").toList := by
        split <;> decide
      rw [hsame, render, if_neg right, if_neg left]
      simp only [String.toList_append, List.mem_append]
      exact .inl (.inl (.inr hbetween))
    rw [render_imaginary (keptRe.isZero hre hidden) (keptIm.shown him shown) him right] at hblank
    simp only [String.toList_append, List.mem_append] at hblank
    obtain (hsign | hmagnitude) | hunit := hblank
    · split at hsign
      · cases List.mem_singleton.mp hsign
      · cases hsign
    · rcases mem_fixed (Binary64.abs_unsigned him).1 hmagnitude with hminus | hnumeral
      · cases hminus
      · cases hnumeral
    · cases List.mem_singleton.mp hunit
  · have hzero : IsZero (readBack z).im := by
      by_cases left : z.re.abs < negligible
      · rw [readBack, if_neg right, if_pos left]
        exact isZero_signedReread him shown
      · exact (kept_readBack him right left).2.isZero him shown
    have hunit : 'i' ∈ (readBack z).render.toList := by
      rw [hsame, render, if_neg right]
      split
      · simp only [String.toList_append, List.mem_append]
        exact .inr (List.mem_singleton.mpr rfl)
      · simp only [String.toList_append, List.mem_append]
        exact .inr (List.mem_singleton.mpr rfl)
    rw [render_real hzero] at hunit
    rcases mem_fixed finite hunit with hminus | hnumeral
    · cases hminus
    · cases hnumeral

/-- What is read back is shown or left out in both parts, so its own text is stable. -/
theorem stable_readBack (hre : z.re.isFinite = true) (him : z.im.isFinite = true) :
    Stable (readBack z) := by
  have hsigned {x : Float} (hx : x.isFinite = true) :
      (signedReread x).abs < negligible ∨ leastShown ≤ (signedReread x).abs := by
    by_cases shown : leastShown ≤ x.abs
    · exact .inr (shown_signedReread hx shown).shown
    · exact .inl (negligible_of_isZero (isZero_signedReread hx shown))
  have hkept {x v : Float} (hx : x.isFinite = true) (h : Kept x v) :
      v.abs < negligible ∨ leastShown ≤ v.abs := by
    by_cases shown : leastShown ≤ x.abs
    · exact .inr (h.shown hx shown).shown
    · exact .inl (negligible_of_isZero (h.isZero hx shown))
  have hboth {w : Complex} (hre : w.re.abs < negligible ∨ leastShown ≤ w.re.abs)
      (him : w.im.abs < negligible ∨ leastShown ≤ w.im.abs) : Stable w :=
    him.imp_right fun shown => ⟨shown, hre⟩
  by_cases right : z.im.abs < negligible
  · rw [readBack, if_pos right]
    exact .inl (negligible_of_isZero (isZero_real_im _))
  · by_cases left : z.re.abs < negligible
    · rw [readBack, if_neg right, if_pos left]
      exact hboth (.inl (negligible_of_isZero (isZero_imaginary_re _))) (hsigned him)
    · obtain ⟨keptRe, keptIm⟩ := kept_readBack him right left
      exact hboth (hkept hre keptRe) (hkept him keptIm)

/-- The text of a number with finite parts is read as a number with the same text unless a part is
written that is rounded to zero. The text of the number that is read is read with the same text in
any case. -/
theorem reprint_iff (z : Complex) (hre : z.re.isFinite = true) (him : z.im.isFinite = true) :
    ∃ w, parse z.render = .ok w ∧
      (w.render = z.render ↔ z.im.abs < negligible ∨
        leastShown ≤ z.im.abs ∧ (z.re.abs < negligible ∨ leastShown ≤ z.re.abs)) ∧
      ∃ w', parse w.render = .ok w' ∧ w'.render = w.render := by
  have hstable := stable_readBack hre him
  obtain ⟨nearRe, nearIm⟩ := near_readBack hre him
  refine ⟨readBack z, parse_render_readBack hre him, ?_, readBack (readBack z),
    parse_render_readBack nearRe.1 nearIm.1, render_readBack_of_stable nearRe.1 nearIm.1 hstable⟩
  constructor
  · intro hsame
    by_contra hnot
    exact render_readBack_ne hre him hnot hsame
  · intro h
    exact render_readBack_of_stable hre him h

theorem reprint_of_both_parts : ∃ w, parse (Complex.mk (-1.5) 2.0625).render = .ok w ∧
    w.render = (Complex.mk (-1.5) 2.0625).render := by
  obtain ⟨w, hparse, hiff, -⟩ :=
    reprint_iff ⟨-1.5, 2.0625⟩ (by decide +kernel) (by decide +kernel)
  exact ⟨w, hparse, hiff.mpr (.inr (by decide +kernel))⟩

/-- An imaginary part that is rounded to zero is written the first time only. -/
theorem reprint_changes : ¬∀ z w : Complex, z.re.isFinite = true → z.im.isFinite = true →
    parse z.render = .ok w → w.render = z.render := by
  intro hall
  have hparse : parse (Complex.mk 0 0.0004).render = .ok (readBack ⟨0, 0.0004⟩) :=
    parse_render_readBack (by decide +kernel) (by decide +kernel)
  have hsame := hall ⟨0, 0.0004⟩ (readBack ⟨0, 0.0004⟩) (by decide +kernel) (by decide +kernel)
    hparse
  have hdifferent : (readBack ⟨0, 0.0004⟩).render ≠ (Complex.mk 0 0.0004).render := by
    decide +kernel
  exact hdifferent hsame

end Calculator.Complex
