import Calculator.Proofs.Number.Operations

/-!
The two zeros. Operations on doubles tell a positive zero from a negative one only by dividing by
it: in every other place one may stand for the other, and the results are again the same number,
both zeros, or both NaN.
-/

set_option autoImplicit false
set_option relaxedAutoImplicit false

namespace Calculator.Binary64

open Float.Model.UnpackedFloat

variable {a b c x y : Float}

/-- The same double, or doubles that compare as equal. -/
def Same (x y : Float) : Prop := x = y ∨ (x == y) = true

instance : Decidable (Same x y) := inferInstanceAs (Decidable (_ ∨ _))

theorem same_iff : Same x y ↔ x = y ∨ IsZero x ∧ IsZero y := by
  rw [Same, beq_eq_true_iff]
  constructor
  · rintro (rfl | ⟨-, h⟩)
    · exact .inl rfl
    · exact h
  · rintro (rfl | ⟨⟨s, hx⟩, hy⟩)
    · exact .inl rfl
    · exact .inr ⟨by simp [hx], .inr ⟨⟨s, hx⟩, hy⟩⟩

theorem isZero_neg (h : IsZero x) : IsZero (-x) := by
  obtain ⟨s, hs⟩ := h
  exact ⟨-s, by rw [unpacked_neg, hs]; rfl⟩

theorem same_zero_mul (hx : IsZero x) (hy : IsZero y) : Same (x * c) (y * c) := by
  obtain ⟨s, hs⟩ := hx
  obtain ⟨t, ht⟩ := hy
  rw [same_iff, mul_eq, mul_eq, hs, ht]
  cases unpacked c with
  | notANumber | infinity => exact .inl rfl
  | zero | finite => exact .inr ⟨isZero_ofUnpacked _, isZero_ofUnpacked _⟩

theorem same_mul_zero (hx : IsZero x) (hy : IsZero y) : Same (c * x) (c * y) := by
  obtain ⟨s, hs⟩ := hx
  obtain ⟨t, ht⟩ := hy
  rw [same_iff, mul_eq, mul_eq, hs, ht]
  cases unpacked c with
  | notANumber | infinity => exact .inl rfl
  | zero | finite => exact .inr ⟨isZero_ofUnpacked _, isZero_ofUnpacked _⟩

theorem same_zero_div (hx : IsZero x) (hy : IsZero y) : Same (x / c) (y / c) := by
  obtain ⟨s, hs⟩ := hx
  obtain ⟨t, ht⟩ := hy
  have hdiv (z : Float) : z / c = ofUnpacked (div .binary64 (unpacked z) (unpacked c)) := rfl
  rw [same_iff, hdiv, hdiv, hs, ht]
  cases unpacked c with
  | notANumber | zero => exact .inl rfl
  | infinity | finite => exact .inr ⟨isZero_ofUnpacked _, isZero_ofUnpacked _⟩

theorem hypot_negative_zero (c : Float) : hypot (-0) c = hypot 0 c ∧ hypot c (-0) = hypot c 0 := by
  have hneg : ofFloat (-0) = .finite true 0 0 := by decide +kernel
  have hpos : ofFloat 0 = .finite false 0 0 := by decide +kernel
  simp only [hypot, hneg, hpos]
  cases ofFloat c <;> exact ⟨rfl, rfl⟩

theorem same_hypot (hx : IsZero x) (hy : IsZero y) :
    Same (hypot x c) (hypot y c) ∧ Same (hypot c x) (hypot c y) := by
  obtain ⟨first, second⟩ := hypot_negative_zero c
  obtain rfl | rfl := isZero_iff_eq.mp hx <;> obtain rfl | rfl := isZero_iff_eq.mp hy
  · exact ⟨.inl rfl, .inl rfl⟩
  · exact ⟨.inl first.symm, .inl second.symm⟩
  · exact ⟨.inl first, .inl second⟩
  · exact ⟨.inl rfl, .inl rfl⟩

namespace Same

theorem refl (x : Float) : Same x x := .inl rfl

theorem of_isZero (hx : IsZero x) (hy : IsZero y) : Same x y := same_iff.mpr (.inr ⟨hx, hy⟩)

theorem symm (h : Same x y) : Same y x := by
  obtain rfl | ⟨hx, hy⟩ := same_iff.mp h
  · exact refl x
  · exact of_isZero hy hx

theorem trans (h : Same a b) (h' : Same b c) : Same a c := by
  obtain rfl | ⟨ha, hb⟩ := same_iff.mp h
  · exact h'
  · obtain rfl | ⟨-, hc⟩ := same_iff.mp h'
    · exact h
    · exact of_isZero ha hc

/-- A function that cannot tell the zeros apart in its first operand, and one that cannot do so in
its second one. -/
theorem map₂ {op : Float → Float → Float}
    (first : ∀ {x y c}, IsZero x → IsZero y → Same (op x c) (op y c))
    (second : ∀ {x y c}, IsZero x → IsZero y → Same (op c x) (op c y))
    (h : Same a b) (h' : Same x y) : Same (op a x) (op b y) := by
  have hfirst : Same (op a x) (op b x) := by
    obtain rfl | ⟨ha, hb⟩ := same_iff.mp h
    · exact refl _
    · exact first ha hb
  refine hfirst.trans ?_
  obtain rfl | ⟨hx, hy⟩ := same_iff.mp h'
  · exact refl _
  · exact second hx hy

theorem zero_add (hx : IsZero x) : Same (x + c) c := same_iff.mpr (isZero_add hx)

theorem add_zero (hx : IsZero x) : Same (c + x) c := same_iff.mpr (add_isZero hx)

theorem add (h : Same a b) (h' : Same x y) : Same (a + x) (b + y) :=
  map₂ (fun hx hy => (zero_add hx).trans (zero_add hy).symm)
    (fun hx hy => (add_zero hx).trans (add_zero hy).symm) h h'

theorem neg (h : Same x y) : Same (-x) (-y) := by
  obtain rfl | ⟨hx, hy⟩ := same_iff.mp h
  · exact refl _
  · exact of_isZero (isZero_neg hx) (isZero_neg hy)

theorem sub (h : Same a b) (h' : Same x y) : Same (a - x) (b - y) := by
  rw [sub_eq_add_neg, sub_eq_add_neg]
  exact h.add h'.neg

theorem mul (h : Same a b) (h' : Same x y) : Same (a * x) (b * y) :=
  map₂ same_zero_mul same_mul_zero h h'

theorem beq_zero (h : Same x y) : (x == 0) = (y == 0) := by
  obtain rfl | ⟨hx, hy⟩ := same_iff.mp h
  · rfl
  · rw [isZero_iff.mp hx, isZero_iff.mp hy]

theorem div (h : Same a b) (h' : Same x y) (hx : (x == 0) = false) : Same (a / x) (b / y) := by
  obtain rfl | ⟨hzero, -⟩ := same_iff.mp h'
  · obtain rfl | ⟨ha, hb⟩ := same_iff.mp h
    · exact refl _
    · exact same_zero_div ha hb
  · rw [isZero_iff.mp hzero] at hx
    cases hx

theorem hypot (h : Same a b) (h' : Same x y) : Same (hypot a x) (hypot b y) :=
  map₂ (fun hx hy => (same_hypot hx hy).1) (fun hx hy => (same_hypot hx hy).2) h h'

end Same

end Calculator.Binary64
