import Calculator.Proofs.Graph.Sampling

/-!
Points that are missing. The width of a range, its spacing and its places may be too large for a
double although both bounds are not. The places only grow, so the points of a function without poles
are those at the first places, and none is missing exactly if the last place is finite. That is so
unless the width or the upper bound comes close to the largest double; of a range whose width is
too large, no place is left.
-/

set_option autoImplicit false
set_option relaxedAutoImplicit false

namespace Calculator

open Binary64 (units unitsBound unitsOfOne_pos isNearest_add isNearest_sub isNearest_mul)

variable {range : Range} {count i j : Nat} {f : RealFunction Float}

theorem filter_range_of_downward {p : Nat → Bool} (h : ∀ i j, i ≤ j → p j = true → p i = true)
    (n : Nat) : (List.range n).filter p = List.range ((List.range n).filter p).length := by
  induction n with
  | zero => rfl
  | succ n ih =>
    rw [List.range_succ, List.filter_append]
    cases hlast : p n with
    | true =>
      have hall : (List.range n).filter p = List.range n :=
        List.filter_eq_self.mpr fun i hi => h i n (Nat.le_of_lt (List.mem_range.mp hi)) hlast
      rw [hall, List.filter_cons_of_pos hlast, List.filter_nil, List.length_append,
        List.length_range, List.length_singleton, List.range_succ]
    | false =>
      rw [List.filter_cons_of_neg (by simp [hlast]), List.filter_nil, List.append_nil]
      exact ih

namespace Binary64

theorem two_pow_le_unitsBound : 2 ^ 200 ≤ unitsBound := by
  have hshift : 200 ≤ largestShift := by decide
  rw [unitsBound]
  generalize largestShift = top at hshift ⊢
  calc 2 ^ 200 ≤ 2 ^ top := Nat.pow_le_pow_right (by decide) hshift
    _ ≤ 2 ^ 53 * 2 ^ top := Nat.le_mul_of_pos_left _ (by decide)

end Binary64

namespace Range

theorem spacing_of_le_one (h : count ≤ 1) : range.spacing count = 0 := if_neg (by omega)

theorem isFinite_width (hmany : 2 ≤ count) (h : (range.spacing count).isFinite = true) :
    (range.max - range.min).isFinite = true := by
  rw [spacing, if_pos (by omega)] at h
  exact Binary64.isFinite_of_div h

theorem units_spacing_nonneg (usable : range.usable = true)
    (h : (range.spacing count).isFinite = true) : 0 ≤ units (range.spacing count) := by
  rcases Nat.lt_or_ge 1 count with hmany | hfew
  · exact (Samples.mk usable (isFinite_width hmany h) hmany).spacing_units.2
  · rw [spacing_of_le_one hfew]
    decide +kernel

/-- What is added to the lower bound is finite and smaller before a place where it is finite. -/
theorem units_product_of_le (usable : range.usable = true) (hij : i ≤ j)
    (hj : (range.spacing count * Float.ofNat j).isFinite = true) :
    (range.spacing count * Float.ofNat i).isFinite = true ∧
      0 ≤ units (range.spacing count * Float.ofNat i) ∧
      units (range.spacing count * Float.ofNat i) ≤
        units (range.spacing count * Float.ofNat j) := by
  obtain ⟨hspacing, hindex⟩ := Binary64.isFinite_of_mul hj
  obtain ⟨hnonneg, hle⟩ := Binary64.units_ofNat_le hij hindex
  have hstep := units_spacing_nonneg usable hspacing
  have hlow : 0 ≤ units (range.spacing count) * units (Float.ofNat i) :=
    Int.mul_nonneg hstep hnonneg
  have hhigh : units (range.spacing count) * units (Float.ofNat i) ≤
      units (range.spacing count) * units (Float.ofNat j) :=
    Int.mul_le_mul_of_nonneg_left hle hstep
  have hnearest := isNearest_mul hspacing hindex
  have hnearest' := isNearest_mul hspacing (Binary64.isFinite_ofNat_of_le hij hindex)
  have hi := hnearest.isFinite_of_le unitsOfOne_pos hnearest' (by omega) hj
  rw [hnearest'.units_eq unitsOfOne_pos hi, hnearest.units_eq unitsOfOne_pos hj]
  exact ⟨hi, Binary64.nearestInt_nonneg unitsOfOne_pos hlow,
    Binary64.nearestInt_mono unitsOfOne_pos hhigh⟩

theorem isFinite_place_of_le (usable : range.usable = true) (hij : i ≤ j)
    (hj : (range.place count j).isFinite = true) : (range.place count i).isFinite = true := by
  obtain ⟨hmin, hproduct⟩ := Binary64.isFinite_of_add hj
  obtain ⟨hproduct', hnonneg, hle⟩ := units_product_of_le usable hij hproduct
  -- The sum lies between the lower bound and the later place, and both of them are finite.
  have hsum := isNearest_add hmin hproduct
  have hsum' := isNearest_add hmin hproduct'
  rcases Int.le_total 0 (units range.min + units (range.spacing count * Float.ofNat i)) with
    hpositive | hnegative
  · exact hsum.isFinite_of_le Nat.one_pos hsum' (by omega) hj
  · exact (Binary64.isNearest_self hmin).isFinite_of_le Nat.one_pos hsum' (by omega) hmin

theorem isFinite_place_of_le_one (usable : range.usable = true) (h : count ≤ 1) :
    (range.place count (count - 1)).isFinite = true := by
  have hmin := (bounds_of_usable usable).1
  have hindex : count - 1 = 0 := by omega
  have hplace : (range.place count 0 == range.min) = true := by
    rw [place, spacing_of_le_one h]
    exact Binary64.add_beq_of_isZero (Binary64.beq_self_of_isFinite hmin)
      (Binary64.isZero_iff.mpr (by decide +kernel))
  rw [hindex]
  exact Binary64.isFinite_of_beq hmin hplace

theorem not_isFinite_place (hmany : 2 ≤ count) (h : (range.max - range.min).isFinite = false) :
    (range.place count i).isFinite = false := by
  by_contra hplace
  rw [Bool.not_eq_false] at hplace
  have hspacing := (Binary64.isFinite_of_mul (Binary64.isFinite_of_add hplace).2).1
  rw [isFinite_width hmany hspacing] at h
  cases h

/-- A range whose width and upper bound stay below the doubles by a part in `2 ^ 49`. -/
structure Roomy (range : Range) : Prop where
  width : 2 ^ 49 * (units range.max - units range.min) ≤ (2 ^ 49 - 1) * unitsBound
  max : 2 ^ 49 * units range.max ≤ (2 ^ 49 - 1) * unitsBound

theorem Roomy.samples (h : range.Roomy) (usable : range.usable = true) (hmany : 2 ≤ count) :
    range.Samples count := by
  obtain ⟨hmin, hmax, hlt⟩ := bounds_of_usable usable
  have hwidth := h.width
  have herror := Binary64.nearestInt_error (units range.max - units range.min)
  have hlarge := Binary64.two_pow_le_unitsBound
  refine ⟨usable, ((isNearest_sub hmax hmin).isFinite_iff Nat.one_pos).mpr ?_, hmany⟩
  rw [← Binary64.natAbs_nearestInt Nat.one_pos]
  simp only [Int.abs_eq_natAbs] at herror
  omega

/-- A range with room to spare has a last place, of up to `2 ^ 64` places. -/
theorem Roomy.isFinite_last (h : range.Roomy) (usable : range.usable = true)
    (hmany : 2 ≤ count) (hcount : count ≤ 2 ^ 64) :
    (range.place count (count - 1)).isFinite = true := by
  have hsamples := h.samples usable hmany
  obtain ⟨hmin, hmax, hlt⟩ := bounds_of_usable usable
  have hindex : (Float.ofNat (count - 1)).isFinite = true :=
    Binary64.isFinite_ofNat_of_le (show count - 1 ≤ 2 ^ 64 by omega) (by decide +kernel)
  have hlarge := Binary64.two_pow_le_unitsBound
  have hspare := h.max
  have hbelow := Binary64.natAbs_units_lt hmin
  have habove := Binary64.natAbs_units_lt hmax
  obtain ⟨hwidth, herror⟩ := hsamples.width_units
  have hexact := h.width
  have harea := hsamples.last_product hindex
  have hsum := hsamples.last_sum hindex
  have hnearest := isNearest_mul hsamples.spacing_units.1 hindex
  have hproduct : (range.spacing count * Float.ofNat (count - 1)).isFinite = true := by
    rw [hnearest.isFinite_iff unitsOfOne_pos, ← Binary64.natAbs_nearestInt unitsOfOne_pos]
    simp only [Int.abs_eq_natAbs] at herror harea
    omega
  -- The last place is not below the lower bound, and not much above the upper one.
  obtain ⟨-, hnonneg, -⟩ := units_product_of_le usable (Nat.le_refl _) hproduct
  have hlow := Binary64.nearestInt_mono Nat.one_pos
    (Int.le_add_of_nonneg_right (a := units range.min) hnonneg)
  rw [Binary64.nearestInt_units hmin] at hlow
  rw [← hnearest.units_eq unitsOfOne_pos hproduct] at hsum
  rw [place, (isNearest_add hmin hproduct).isFinite_iff Nat.one_pos,
    ← Binary64.natAbs_nearestInt Nat.one_pos]
  simp only [Int.abs_eq_natAbs] at hsum
  omega

end Range

namespace RealFunction

section

variable (hf : f.FiniteValued)

include hf

theorem FiniteValued.sample_eq_map : f.sample range count =
    ((List.range count).filter fun index => (range.place count index).isFinite).map
      fun index => f.pointAt (range.place count index) := by
  rw [sample, List.filter_map]
  congr 2
  funext index
  exact hf.pointAt_isFinite _

variable (usable : range.usable = true)

include usable

theorem FiniteValued.sample_eq_map_range : f.sample range count =
    (List.range (f.sample range count).length).map
      fun index => f.pointAt (range.place count index) := by
  have hfront := filter_range_of_downward (p := fun index => (range.place count index).isFinite)
    (fun i j hij hj => Range.isFinite_place_of_le usable hij hj) count
  rw [hf.sample_eq_map, List.length_map, ← hfront]

theorem FiniteValued.length_sample_eq_iff : (f.sample range count).length = count ↔
    (range.place count (count - 1)).isFinite = true := by
  have hlength : (f.sample range count).length = count ↔
      ∀ index < count, (range.place count index).isFinite = true := by
    have hall := List.length_filter_eq_length_iff (l := List.range count)
      (p := fun index => (range.place count index).isFinite)
    simpa only [List.length_range, List.mem_range, hf.sample_eq_map, List.length_map] using hall
  rw [hlength]
  constructor
  · intro hall
    rcases Nat.eq_zero_or_pos count with rfl | hpos
    · exact Range.isFinite_place_of_le_one usable (by decide)
    · exact hall _ (Nat.sub_one_lt_of_lt hpos)
  · intro hlast index hindex
    exact Range.isFinite_place_of_le usable (Nat.le_sub_one_of_lt hindex) hlast

/-- The points of a function without poles are those at the first places, all of them exactly if the
last place is finite. No more than one place is always so, and so are the places of a range with
room to spare; more than one of a range whose width is too large are never. -/
theorem FiniteValued.sample_complete :
    ((f.sample range count).length = count ↔
        (range.place count (count - 1)).isFinite = true) ∧
      f.sample range count = (List.range (f.sample range count).length).map
        (fun index => f.pointAt (range.place count index)) ∧
      (count ≤ 1 → (f.sample range count).length = count) ∧
      (2 ≤ count → (range.max - range.min).isFinite = false → f.sample range count = []) ∧
      (count ≤ 2 ^ 64 → range.Roomy → (f.sample range count).length = count) := by
  refine ⟨hf.length_sample_eq_iff usable, hf.sample_eq_map_range usable, fun hfew => ?_,
    fun hmany hwidth => ?_, fun hcount hroomy => ?_⟩
  · exact (hf.length_sample_eq_iff usable).mpr (Range.isFinite_place_of_le_one usable hfew)
  · rw [hf.sample_eq_map, List.map_eq_nil_iff, List.filter_eq_nil_iff]
    intro index _
    rw [Bool.not_eq_true, Range.not_isFinite_place hmany hwidth]
  · rw [hf.length_sample_eq_iff usable]
    rcases Nat.lt_or_ge 1 count with hmany | hfew
    · exact hroomy.isFinite_last usable hmany hcount
    · exact Range.isFinite_place_of_le_one usable hfew

end

theorem length_sample_standard :
    ((constant (1 : Float)).sample Viewport.standard.x 5).length = 5 ∧
      (constant (1 : Float)).sample ⟨-1.7e308, 1.7e308⟩ 5 = [] := by
  have hvalued : (constant (1 : Float)).FiniteValued := finiteValued_constant (by decide +kernel)
  have hstandard : Viewport.standard.x.usable = true := by decide +kernel
  have hroomy : Viewport.standard.x.Roomy := ⟨by decide +kernel, by decide +kernel⟩
  have hwide : Range.usable ⟨-1.7e308, 1.7e308⟩ = true := by decide +kernel
  obtain ⟨-, -, -, -, hall⟩ := hvalued.sample_complete hstandard
  obtain ⟨-, -, -, hnone, -⟩ := hvalued.sample_complete hwide
  exact ⟨hall (by decide) hroomy, hnone (by decide) (by decide +kernel)⟩

/-- Bounds near the largest doubles, too far apart for any place between them. -/
theorem sample_leaves_none : ¬∀ (range : Range) (count : Nat) (c : Float),
    range.usable = true → c.isFinite = true →
      ((constant c).sample range count).length = count := by
  intro hall
  have hlength := hall ⟨-1.7e308, 1.7e308⟩ 2 1 (by decide +kernel) (by decide +kernel)
  have hnone : ((constant (1 : Float)).sample ⟨-1.7e308, 1.7e308⟩ 2).length = 0 := by
    decide +kernel
  rw [hnone] at hlength
  cases hlength

end RealFunction

end Calculator
