import Calculator.Graph.Sample
import Calculator.Proofs.Number.Operations

/-!
Sampled places. A place is the lower bound and some spacings, each operation rounded; rounding keeps
the order, so the places never go back and none is below the lower bound. The last one is the upper
bound but for these roundings, and may miss it on either side.
-/

set_option autoImplicit false
set_option relaxedAutoImplicit false

namespace Calculator

open Binary64 (units unitsOfOne unitsOfOne_pos nearestUnits nearestInt IsZero)

variable {range : Range} {count i j : Nat} {f : RealFunction Float}

namespace Binary64

variable {x y : Float}

theorem normal_unitsOfOne : ∃ k, Normal (2 ^ 52) k ∧ unitsOfOne = 2 ^ 52 * 2 ^ k := by
  obtain ⟨k, hk⟩ : ∃ k, 52 + k = 1074 := ⟨1022, rfl⟩
  refine ⟨k, ⟨by decide, fun _ => Nat.le_refl _⟩, ?_⟩
  rw [unitsOfOne_eq, ← hk, Nat.pow_add]

theorem units_ofNat {n : Nat} (h : (Float.ofNat n).isFinite = true) :
    units (Float.ofNat n) = nearestUnits (n * unitsOfOne) 1 := by
  rw [(isNearest_ofNat n).units_eq Nat.one_pos h, nearestInt_natCast Nat.one_pos]

theorem isFinite_ofNat_of_le (h : i ≤ j) (hj : (Float.ofNat j).isFinite = true) :
    (Float.ofNat i).isFinite = true :=
  (isNearest_ofNat j).isFinite_of_le Nat.one_pos (isNearest_ofNat i)
    (by simpa only [Int.natAbs_natCast] using Nat.mul_le_mul_right _ h) hj

theorem units_ofNat_le (h : i ≤ j) (hj : (Float.ofNat j).isFinite = true) :
    0 ≤ units (Float.ofNat i) ∧ units (Float.ofNat i) ≤ units (Float.ofNat j) := by
  rw [units_ofNat (isFinite_ofNat_of_le h hj), units_ofNat hj]
  exact ⟨Int.natCast_nonneg _, Int.ofNat_le.mpr (nearestUnits_mono Nat.one_pos Nat.one_pos
    (Nat.mul_le_mul_right 1 (Nat.mul_le_mul_right unitsOfOne h)))⟩

theorem unitsOfOne_le_units_ofNat {n : Nat} (hn : 0 < n) (h : (Float.ofNat n).isFinite = true) :
    (unitsOfOne : Int) ≤ units (Float.ofNat n) := by
  obtain ⟨k, normal, hone⟩ := normal_unitsOfOne
  have hself := nearestUnits_of_normal Nat.one_pos normal
  rw [← hone, Nat.mul_one] at hself
  rw [units_ofNat h]
  refine Int.ofNat_le.mpr ?_
  calc unitsOfOne = nearestUnits unitsOfOne 1 := hself.symm
    _ ≤ nearestUnits (n * unitsOfOne) 1 := nearestUnits_mono Nat.one_pos Nat.one_pos
      (Nat.mul_le_mul_right 1 (Nat.le_mul_of_pos_left _ hn))

theorem isNearest_div_of_nonneg {w d : Nat} (hx : x.isFinite = true) (hy : y.isFinite = true)
    (hw : units x = w) (hd : units y = d) (pos : 0 < d) :
    IsNearest (x / y) (w * unitsOfOne : Nat) d := by
  have hnearest := isNearest_div hx hy (by omega)
  rwa [hw, hd, Int.sign_eq_one_of_pos (Int.natCast_pos.mpr pos), mul_one, Int.natAbs_natCast,
    ← Nat.cast_mul] at hnearest

theorem isZero_div_of_infinite {s : Float.Model.UnpackedFloat.Sign} (hx : x.isFinite = true)
    (hy : unpacked y = .infinity s) : IsZero (x / y) := by
  have hdiv : x / y = ofUnpacked (Float.Model.UnpackedFloat.div .binary64 (unpacked x)
      (unpacked y)) := rfl
  rw [isFinite_eq] at hx
  rw [hdiv, hy]
  cases hu : unpacked x with
  | notANumber | infinity => rw [hu] at hx; cases hx
  | zero | finite => exact isZero_ofUnpacked _

/-- A quotient by a whole number that is multiplied by it again, each of the three rounded: the
number itself, the quotient and the product. -/
theorem abs_product_sub_le {width number step product one n : Nat}
    (hnumber : 2 ^ 53 * |(number : Int) - (n * one : Nat)| ≤ (n * one : Nat))
    (hquotient : 2 ^ 53 * |((step * number : Nat) : Int) - (width * one : Nat)| ≤
      max ((width * one : Nat) : Int) (2 ^ 52 * number : Nat))
    (hproduct : 2 ^ 53 * |((product * one : Nat) : Int) - (step * number : Nat)| ≤
      max ((step * number : Nat) : Int) (2 ^ 52 * one : Nat))
    (hn : 0 < n) (pos : 0 < one) :
    2 ^ 106 * |(product : Int) - width| ≤ (2 ^ 54 + 1) * width + (2 ^ 106 + 2 ^ 54) * n := by
  have hcancel : |((product * one : Nat) : Int) - (width * one : Nat)| =
      |(product : Int) - width| * one := by
    rw [Nat.cast_mul, Nat.cast_mul, ← sub_mul, abs_mul, Nat.abs_cast]
  have hleast : one ≤ n * one := Nat.le_mul_of_pos_left one hn
  have hscaled : 2 ^ 106 * |((product * one : Nat) : Int) - (width * one : Nat)| ≤
      (2 ^ 54 + 1) * (width * one : Nat) + (2 ^ 106 + 2 ^ 54) * (n * one : Nat) := by
    rw [Int.abs_eq_natAbs] at *
    omega
  rw [hcancel] at hscaled
  refine Int.le_of_mul_le_mul_right ?_ (Int.natCast_pos.mpr pos)
  push_cast at hscaled
  linarith

theorem abs_last_sub_le {low high width product last : Int} {n : Nat} (h : low < high)
    (hwidth : 2 ^ 53 * |width - (high - low)| ≤ high - low)
    (hproduct : 2 ^ 106 * |product - width| ≤ (2 ^ 54 + 1) * width + (2 ^ 106 + 2 ^ 54) * n)
    (hlast : 2 ^ 53 * |last - (low + product)| ≤ |low + product|) :
    2 ^ 50 * |last - high| ≤ max |low| |high| + 2 ^ 51 * (n + 1) := by
  simp only [Int.abs_eq_natAbs] at *
  omega

end Binary64

namespace Range

theorem bounds_of_usable (h : range.usable = true) : range.min.isFinite = true ∧
    range.max.isFinite = true ∧ units range.min < units range.max := by
  rw [usable, Bool.and_eq_true, Bool.and_eq_true, decide_eq_true_eq] at h
  obtain ⟨⟨hmin, hmax⟩, hlt⟩ := h
  exact ⟨hmin, hmax, (Binary64.lt_iff_units hmin hmax).mp hlt⟩

/-- What makes the places of a range finite to begin with. -/
structure Samples (range : Range) (count : Nat) : Prop where
  usable : range.usable = true
  width : (range.max - range.min).isFinite = true
  many : 2 ≤ count

theorem Samples.bounds (h : Samples range count) : range.min.isFinite = true ∧
    range.max.isFinite = true ∧ units range.min < units range.max :=
  bounds_of_usable h.usable

theorem Samples.width_units (h : Samples range count) :
    0 ≤ units (range.max - range.min) ∧
      2 ^ 53 * |units (range.max - range.min) - (units range.max - units range.min)| ≤
        units range.max - units range.min := by
  obtain ⟨hmin, hmax, hlt⟩ := h.bounds
  have hnearest := Binary64.isNearest_sub hmax hmin
  have herror := Binary64.nearestInt_error (units range.max - units range.min)
  rw [abs_of_pos (show 0 < units range.max - units range.min by omega)] at herror
  rw [hnearest.units_eq Nat.one_pos h.width]
  refine ⟨?_, herror⟩
  rw [Int.abs_eq_natAbs] at herror
  omega

theorem Samples.spacing_units (h : Samples range count) :
    (range.spacing count).isFinite = true ∧ 0 ≤ units (range.spacing count) := by
  have hmany := h.many
  obtain ⟨w, hw⟩ := Int.eq_ofNat_of_zero_le h.width_units.1
  rw [spacing, if_pos (by omega)]
  cases hfinite : (Float.ofNat (count - 1)).isFinite with
  | true =>
    have hone := Binary64.unitsOfOne_le_units_ofNat (by omega) hfinite
    have hunit := unitsOfOne_pos
    obtain ⟨d, hd⟩ := Int.eq_ofNat_of_zero_le (Int.le_trans (Int.natCast_nonneg _) hone)
    have hnearest := Binary64.isNearest_div_of_nonneg h.width hfinite hw hd (by omega)
    have hself := Binary64.nearestUnits_natAbs_units h.width
    have hbound := Binary64.natAbs_units_lt h.width
    rw [hw, Int.natAbs_natCast] at hself hbound
    have hle : nearestUnits (w * unitsOfOne) d ≤ nearestUnits w 1 :=
      Binary64.nearestUnits_mono (by omega) Nat.one_pos (by
        rw [Nat.mul_one]
        exact Nat.mul_le_mul_left w (by omega))
    have hspacing := (hnearest.isFinite_iff (by omega)).mpr (by
      rw [Int.natAbs_natCast]
      omega)
    rw [hnearest.units_eq (by omega) hspacing, Binary64.nearestInt_natCast (by omega)]
    exact ⟨hspacing, Int.natCast_nonneg _⟩
  | false =>
    obtain ⟨-, s, -, hinfinite⟩ :=
      (Binary64.isNearest_ofNat (count - 1)).infinite Nat.one_pos hfinite
    have hzero := Binary64.isZero_iff_units.mp (Binary64.isZero_div_of_infinite h.width hinfinite)
    exact ⟨hzero.1, Int.le_of_eq hzero.2.symm⟩

theorem Samples.place_zero (h : Samples range count) : (range.place count 0 == range.min) = true :=
  Binary64.add_beq_of_isZero (Binary64.beq_self_of_isFinite h.bounds.1)
    (Binary64.isZero_mul_of_isFinite h.spacing_units.1)

theorem Samples.place_units (h : Samples range count)
    (hplace : (range.place count i).isFinite = true) : (Float.ofNat i).isFinite = true ∧
      (range.spacing count * Float.ofNat i).isFinite = true ∧
      units (range.place count i) = nearestInt (units range.min +
        nearestInt (units (range.spacing count) * units (Float.ofNat i)) unitsOfOne) 1 := by
  have hproduct := (Binary64.isFinite_of_add hplace).2
  have hindex := (Binary64.isFinite_of_mul hproduct).2
  have hnearest := Binary64.isNearest_mul h.spacing_units.1 hindex
  refine ⟨hindex, hproduct, ?_⟩
  rw [← hnearest.units_eq unitsOfOne_pos hproduct]
  exact (Binary64.isNearest_add h.bounds.1 hproduct).units_eq Nat.one_pos hplace

theorem Samples.place_mono (h : Samples range count) (hij : i ≤ j)
    (hi : (range.place count i).isFinite = true) (hj : (range.place count j).isFinite = true) :
    units (range.place count i) ≤ units (range.place count j) := by
  obtain ⟨-, -, hunits⟩ := h.place_units hi
  obtain ⟨hindex, -, hunits'⟩ := h.place_units hj
  have hnumber := (Binary64.units_ofNat_le hij hindex).2
  have hproduct := Binary64.nearestInt_mono unitsOfOne_pos
    (Int.mul_le_mul_of_nonneg_left hnumber h.spacing_units.2)
  rw [hunits, hunits']
  exact Binary64.nearestInt_mono Nat.one_pos (by omega)

theorem Samples.last_product (h : Samples range count)
    (hindex : (Float.ofNat (count - 1)).isFinite = true) :
    2 ^ 106 * |nearestInt (units (range.spacing count) * units (Float.ofNat (count - 1)))
        unitsOfOne - units (range.max - range.min)| ≤
      (2 ^ 54 + 1) * units (range.max - range.min) + (2 ^ 106 + 2 ^ 54) * (count - 1 : Nat) := by
  have hmany := h.many
  have hone := Binary64.unitsOfOne_le_units_ofNat (by omega) hindex
  have hunit := unitsOfOne_pos
  obtain ⟨w, hw⟩ := Int.eq_ofNat_of_zero_le h.width_units.1
  obtain ⟨d, hd⟩ := Int.eq_ofNat_of_zero_le (Int.le_trans (Int.natCast_nonneg _) hone)
  obtain ⟨hspacing, hnonneg⟩ := h.spacing_units
  obtain ⟨step, hstep⟩ := Int.eq_ofNat_of_zero_le hnonneg
  have hwhole := Binary64.nearestUnits_error_of_whole ((count - 1) * unitsOfOne)
  have hquotient := Binary64.nearestUnits_error (w * unitsOfOne) (show 0 < d by omega)
  have harea := Binary64.nearestUnits_error (step * d) unitsOfOne_pos
  have hnearest := Binary64.isNearest_div_of_nonneg h.width hindex hw hd (by omega)
  rw [hstep, hd, hw, ← Nat.cast_mul, Binary64.nearestInt_natCast unitsOfOne_pos]
  rw [spacing, if_pos (by omega)] at hspacing hstep
  rw [hnearest.units_eq (by omega) hspacing, Binary64.nearestInt_natCast (by omega)] at hstep
  rw [← Binary64.units_ofNat hindex, hd] at hwhole
  rw [Int.ofNat_inj.mp hstep] at hquotient
  exact Binary64.abs_product_sub_le hwhole hquotient harea (by omega) unitsOfOne_pos

theorem Samples.last_sum (h : Samples range count)
    (hindex : (Float.ofNat (count - 1)).isFinite = true) :
    2 ^ 50 * |nearestInt (units range.min + nearestInt (units (range.spacing count) *
        units (Float.ofNat (count - 1))) unitsOfOne) 1 - units range.max| ≤
      Max.max |units range.min| |units range.max| + 2 ^ 51 * count := by
  have hmany := h.many
  obtain ⟨-, -, hlt⟩ := h.bounds
  have hwidth := h.width_units.2
  have harea := h.last_product hindex
  have hcount : ((count - 1 : Nat) : Int) + 1 = count := by omega
  rw [← hcount]
  exact Binary64.abs_last_sub_le hlt hwidth harea (Binary64.nearestInt_error _)

/-- How far the last place can be from the upper bound. -/
theorem Samples.last_error (h : Samples range count)
    (hlast : (range.place count (count - 1)).isFinite = true) :
    2 ^ 50 * |units (range.place count (count - 1)) - units range.max| ≤
      Max.max |units range.min| |units range.max| + 2 ^ 51 * count := by
  obtain ⟨hindex, -, hunits⟩ := h.place_units hlast
  rw [hunits]
  exact h.last_sum hindex

end Range

/-- Points from one end of a range to the other, and none outside it. -/
structure Range.Covers (range : Range) (points : List Point) : Prop where
  starts : ∃ point, points.head? = some point ∧ (point.x == range.min) = true
  ends : ∃ point, points.getLast? = some point ∧ (point.x == range.max) = true
  inside : ∀ point ∈ points, range.min ≤ point.x ∧ point.x ≤ range.max

namespace RealFunction

/-- A function without poles: finite at every finite place. -/
def FiniteValued (f : RealFunction Float) : Prop :=
  ∀ x : Float, x.isFinite = true → (f.eval x).isFinite = true

theorem finiteValued_constant {c : Float} (h : c.isFinite = true) :
    (constant c).FiniteValued := by
  intro x hx
  have hvalue : (constant c).eval x = 0 * x + c := rfl
  rw [hvalue]
  rcases Binary64.isZero_add (c := c) (Binary64.isZero_zero_mul hx) with hsame | ⟨hzero, -⟩
  · rwa [hsame]
  · exact (Binary64.isZero_iff_units.mp hzero).1

section

variable (hf : f.FiniteValued)

include hf

theorem FiniteValued.pointAt_isFinite (x : Float) : (f.pointAt x).isFinite = x.isFinite := by
  rw [pointAt, Point.isFinite]
  cases hx : x.isFinite with
  | false => rfl
  | true => exact hf x hx

theorem FiniteValued.mem_sample {point : Point} : point ∈ f.sample range count ↔
    ∃ index < count, (range.place count index).isFinite = true ∧
      point = f.pointAt (range.place count index) := by
  simp only [sample, List.mem_filter, List.mem_map, List.mem_range]
  constructor
  · rintro ⟨⟨index, hindex, rfl⟩, hfinite⟩
    exact ⟨index, hindex, by rwa [hf.pointAt_isFinite] at hfinite, rfl⟩
  · rintro ⟨index, hindex, hfinite, rfl⟩
    exact ⟨⟨index, hindex, rfl⟩, by rwa [hf.pointAt_isFinite]⟩

theorem FiniteValued.head?_sample (hcount : 0 < count)
    (hfirst : (range.place count 0).isFinite = true) :
    (f.sample range count).head? = some (f.pointAt (range.place count 0)) := by
  obtain ⟨rest, rfl⟩ := Nat.exists_eq_succ_of_ne_zero (Nat.ne_of_gt hcount)
  have hkept : (f.pointAt (range.place (rest + 1) 0)).isFinite = true := by
    rwa [hf.pointAt_isFinite]
  rw [sample, List.range_succ_eq_map, List.map_cons, List.filter_cons_of_pos hkept, List.head?_cons]

theorem FiniteValued.getLast?_sample (hcount : 0 < count)
    (hlast : (range.place count (count - 1)).isFinite = true) :
    (f.sample range count).getLast? = some (f.pointAt (range.place count (count - 1))) := by
  obtain ⟨rest, rfl⟩ := Nat.exists_eq_succ_of_ne_zero (Nat.ne_of_gt hcount)
  have hkept : (f.pointAt (range.place (rest + 1) rest)).isFinite = true := by
    rwa [hf.pointAt_isFinite]
  rw [sample, List.range_succ, List.map_append, List.filter_append, List.map_singleton,
    List.filter_cons_of_pos hkept, List.filter_nil, List.getLast?_concat]
  rfl

variable (h : range.Samples count)

include h

theorem FiniteValued.pairwise_sample :
    (f.sample range count).Pairwise fun before after => before.x ≤ after.x := by
  rw [sample, List.pairwise_filter, List.pairwise_map]
  refine List.pairwise_lt_range.imp fun {i j} hij hi hj => ?_
  rw [hf.pointAt_isFinite] at hi hj
  exact (Binary64.le_iff_units hi hj).mpr (h.place_mono (Nat.le_of_lt hij) hi hj)

theorem FiniteValued.min_le_of_mem_sample {point : Point} (hp : point ∈ f.sample range count) :
    range.min ≤ point.x := by
  obtain ⟨index, -, hfinite, rfl⟩ := hf.mem_sample.mp hp
  have hfirst := h.place_zero
  have hzero := Binary64.isFinite_of_beq h.bounds.1 hfirst
  rw [Binary64.beq_iff_units hzero h.bounds.1] at hfirst
  have hmono := h.place_mono (Nat.zero_le index) hzero hfinite
  rw [hfirst] at hmono
  exact (Binary64.le_iff_units h.bounds.1 hfinite).mpr hmono

theorem FiniteValued.le_max_of_mem_sample {point : Point}
    (hlast : (range.place count (count - 1) == range.max) = true)
    (hp : point ∈ f.sample range count) : point.x ≤ range.max := by
  obtain ⟨index, hindex, hfinite, rfl⟩ := hf.mem_sample.mp hp
  have hend := Binary64.isFinite_of_beq h.bounds.2.1 hlast
  rw [Binary64.beq_iff_units hend h.bounds.2.1] at hlast
  have hmono := h.place_mono (Nat.le_sub_one_of_lt hindex) hfinite hend
  rw [hlast] at hmono
  exact (Binary64.le_iff_units hfinite h.bounds.2.1).mpr hmono

/-- The points start at the lower bound, never go back, and are not below the range. If the last
place is finite, the last point is there, near the upper bound; the points go from end to end and
stay inside exactly if it is the upper bound. -/
theorem FiniteValued.sample_ends :
    (∃ first, (f.sample range count).head? = some first ∧ (first.x == range.min) = true) ∧
      (f.sample range count).Pairwise (fun before after => before.x ≤ after.x) ∧
      (∀ point ∈ f.sample range count, range.min ≤ point.x) ∧
      ((range.place count (count - 1)).isFinite = true →
        ∃ last, (f.sample range count).getLast? = some last ∧
          last.x = range.place count (count - 1) ∧
          2 ^ 50 * |units last.x - units range.max| ≤
            max |units range.min| |units range.max| + 2 ^ 51 * count ∧
          (range.Covers (f.sample range count) ↔ (last.x == range.max) = true)) := by
  have hmany := h.many
  have hzero := Binary64.isFinite_of_beq h.bounds.1 h.place_zero
  have hhead := hf.head?_sample (by omega) hzero
  refine ⟨⟨_, hhead, h.place_zero⟩, hf.pairwise_sample h, fun point => hf.min_le_of_mem_sample h,
    fun hfinite => ?_⟩
  have hlast := hf.getLast?_sample (by omega) hfinite
  refine ⟨_, hlast, rfl, h.last_error hfinite, ?_⟩
  constructor
  · rintro ⟨-, ⟨point, hpoint, hmax⟩, -⟩
    rw [hlast, Option.some.injEq] at hpoint
    rwa [hpoint]
  · intro hmax
    exact ⟨⟨_, hhead, h.place_zero⟩, ⟨_, hlast, hmax⟩,
      fun point hp => ⟨hf.min_le_of_mem_sample h hp, hf.le_max_of_mem_sample h hmax hp⟩⟩

end

theorem sample_covers_standard : Viewport.standard.x.Covers
    ((constant (1 : Float)).sample Viewport.standard.x 5) := by
  have hsamples : Viewport.standard.x.Samples 5 :=
    ⟨by decide +kernel, by decide +kernel, by decide⟩
  have hvalued : (constant (1 : Float)).FiniteValued := finiteValued_constant (by decide +kernel)
  obtain ⟨-, -, -, hlast⟩ := hvalued.sample_ends hsamples
  obtain ⟨last, -, hplace, -, hcovers⟩ := hlast (by decide +kernel)
  refine hcovers.mpr ?_
  rw [hplace]
  decide +kernel

/-- The last of twelve points between `0` and `0.1` is past the end. -/
theorem sample_passes_end : ¬∀ (range : Range) (count : Nat) (c : Float), range.usable = true →
    (range.max - range.min).isFinite = true → 2 ≤ count → c.isFinite = true →
      range.Covers ((constant c).sample range count) := by
  intro hall
  have hcovers := hall ⟨0, 0.1⟩ 12 1 (by decide +kernel) (by decide +kernel) (by decide)
    (by decide +kernel)
  obtain ⟨last, hlast, hmax⟩ := hcovers.ends
  have hpassed : ((constant (1 : Float)).sample ⟨0, 0.1⟩ 12).getLast?.all
      (fun point => !(point.x == 0.1)) = true := by decide +kernel
  rw [hlast, Option.all_some, hmax] at hpassed
  cases hpassed

end RealFunction

end Calculator
