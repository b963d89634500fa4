import Calculator.Proofs.Text.Places

/-!
What is left of an input without its blank characters: the other characters in their order, each at
its own place. Two inputs with the same characters other than blanks are prepared alike, and regions
that belong together contain the same of them.
-/

set_option autoImplicit false
set_option relaxedAutoImplicit false

namespace Calculator

def Span.Contains (outer inner : Span) : Prop :=
  outer.start ≤ inner.start ∧ inner.stop ≤ outer.stop

namespace Source

/-- Characters that stand one after another in the input, none of them empty. -/
structure Ordered (source : Source) : Prop where
  sorted : source.glyphs.Pairwise fun a b => a.span.stop ≤ b.span.start
  proper : ∀ glyph ∈ source.glyphs, glyph.span.start < glyph.span.stop
  within : ∀ glyph ∈ source.glyphs, glyph.span.stop ≤ source.stop

section Place

variable {offset : Nat} {text : List Char} {glyph : Glyph}

theorem map_char_place (offset : Nat) (text : List Char) :
    (place offset text).map Glyph.char = text := by
  induction text generalizing offset with
  | nil => rfl
  | cons c text ih => rw [place, List.map_cons, ih]

theorem byteLength_cons (c : Char) (text : List Char) :
    byteLength (c :: text) = c.utf8Size + byteLength text := rfl

theorem bounds_of_mem_place (h : glyph ∈ place offset text) :
    offset ≤ glyph.span.start ∧ glyph.span.start < glyph.span.stop ∧
      glyph.span.stop ≤ offset + byteLength text := by
  induction text generalizing offset with
  | nil => cases h
  | cons c text ih =>
    have hpos := c.utf8Size_pos
    rw [byteLength_cons]
    rcases List.mem_cons.mp h with rfl | h
    · dsimp only
      omega
    · have := ih h
      omega

theorem place_sorted (offset : Nat) (text : List Char) :
    (place offset text).Pairwise fun a b => a.span.stop ≤ b.span.start := by
  induction text generalizing offset with
  | nil => exact .nil
  | cons c text ih => exact .cons (fun glyph h => (bounds_of_mem_place h).1) (ih _)

end Place

theorem strip_ordered (input : String) : (strip input).Ordered where
  sorted := (place_sorted 0 input.toList).filter _
  proper glyph h := (bounds_of_mem_place (List.mem_filter.mp h).1).2.1
  within glyph h := by
    have := (bounds_of_mem_place (List.mem_filter.mp h).1).2.2
    rwa [Nat.zero_add] at this

theorem chars_strip (input : String) :
    (strip input).chars = input.toList.filter fun c => !Text.isBlank c := by
  conv_rhs => rw [← map_char_place 0 input.toList, List.filter_map]
  rfl

theorem chars_strip_append (front back : String) :
    (strip (front ++ back)).chars = (strip front).chars ++ (strip back).chars := by
  rw [chars_strip, chars_strip, chars_strip, String.toList_append, List.filter_append]

section Products

variable {previous : Option Char} {glyph : Glyph} {text : List Glyph}

theorem insertProducts_cons (h : ¬(glyph.char = '(' ∧ endsFactor previous = true)) :
    insertProducts previous (glyph :: text) = glyph :: insertProducts (some glyph.char) text := by
  rw [insertProducts, if_neg (by simpa using h)]

theorem insertProducts_opening (hc : glyph.char = '(') (hp : endsFactor previous = true) :
    insertProducts previous (glyph :: text) =
      ⟨'*', ⟨glyph.span.start, glyph.span.start + 1⟩⟩ :: glyph ::
        insertProducts (some glyph.char) text := by
  rw [insertProducts, if_pos (by simp [hc, hp])]

end Products

section Order

variable {source : Source} {i k : Nat} {a b : Glyph}

theorem Ordered.stop_le_start (h : source.Ordered) (ha : source.glyphs[i]? = some a)
    (hb : source.glyphs[k]? = some b) (hik : i < k) : a.span.stop ≤ b.span.start := by
  obtain ⟨hi, rfl⟩ := List.getElem?_eq_some_iff.mp ha
  obtain ⟨hk, rfl⟩ := List.getElem?_eq_some_iff.mp hb
  exact List.pairwise_iff_getElem.mp h.sorted i k hi hk hik

theorem Ordered.bounds (h : source.Ordered) (ha : source.glyphs[i]? = some a) :
    a.span.start < a.span.stop ∧ a.span.stop ≤ source.stop :=
  ⟨h.proper a (List.mem_of_getElem? ha), h.within a (List.mem_of_getElem? ha)⟩

theorem Ordered.start_le_start_iff (h : source.Ordered) (ha : source.glyphs[i]? = some a)
    (hb : source.glyphs[k]? = some b) : a.span.start ≤ b.span.start ↔ i ≤ k := by
  have hsize := (h.bounds hb).1
  rcases Nat.lt_trichotomy i k with hik | rfl | hik
  · have := h.stop_le_start ha hb hik
    have := (h.bounds ha).1
    omega
  · cases ha.symm.trans hb
    simp
  · have := h.stop_le_start hb ha hik
    omega

theorem Ordered.stop_le_stop_iff (h : source.Ordered) (ha : source.glyphs[i]? = some a)
    (hb : source.glyphs[k]? = some b) : a.span.stop ≤ b.span.stop ↔ i ≤ k := by
  have hsize := (h.bounds ha).1
  rcases Nat.lt_trichotomy i k with hik | rfl | hik
  · have := h.stop_le_start ha hb hik
    have := (h.bounds hb).1
    omega
  · cases ha.symm.trans hb
    simp
  · have := h.stop_le_start hb ha hik
    omega

end Order

variable {s t : Source}

def places (s t : Source) : Places where
  starts m n := ∃ (i : Nat) (a b : Glyph), s.glyphs[i]? = some a ∧ t.glyphs[i]? = some b ∧
    m = a.span.start ∧ n = b.span.start
  stops m n := ∃ (i : Nat) (a b : Glyph), s.glyphs[i]? = some a ∧ t.glyphs[i]? = some b ∧
    m = a.span.stop ∧ n = b.span.stop
  left := s.stop
  right := t.stop

theorem alike_of_chars_eq (h : s.chars = t.chars) : s.Alike (places s t) t where
  left := rfl
  right := rfl
  glyphs := by
    have hlength : s.glyphs.length = t.glyphs.length := by
      simpa [chars] using congrArg List.length h
    refine List.forall₂_iff_get.mpr ⟨hlength, fun i hs ht => ?_⟩
    have hs' : s.glyphs[i]? = some (s.glyphs.get ⟨i, hs⟩) := List.getElem?_eq_getElem hs
    have ht' : t.glyphs[i]? = some (t.glyphs.get ⟨i, ht⟩) := List.getElem?_eq_getElem ht
    refine ⟨?_, ⟨i, _, _, hs', ht', rfl, rfl⟩, ⟨i, _, _, hs', ht', rfl, rfl⟩⟩
    have hchar : s.chars[i]? = t.chars[i]? := congrArg (fun text : List Char => text[i]?) h
    rw [chars, chars, List.getElem?_map, List.getElem?_map, hs', ht'] at hchar
    exact Option.some.inj hchar

/-- Regions that belong together contain the same characters, counted from the front, and the empty
region at the end of one input belongs to the one at the end of the other. -/
structure SameRun (s t : Source) (x y : Span) : Prop where
  region : (places s t).Region x y
  covers : ∀ (i : Nat) (a b : Glyph), s.glyphs[i]? = some a → t.glyphs[i]? = some b →
    (x.Contains a.span ↔ y.Contains b.span)
  atEnd : x = s.endSpan ↔ y = t.endSpan

theorem sameRun_of_region (hs : s.Ordered) (ht : t.Ordered) {x y : Span}
    (h : (places s t).Region x y) : SameRun s t x y := by
  refine ⟨h, fun k c d hc hd => ?_, ?_⟩
  · have hcs := hs.bounds hc
    have hdt := ht.bounds hd
    cases h with
    | run h =>
      obtain ⟨⟨i, a, b, ha, hb, hstart, hstart'⟩, ⟨j, a', b', ha', hb', hstop, hstop'⟩⟩ := h
      rw [Span.Contains, Span.Contains, hstart, hstart', hstop, hstop',
        hs.start_le_start_iff ha hc, ht.start_le_start_iff hb hd, hs.stop_le_stop_iff hc ha',
        ht.stop_le_stop_iff hd hb']
    | rest h =>
      obtain ⟨⟨i, a, b, ha, hb, hstart, hstart'⟩, -⟩ := h
      rw [Span.Contains, Span.Contains, hstart, hstart', hs.start_le_start_iff ha hc,
        ht.start_le_start_iff hb hd]
      exact and_congr_right fun _ => iff_of_true hcs.2 hdt.2
    | before h =>
      simp only [Span.Contains, Span.point]
      omega
    | atEnd =>
      simp only [Span.Contains, Span.point, places]
      omega
  · have below {x y : Span} (h : (places s t).Run x y) : x.start < s.stop ∧ y.start < t.stop := by
      obtain ⟨⟨i, a, b, ha, hb, hstart, hstart'⟩, -⟩ := h
      have := hs.bounds ha
      have := ht.bounds hb
      omega
    have front {x y : Span} (hx : x.start < s.stop) (hy : y.start < t.stop) :
        x = s.endSpan ↔ y = t.endSpan := by
      refine iff_of_false ?_ ?_
      · rintro rfl
        exact Nat.lt_irrefl _ hx
      · rintro rfl
        exact Nat.lt_irrefl _ hy
    cases h with
    | run h => exact front (below h).1 (below h).2
    | rest h => exact front (below h).1 (below h).2
    | before h => exact front (below h).1 (below h).2
    | atEnd => exact iff_of_true rfl rfl

end Source

end Calculator
