import Calculator.Proofs.Text.Cutting

/-!
The map from a prepared text back to its input. The map has an entry for each byte, but means
something only where characters start and end: the first byte of a character stands for where it
starts in the input, and the last one for the byte before it ends. A region of the prepared text is
therefore mapped to the extent of its characters, whatever blanks were removed between them. A
product that is written out borrows the place of the parenthesis behind it and moves no other
character.
-/

set_option autoImplicit false
set_option relaxedAutoImplicit false

namespace Calculator

abbrev Glyphs.width (glyphs : List Glyph) : Nat := Source.byteLength (glyphs.map Glyph.char)

namespace Source

variable {source : Source} {glyph : Glyph} {glyphs before part after : List Glyph} {span : Span}

theorem width_append (front back : List Glyph) :
    Glyphs.width (front ++ back) = Glyphs.width front + Glyphs.width back := by
  rw [Glyphs.width, List.map_append, byteLength_append]

theorem width_cons (glyph : Glyph) (glyphs : List Glyph) :
    Glyphs.width (glyph :: glyphs) = glyph.char.utf8Size + Glyphs.width glyphs := rfl

/-- Whether characters stand for as many bytes of the input as they have. -/
def Sized (glyphs : List Glyph) : Prop :=
  ∀ glyph ∈ glyphs, glyph.span.stop = glyph.span.start + glyph.char.utf8Size

def Proper (glyphs : List Glyph) : Prop := ∀ glyph ∈ glyphs, glyph.span.start < glyph.span.stop

/-- The bytes of the input that characters stand for. -/
def bytes (glyphs : List Glyph) : List Nat :=
  glyphs.flatMap fun glyph => List.range' glyph.span.start (glyph.span.stop - glyph.span.start)

theorem bytes_append (front back : List Glyph) :
    bytes (front ++ back) = bytes front ++ bytes back := List.flatMap_append

theorem bytes_cons (sized : Sized (glyph :: glyphs)) :
    bytes (glyph :: glyphs) =
      List.range' glyph.span.start glyph.char.utf8Size ++ bytes glyphs := by
  have hsize := sized glyph List.mem_cons_self
  rw [bytes, List.flatMap_cons, hsize, Nat.add_sub_cancel_left]
  rfl

theorem Sized.front (sized : Sized (before ++ after)) : Sized before :=
  fun glyph hmem => sized glyph (List.mem_append_left _ hmem)

theorem Sized.back (sized : Sized (before ++ after)) : Sized after :=
  fun glyph hmem => sized glyph (List.mem_append_right _ hmem)

theorem Sized.tail (sized : Sized (glyph :: glyphs)) : Sized glyphs :=
  fun other hmem => sized other (List.mem_cons_of_mem _ hmem)

theorem Proper.tail (proper : Proper (glyph :: glyphs)) : Proper glyphs :=
  fun other hmem => proper other (List.mem_cons_of_mem _ hmem)

theorem length_bytes (sized : Sized glyphs) : (bytes glyphs).length = Glyphs.width glyphs := by
  induction glyphs with
  | nil => rfl
  | cons glyph glyphs ih =>
    rw [bytes_cons sized, List.length_append, List.length_range', ih sized.tail, width_cons]

theorem offsets_eq (source : Source) : source.offsets = bytes source.glyphs ++ [source.stop] := rfl

theorem length_offsets (sized : Sized source.glyphs) :
    source.offsets.length = Glyphs.width source.glyphs + 1 := by
  rw [offsets_eq, List.length_append, length_bytes sized, List.length_singleton]

theorem getElem?_offsets {i : Nat} (sized : Sized source.glyphs)
    (h : source.glyphs = before ++ glyph :: after) (hi : i < glyph.char.utf8Size) :
    source.offsets[Glyphs.width before + i]? = some (glyph.span.start + i) := by
  rw [h] at sized
  have hwidth := length_bytes sized.front
  rw [offsets_eq, h, bytes_append, bytes_cons sized.back, List.append_assoc,
    List.getElem?_append_right (by omega), hwidth, Nat.add_sub_cancel_left, List.append_assoc,
    List.getElem?_append_left (by rwa [List.length_range']), List.getElem?_range' hi,
    Nat.one_mul]

theorem getElem?_offsets_stop (sized : Sized source.glyphs) :
    source.offsets[Glyphs.width source.glyphs]? = some source.stop := by
  rw [offsets_eq, ← length_bytes sized]
  exact List.getElem?_concat_length

def Slice (source : Source) (a b : Nat) (part : List Glyph) : Prop :=
  ∃ before after, source.glyphs = before ++ (part ++ after) ∧ a = Glyphs.width before ∧
    b = a + Glyphs.width part

theorem width_pos (hne : part ≠ []) : 0 < Glyphs.width part := by
  obtain ⟨first, rest, rfl⟩ := List.exists_cons_of_ne_nil hne
  exact Nat.add_pos_left first.char.utf8Size_pos _

/-- The first byte of a region stands for where its characters start, and the last one for the byte
before they end. -/
theorem getElem?_offsets_of_slice {a b : Nat} (sized : Sized source.glyphs)
    (h : source.Slice a b part) (extent : span.IsExtent (Glyphs.spans part)) :
    source.offsets[a]? = some span.start ∧ source.offsets[b - 1]? = some (span.stop - 1) ∧
      0 < span.stop := by
  obtain ⟨before, after, hglyphs, rfl, rfl⟩ := h
  have hne : part ≠ [] := fun hnil => extent.ne_nil (congrArg Glyphs.spans hnil)
  constructor
  · obtain ⟨first, rest, rfl⟩ := List.exists_cons_of_ne_nil hne
    rw [← Option.some.inj extent.start]
    exact getElem?_offsets sized hglyphs first.char.utf8Size_pos
  · obtain ⟨init, last, rfl⟩ := (List.eq_nil_or_concat' part).resolve_left hne
    have hsplit : source.glyphs = (before ++ init) ++ last :: after := by
      rw [hglyphs]
      simp
    have hpos := last.char.utf8Size_pos
    have hlast : span.stop = last.span.start + last.char.utf8Size := by
      rw [← sized last (hsplit ▸ by simp)]
      have hstop := extent.stop
      rw [Glyphs.spans, List.map_append, List.map_singleton, List.getLast?_concat] at hstop
      exact (Option.some.inj hstop).symm
    have hlookup := getElem?_offsets sized hsplit (Nat.sub_lt hpos Nat.one_pos)
    rw [width_append, ← Nat.add_sub_assoc hpos, ← Nat.add_sub_assoc hpos, ← hlast] at hlookup
    refine ⟨?_, by omega⟩
    rw [width_append, ← Nat.add_assoc]
    exact hlookup

theorem inputSpan_of_slice {a b : Nat} (sized : Sized source.glyphs) (h : source.Slice a b part)
    (extent : span.IsExtent (Glyphs.spans part)) : source.inputSpan ⟨a, b⟩ = span := by
  have hne : part ≠ [] := fun hnil => extent.ne_nil (congrArg Glyphs.spans hnil)
  obtain ⟨hstart, hstop, hpos⟩ := getElem?_offsets_of_slice sized h extent
  obtain ⟨-, -, -, -, rfl⟩ := h
  have hwidth := width_pos hne
  rw [inputSpan, if_neg (by dsimp only; omega)]
  simp only [hstart, hstop, Option.getD_some, Nat.sub_add_cancel hpos]

theorem text_utf8ByteSize (source : Source) :
    source.text.utf8ByteSize = Glyphs.width source.glyphs := (byteLength_eq source.chars).symm

theorem exists_append_of_boundary {a : Nat} (h : Boundary source.text a) :
    ∃ front back, source.glyphs = front ++ back ∧ a = Glyphs.width front := by
  obtain ⟨front, back, htext, ha⟩ := String.Pos.Raw.isValid_iff_exists_append.mp h
  have hchars : source.glyphs.map Glyph.char = front.toList ++ back.toList := by
    rw [← String.toList_append, ← htext]
    exact String.toList_ofList.symm
  obtain ⟨front', back', hglyphs, hfront, -⟩ := List.map_eq_append_iff.mp hchars
  refine ⟨front', back', hglyphs, ?_⟩
  rw [Glyphs.width, hfront, byteLength_eq, String.ofList_toList]
  exact congrArg String.Pos.Raw.byteIdx ha

theorem exists_slice {a b : Nat} (ha : Boundary source.text a) (hb : Boundary source.text b)
    (hle : a ≤ b) :
    ∃ part, source.Slice a b part ∧
      (Span.mk a b).cut source.text = String.ofList (part.map Glyph.char) := by
  obtain ⟨front, rest, hrest, rfl⟩ := exists_append_of_boundary ha
  obtain ⟨front', back, hback, rfl⟩ := exists_append_of_boundary hb
  have hpart : ∃ part, front' = front ++ part ∧ rest = part ++ back := by
    rcases List.append_eq_append_iff.mp (hrest.symm.trans hback) with h | ⟨part, hfront, hpart⟩
    · exact h
    · have hnil : part = [] := by
        by_contra hne
        have := width_pos hne
        rw [hfront, width_append] at hle
        omega
      exact ⟨[], by simp [hfront, hnil], by simp [hpart, hnil]⟩
  obtain ⟨part, rfl, rfl⟩ := hpart
  refine ⟨part, ⟨front, back, hrest, rfl, width_append front part⟩, ?_⟩
  rw [text, chars, hrest, List.map_append, List.map_append, width_append]
  exact cut_between _ _ _

theorem inputSpan_of_scan {κ : Type} {lexicon : Lexicon κ} {front back : List (Token κ)}
    {token : Token κ} (sized : Sized source.glyphs)
    (h : lexicon.scan source = front ++ token :: back) :
    source.inputSpan ⟨byteLength (Tokens.chars front),
      byteLength (Tokens.chars front) + byteLength token.lexeme⟩ = token.span := by
  obtain ⟨before, rest, hglyphs, rfl, hrest⟩ := Lexicon.scanFrom_split h
  rw [← List.singleton_append] at hrest
  obtain ⟨part, after, rfl, hpart, -⟩ := Lexicon.scanFrom_split hrest
  have hlexeme : token.lexeme = part.map Glyph.char := by
    rw [← Lexicon.chars_scanFrom lexicon, hpart, Tokens.chars_cons, Tokens.chars_nil,
      List.append_nil]
  have extent := Lexicon.isExtent_of_scanFrom hpart
  rw [Lexicon.chars_scanFrom, hlexeme]
  exact inputSpan_of_slice sized ⟨before, after, hglyphs, rfl, rfl⟩ extent

/-- Whether a character stands in the input at its place. -/
def typed (input : String) (glyph : Glyph) : Bool := decide (glyph ∈ place 0 input.toList)

/-- The characters of an input other than blanks, with products written out between some of them,
each where the parenthesis behind it stands. -/
structure Prepares (source : Source) (input : String) : Prop where
  sized : Sized source.glyphs
  stop : source.stop = input.utf8ByteSize
  sorted : source.glyphs.Pairwise fun a b => a.span.stop ≤ b.span.start + 1
  within : ∀ glyph ∈ source.glyphs, glyph.span.stop ≤ source.stop
  kept : source.glyphs.filter (typed input) = (strip input).glyphs
  written : ∀ glyph after, glyph :: after <:+ source.glyphs → typed input glyph = false →
    glyph.char = '*' ∧ ∃ next rest, after = next :: rest ∧ typed input next = true ∧
      next.char = '(' ∧ glyph.span = next.span

/-- A prepared text with a map that leads back to the input. -/
structure Traces (source : Source) (input : String) : Prop where
  length : source.offsets.length = source.text.utf8ByteSize + 1
  last : source.offsets[source.text.utf8ByteSize]? = some input.utf8ByteSize
  sorted : source.offsets.Pairwise (· ≤ ·)
  lookups : ∀ a b, a < b → b ≤ source.text.utf8ByteSize → ∃ m n, source.offsets[a]? = some m ∧
    source.offsets[b - 1]? = some n ∧ source.inputSpan ⟨a, b⟩ = ⟨m, n + 1⟩
  slices : ∀ a b, Boundary source.text a → Boundary source.text b → a ≤ b → ∃ part,
    source.Slice a b part ∧
      (Span.mk a b).cut source.text = String.ofList (part.map Glyph.char)
  reads : ∀ a b part first last, source.Slice a b part → part.head? = some first →
    part.getLast? = some last → typed input first = true → typed input last = true →
      (source.inputSpan ⟨a, b⟩).Fits (Boundary input) input.utf8ByteSize ∧
        ((source.inputSpan ⟨a, b⟩).cut input).toList.filter (fun c => !Text.isBlank c) =
          (part.filter (typed input)).map Glyph.char
  kept : source.glyphs.filter (typed input) = (strip input).glyphs
  written : ∀ a b star, source.Slice a b [star] → typed input star = false →
    star.char = '*' ∧ ∃ c next, source.Slice b c [next] ∧ typed input next = true ∧
      next.char = '(' ∧ source.inputSpan ⟨a, b⟩ = source.inputSpan ⟨b, c⟩

/-- Characters that do not start before the one in front of them ends, or share its last byte, have
entries in order. -/
theorem pairwise_offsets (sorted : source.glyphs.Pairwise fun a b => a.span.stop ≤ b.span.start + 1)
    (within : ∀ glyph ∈ source.glyphs, glyph.span.stop ≤ source.stop) :
    source.offsets.Pairwise (· ≤ ·) := by
  rw [offsets_eq, List.pairwise_append]
  refine ⟨?_, List.pairwise_singleton _ _, ?_⟩
  · refine List.pairwise_flatMap.mpr ⟨fun glyph _ => List.pairwise_le_range' 1, ?_⟩
    refine sorted.imp fun hsorted m hm n hn => ?_
    have := List.mem_range'_1.mp hm
    have := List.mem_range'_1.mp hn
    omega
  · intro m hm n hn
    obtain ⟨glyph, hglyph, hm⟩ := List.mem_flatMap.mp hm
    have := within glyph hglyph
    have := List.mem_range'_1.mp hm
    rw [List.mem_singleton.mp hn]
    omega

namespace Prepares

variable {input : String}

theorem exists_extent {first last : Glyph} (h : source.Prepares input) {a b : Nat}
    (hpart : source.Slice a b part) (hfirst : part.head? = some first)
    (hlast : part.getLast? = some last) (first_typed : typed input first = true)
    (last_typed : typed input last = true) :
    ∃ before after, (strip input).glyphs = before ++ (part.filter (typed input) ++ after) ∧
      (source.inputSpan ⟨a, b⟩).IsExtent (Glyphs.spans (part.filter (typed input))) := by
  have extent : (Span.through first.span last.span).IsExtent (Glyphs.spans part) := by
    constructor
    · rw [List.head?_map, hfirst]
      rfl
    · rw [List.getLast?_map, hlast]
      rfl
  rw [inputSpan_of_slice h.sized hpart extent]
  obtain ⟨before, after, hglyphs, -, -⟩ := hpart
  refine ⟨before.filter (typed input), after.filter (typed input), ?_, ?_, ?_⟩
  · rw [← h.kept, hglyphs, List.filter_append, List.filter_append]
  · obtain ⟨rest, rfl⟩ := List.head?_eq_some_iff.mp hfirst
    rw [List.filter_cons_of_pos first_typed]
    rfl
  · obtain ⟨init, rfl⟩ := List.getLast?_eq_some_iff.mp hlast
    rw [List.filter_append, List.filter_cons_of_pos last_typed, List.filter_nil, Glyphs.spans,
      List.map_append, List.map_singleton, List.getLast?_concat]
    rfl

theorem traces (h : source.Prepares input) : source.Traces input where
  length := by rw [length_offsets h.sized, text_utf8ByteSize]
  last := by rw [text_utf8ByteSize, getElem?_offsets_stop h.sized, h.stop]
  sorted := pairwise_offsets h.sorted h.within
  lookups a b hab hb := by
    have hlength := length_offsets h.sized
    rw [text_utf8ByteSize] at hb
    have ha : a < source.offsets.length := by omega
    have hb : b - 1 < source.offsets.length := by omega
    refine ⟨_, _, List.getElem?_eq_getElem ha, List.getElem?_eq_getElem hb, ?_⟩
    rw [inputSpan, if_neg (Nat.not_le.mpr hab)]
    simp only [List.getElem?_eq_getElem ha, List.getElem?_eq_getElem hb, Option.getD_some]
  slices _ _ := exists_slice
  reads a b part first last hpart hfirst hlast first_typed last_typed := by
    obtain ⟨before, after, hglyphs, extent⟩ :=
      h.exists_extent hpart hfirst hlast first_typed last_typed
    exact ⟨fits_of_isExtent hglyphs extent, cut_filter hglyphs extent⟩
  kept := h.kept
  written a b star hslice htyped := by
    have hspan := inputSpan_of_slice h.sized hslice (.single star.span)
    obtain ⟨before, after, hglyphs, rfl, rfl⟩ := hslice
    have hsuffix : star :: after <:+ source.glyphs := ⟨before, hglyphs.symm⟩
    obtain ⟨hchar, next, rest, rfl, hnext, hopening, hplace⟩ := h.written star after hsuffix htyped
    have hslice : source.Slice (Glyphs.width before + Glyphs.width [star])
        (Glyphs.width before + Glyphs.width [star] + Glyphs.width [next]) [next] :=
      ⟨before ++ [star], rest, by rw [hglyphs]; simp, (width_append before [star]).symm, rfl⟩
    refine ⟨hchar, _, next, hslice, hnext, hopening, ?_⟩
    rw [hspan, inputSpan_of_slice h.sized hslice (.single next.span), hplace]

end Prepares

theorem sized_place (offset : Nat) (text : List Char) : Sized (place offset text) := by
  induction text generalizing offset with
  | nil => simp [Sized, place]
  | cons c text ih =>
    intro glyph hmem
    rcases List.mem_cons.mp hmem with rfl | hmem
    · rfl
    · exact ih _ glyph hmem

theorem eq_of_start_eq {offset : Nat} {text : List Char} {a b : Glyph} (ha : a ∈ place offset text)
    (hb : b ∈ place offset text) (h : a.span.start = b.span.start) : a = b := by
  induction text generalizing offset with
  | nil => cases ha
  | cons c text ih =>
    have hpos := c.utf8Size_pos
    rcases List.mem_cons.mp ha with rfl | ha <;> rcases List.mem_cons.mp hb with rfl | hb
    · rfl
    · have := (bounds_of_mem_place hb).1
      dsimp only at h
      omega
    · have := (bounds_of_mem_place ha).1
      dsimp only at h
      omega
    · exact ih ha hb

theorem typed_of_mem_strip {input : String} (h : glyph ∈ (strip input).glyphs) :
    typed input glyph = true :=
  decide_eq_true (List.mem_filter.mp h).1

theorem strip_prepares (input : String) : (strip input).Prepares input where
  sized glyph hmem := sized_place 0 _ glyph (List.mem_filter.mp hmem).1
  stop := strip_stop input
  sorted := (strip_ordered input).sorted.imp Nat.le_succ_of_le
  within := (strip_ordered input).within
  kept := List.filter_eq_self.mpr fun _ => typed_of_mem_strip
  written glyph after hsuffix htyped := by
    rw [typed_of_mem_strip (hsuffix.subset List.mem_cons_self)] at htyped
    cases htyped

section Products

variable {previous : Option Char} {input : String}

theorem typed_product (hopening : glyph.char = '(') (h : typed input glyph = true) :
    typed input ⟨'*', ⟨glyph.span.start, glyph.span.start + 1⟩⟩ = false := by
  refine decide_eq_false fun hmem => ?_
  have heq := eq_of_start_eq hmem (of_decide_eq_true h) rfl
  rw [← heq] at hopening
  cases hopening

/-- Characters, and the same with a `*` in front of some of the parentheses among them, each at the
place of its parenthesis. -/
inductive Starred : List Glyph → List Glyph → Prop
  | nil : Starred [] []
  | keep (glyph : Glyph) {text written : List Glyph} (rest : Starred text written) :
      Starred (glyph :: text) (glyph :: written)
  | product (glyph : Glyph) {text written : List Glyph} (opening : glyph.char = '(')
      (rest : Starred text written) :
      Starred (glyph :: text)
        (⟨'*', ⟨glyph.span.start, glyph.span.start + 1⟩⟩ :: glyph :: written)

theorem starred_insertProducts (previous : Option Char) (text : List Glyph) :
    Starred text (insertProducts previous text) := by
  induction text generalizing previous with
  | nil => exact .nil
  | cons glyph text ih =>
    by_cases hins : glyph.char = '(' ∧ endsFactor previous = true
    · rw [insertProducts_opening hins.1 hins.2]
      exact .product glyph hins.1 (ih _)
    · rw [insertProducts_cons hins]
      exact .keep glyph (ih _)

namespace Starred

variable {text written : List Glyph}

theorem exists_mem (h : Starred text written) (proper : Proper text)
    (hmem : glyph ∈ written) :
    ∃ other ∈ text, other.span.start = glyph.span.start ∧ glyph.span.stop ≤ other.span.stop := by
  induction h with
  | nil => cases hmem
  | keep first _ ih =>
    rcases List.mem_cons.mp hmem with rfl | hmem
    · exact ⟨glyph, List.mem_cons_self, rfl, Nat.le_refl _⟩
    · obtain ⟨other, hother, hplace⟩ := ih proper.tail hmem
      exact ⟨other, List.mem_cons_of_mem _ hother, hplace⟩
  | product first _ _ ih =>
    rcases List.mem_cons.mp hmem with rfl | hmem
    · exact ⟨first, List.mem_cons_self, rfl, proper first List.mem_cons_self⟩
    rcases List.mem_cons.mp hmem with rfl | hmem
    · exact ⟨glyph, List.mem_cons_self, rfl, Nat.le_refl _⟩
    · obtain ⟨other, hother, hplace⟩ := ih proper.tail hmem
      exact ⟨other, List.mem_cons_of_mem _ hother, hplace⟩

theorem sized (h : Starred text written) (sized : Sized text) : Sized written := by
  induction h with
  | nil => exact sized
  | keep first _ ih =>
    exact List.forall_mem_cons.mpr ⟨sized first List.mem_cons_self, ih sized.tail⟩
  | product first _ _ ih =>
    exact List.forall_mem_cons.mpr
      ⟨rfl, List.forall_mem_cons.mpr ⟨sized first List.mem_cons_self, ih sized.tail⟩⟩

/-- A `*` shares its byte with the parenthesis behind it, and no other character does. -/
theorem sorted (h : Starred text written) (proper : Proper text)
    (sorted : text.Pairwise fun a b => a.span.stop ≤ b.span.start) :
    written.Pairwise fun a b => a.span.stop ≤ b.span.start + 1 := by
  induction h with
  | nil => exact .nil
  | @keep first text written rest ih =>
    obtain ⟨hfirst, hrest⟩ := List.pairwise_cons.mp sorted
    have hproper := proper.tail
    refine .cons (fun other hother => ?_) (ih hproper hrest)
    obtain ⟨typed, htyped, hstart, -⟩ := rest.exists_mem hproper hother
    have := hfirst typed htyped
    omega
  | @product first text written _ rest ih =>
    obtain ⟨hfirst, hrest⟩ := List.pairwise_cons.mp sorted
    have hproper := proper.tail
    have hsize := proper first List.mem_cons_self
    have hbehind : ∀ other ∈ written, first.span.stop ≤ other.span.start := by
      intro other hother
      obtain ⟨typed, htyped, hstart, -⟩ := rest.exists_mem hproper hother
      have := hfirst typed htyped
      omega
    refine .cons (List.forall_mem_cons.mpr ⟨Nat.le_refl _, fun other hother => ?_⟩)
      (.cons (fun other hother => ?_) (ih hproper hrest))
    · have := hbehind other hother
      dsimp only
      omega
    · exact Nat.le_succ_of_le (hbehind other hother)

theorem kept (h : Starred text written) (htext : ∀ glyph ∈ text, typed input glyph = true) :
    written.filter (typed input) = text := by
  induction h with
  | nil => rfl
  | keep first _ ih =>
    obtain ⟨hfirst, hrest⟩ := List.forall_mem_cons.mp htext
    rw [List.filter_cons_of_pos hfirst, ih hrest]
  | product first opening _ ih =>
    obtain ⟨hfirst, hrest⟩ := List.forall_mem_cons.mp htext
    rw [List.filter_cons_of_neg (by simp [typed_product opening hfirst]),
      List.filter_cons_of_pos hfirst, ih hrest]

theorem opening {after : List Glyph} (h : Starred text written)
    (htext : ∀ glyph ∈ text, typed input glyph = true) (sized : Sized text)
    (hsuffix : glyph :: after <:+ written) (htyped : typed input glyph = false) :
    glyph.char = '*' ∧ ∃ next rest, after = next :: rest ∧ typed input next = true ∧
      next.char = '(' ∧ glyph.span = next.span := by
  induction h with
  | nil => cases List.suffix_nil.mp hsuffix
  | keep first _ ih =>
    obtain ⟨hfirst, hrest⟩ := List.forall_mem_cons.mp htext
    rcases List.suffix_cons_iff.mp hsuffix with heq | hsuffix
    · rw [(List.cons.inj heq).1, hfirst] at htyped
      cases htyped
    · exact ih hrest sized.tail hsuffix
  | product first opening _ ih =>
    obtain ⟨hfirst, hrest⟩ := List.forall_mem_cons.mp htext
    rcases List.suffix_cons_iff.mp hsuffix with heq | hsuffix
    · obtain ⟨rfl, rfl⟩ := List.cons.inj heq
      have hstop := sized first List.mem_cons_self
      rw [opening] at hstop
      refine ⟨rfl, first, _, rfl, hfirst, opening, ?_⟩
      exact congrArg (Span.mk first.span.start) hstop.symm
    rcases List.suffix_cons_iff.mp hsuffix with heq | hsuffix
    · rw [(List.cons.inj heq).1, hfirst] at htyped
      cases htyped
    · exact ih hrest sized.tail hsuffix

end Starred

theorem withProducts_prepares (input : String) : (strip input).withProducts.Prepares input := by
  have hsized := (strip_prepares input).sized
  have hproper : Proper (strip input).glyphs := (strip_ordered input).proper
  have htyped : ∀ glyph ∈ (strip input).glyphs, typed input glyph = true :=
    fun _ => typed_of_mem_strip
  have hstarred := starred_insertProducts none (strip input).glyphs
  refine ⟨hstarred.sized hsized, strip_stop input,
    hstarred.sorted hproper (strip_ordered input).sorted, fun glyph hmem => ?_,
    hstarred.kept htyped, fun glyph after => hstarred.opening htyped hsized⟩
  obtain ⟨other, hother, -, hstop⟩ := hstarred.exists_mem hproper hmem
  exact Nat.le_trans hstop ((strip_ordered input).within other hother)

/-- The entries of a map from one index up to another one, if it has all of them. -/
def entriesBetween (offsets : List Nat) (a b : Nat) : Option (List Nat) :=
  if b ≤ offsets.length then some ((offsets.take b).drop a) else none

/-- The map of a text with its products written out, from the map of the text without them: the
entries of every character are looked up at its bytes, and that of a `*` at the parenthesis behind
it. There is none if an index is out of range. -/
def starredOffsets (offsets : List Nat) : Nat → Option Char → List Char → Option (List Nat)
  | index, _, [] => do return [← offsets[index]?]
  | index, previous, c :: rest => do
    let own ← entriesBetween offsets index (index + c.utf8Size)
    let kept := own ++ (← starredOffsets offsets (index + c.utf8Size) (some c) rest)
    if c = '(' && endsFactor previous then return (← offsets[index]?) :: kept else return kept

theorem entriesBetween_offsets (sized : Sized source.glyphs)
    (h : source.glyphs = before ++ glyph :: after) :
    entriesBetween source.offsets (Glyphs.width before)
      (Glyphs.width before + glyph.char.utf8Size) = some (bytes [glyph]) := by
  rw [List.append_cons] at h
  have hentries : source.offsets =
      (bytes before ++ bytes [glyph]) ++ (bytes after ++ [source.stop]) := by
    rw [offsets_eq, h, bytes_append, bytes_append, List.append_assoc _ (bytes after)]
  rw [h] at sized
  have hbefore := length_bytes sized.front.front
  have hlength : (bytes before ++ bytes [glyph]).length =
      Glyphs.width before + glyph.char.utf8Size := by
    rw [List.length_append, hbefore, length_bytes sized.front.back]
    rfl
  rw [entriesBetween, hentries, if_pos, List.take_left' hlength, List.drop_left' hbefore]
  rw [List.length_append, hlength]
  exact Nat.le_add_right _ _

theorem starredOffsets_offsets {text : List Glyph} (sized : Sized source.glyphs)
    (h : source.glyphs = before ++ text) (previous : Option Char) :
    starredOffsets source.offsets (Glyphs.width before) previous (text.map Glyph.char) =
      some (bytes (insertProducts previous text) ++ [source.stop]) := by
  induction text generalizing before previous with
  | nil =>
    rw [List.append_nil] at h
    rw [← h, List.map_nil, starredOffsets, getElem?_offsets_stop sized]
    rfl
  | cons glyph text ih =>
    have hrest := ih (h.trans (List.append_cons before glyph text)) (some glyph.char)
    have hwidth : Glyphs.width (before ++ [glyph]) = Glyphs.width before + glyph.char.utf8Size :=
      width_append before [glyph]
    have hstart : source.offsets[Glyphs.width before]? = some glyph.span.start :=
      getElem?_offsets sized h glyph.char.utf8Size_pos
    rw [hwidth] at hrest
    rw [List.map_cons, starredOffsets, entriesBetween_offsets sized h, hrest]
    by_cases hins : glyph.char = '(' ∧ endsFactor previous = true
    · rw [insertProducts_opening hins.1 hins.2]
      simp [hins.1, hins.2, hstart, bytes]
    · rw [insertProducts_cons hins]
      simp [hins, bytes]

/-- Both passes over an input keep a map that leads back to it, and the second one finds every entry
that it looks up in the map of the first one. -/
theorem offsets_trace (input : String) :
    (strip input).Traces input ∧ (strip input).withProducts.Traces input ∧
      starredOffsets (strip input).offsets 0 none (strip input).chars =
        some (strip input).withProducts.offsets :=
  ⟨(strip_prepares input).traces, (withProducts_prepares input).traces,
    starredOffsets_offsets (strip_prepares input).sized (List.nil_append _).symm none⟩

example : (strip "2 ×x\u3000(x)").withProducts.offsets = [0, 2, 3, 4, 8, 8, 9, 10, 11] := by
  decide +kernel

end Products

end Source

end Calculator
