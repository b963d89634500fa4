import Calculator.Proofs.Text.Tiling
import Mathlib.Data.String.Basic

/-!
Parts of an input. A region that covers some of the characters that are left of an input without its
blanks starts and ends with a character of the input; the part of the input that is cut out there
has these characters again, and is read as the tokens that they make.
-/

set_option autoImplicit false
set_option relaxedAutoImplicit false

namespace Calculator

def Span.cut (span : Span) (input : String) : String :=
  String.Pos.Raw.extract input ⟨span.start⟩ ⟨span.stop⟩

/-- The members with a property that follow one another are those of a part of the list that starts
and ends with members. -/
theorem exists_of_filter_eq {α : Type} {p : α → Bool} {text before part after : List α}
    (h : text.filter p = before ++ (part ++ after)) (hne : part ≠ []) :
    ∃ front middle back, text = front ++ (middle ++ back) ∧ middle.filter p = part ∧
      middle.head? = part.head? ∧ middle.getLast? = part.getLast? := by
  obtain ⟨front, rest, rfl, -, hrest⟩ := List.filter_eq_append_iff.mp h
  obtain ⟨first, part, rfl⟩ := List.exists_cons_of_ne_nil hne
  rw [List.cons_append] at hrest
  obtain ⟨skipped, rest, rfl, -, hfirst, hrest⟩ := List.filter_eq_cons_iff.mp hrest
  rcases List.eq_nil_or_concat' part with rfl | ⟨between, last, rfl⟩
  · exact ⟨front ++ skipped, [first], rest, by simp, by simp [hfirst], rfl, rfl⟩
  · have hbetween : rest.filter p = between ++ last :: after := by
      rw [hrest, List.append_assoc, List.singleton_append]
    obtain ⟨between, rest, rfl, rfl, htail⟩ := List.filter_eq_append_iff.mp hbetween
    obtain ⟨skipped', back, rfl, hskipped, hlast, -⟩ := List.filter_eq_cons_iff.mp htail
    have hnone : skipped'.filter p = [] := List.filter_eq_nil_iff.mpr hskipped
    refine ⟨front ++ skipped, first :: (between ++ (skipped' ++ [last])), back, ?_, ?_, rfl, ?_⟩
    · simp
    · simp [hfirst, hnone, hlast]
    · simp [List.getLast?_cons]

namespace Source

theorem byteLength_append (front back : List Char) :
    byteLength (front ++ back) = byteLength front + byteLength back := by
  induction front with
  | nil => exact (Nat.zero_add _).symm
  | cons c front ih => rw [List.cons_append, byteLength_cons, byteLength_cons, ih, Nat.add_assoc]

theorem place_append (offset : Nat) (front back : List Char) :
    place offset (front ++ back) =
      place offset front ++ place (offset + byteLength front) back := by
  induction front generalizing offset with
  | nil => rfl
  | cons c front ih =>
    rw [List.cons_append, place, place, ih, byteLength_cons, Nat.add_assoc, List.cons_append]

theorem place_eq_append {offset : Nat} {text : List Char} {front back : List Glyph}
    (h : place offset text = front ++ back) :
    ∃ head tail, text = head ++ tail ∧ front = place offset head ∧
      back = place (offset + byteLength head) tail := by
  have htext : text = front.map Glyph.char ++ back.map Glyph.char := by
    rw [← List.map_append, ← h, map_char_place]
  have hlength : front.length = (place offset (front.map Glyph.char)).length := by
    have hchars := congrArg List.length (map_char_place offset (front.map Glyph.char))
    rw [List.length_map, List.length_map] at hchars
    exact hchars.symm
  rw [htext, place_append] at h
  obtain ⟨hfront, hback⟩ := List.append_inj h.symm hlength
  exact ⟨_, _, htext, hfront, hback⟩

theorem isExtent_place (offset : Nat) {text : List Char} (hne : text ≠ []) :
    (Span.mk offset (offset + byteLength text)).IsExtent (Glyphs.spans (place offset text)) := by
  obtain ⟨before, last, rfl⟩ := (List.eq_nil_or_concat' text).resolve_left hne
  constructor
  · cases before <;> rfl
  · rw [place_append, byteLength_append, ← Nat.add_assoc]
    simp [place, byteLength]

theorem cut_between (front middle back : List Char) :
    (Span.mk (byteLength front) (byteLength front + byteLength middle)).cut
      (String.ofList (front ++ (middle ++ back))) = String.ofList middle := by
  have hbytes (text : List Char) : byteLength text = String.utf8Len text := by
    rw [byteLength_eq, String.utf8ByteSize_ofList]
  rw [Span.cut, hbytes, hbytes, ← List.append_assoc]
  exact String.extract_of_valid front middle back

variable {input : String} {span : Span} {before part after : List Glyph} {glyph : Glyph}

theorem exists_between (h : (strip input).glyphs = before ++ (part ++ after))
    (extent : span.IsExtent (Glyphs.spans part)) :
    ∃ front middle back, input = String.ofList (front ++ (middle ++ back)) ∧
      span = ⟨byteLength front, byteLength front + byteLength middle⟩ ∧
      middle.filter (fun c => !Text.isBlank c) = part.map Glyph.char := by
  have hne : part ≠ [] := fun hnil => extent.ne_nil (congrArg Glyphs.spans hnil)
  obtain ⟨front, middle, back, htext, rfl, hhead, hlast⟩ := exists_of_filter_eq h hne
  obtain ⟨front, rest, hinput, rfl, hrest⟩ := place_eq_append htext
  obtain ⟨middle, back, rfl, rfl, rfl⟩ := place_eq_append hrest.symm
  have hmiddle : middle ≠ [] := by
    rintro rfl
    exact hne rfl
  have hspan : span.IsExtent (Glyphs.spans (place (0 + byteLength front) middle)) := by
    refine ⟨?_, ?_⟩
    · rw [List.head?_map, hhead, ← List.head?_map]
      exact extent.start
    · rw [List.getLast?_map, hlast, ← List.getLast?_map]
      exact extent.stop
  refine ⟨front, middle, back, ?_, ?_, ?_⟩
  · rw [← hinput, String.ofList_toList]
  · have hextent := isExtent_place (0 + byteLength front) hmiddle
    rw [hextent.unique hspan, Nat.zero_add]
  · conv_lhs => rw [← map_char_place (0 + byteLength front) middle, List.filter_map]
    rfl

theorem cut_filter (h : (strip input).glyphs = before ++ (part ++ after))
    (extent : span.IsExtent (Glyphs.spans part)) :
    (span.cut input).toList.filter (fun c => !Text.isBlank c) = part.map Glyph.char := by
  obtain ⟨front, middle, back, rfl, rfl, hmiddle⟩ := exists_between h extent
  rw [cut_between, String.toList_ofList, hmiddle]

theorem fits_of_isExtent (h : (strip input).glyphs = before ++ (part ++ after))
    (extent : span.IsExtent (Glyphs.spans part)) :
    span.Fits (Boundary input) input.utf8ByteSize := by
  obtain ⟨front, middle, back, rfl, rfl, -⟩ := exists_between h extent
  have hstop := boundary_byteLength (front ++ middle) back
  rw [List.append_assoc, byteLength_append] at hstop
  refine ⟨Nat.le_add_right _ _, ?_, boundary_byteLength front (middle ++ back), hstop⟩
  rw [← byteLength_eq, byteLength_append, byteLength_append, ← Nat.add_assoc]
  exact Nat.le_add_right _ _

theorem start_lt_stop_of_isExtent (h : (strip input).glyphs = before ++ (part ++ after))
    (extent : span.IsExtent (Glyphs.spans part)) : span.start < span.stop := by
  obtain ⟨front, middle, back, rfl, rfl, hmiddle⟩ := exists_between h extent
  match middle with
  | [] =>
    refine absurd ?_ extent.ne_nil
    rw [Glyphs.spans, List.map_eq_nil_iff.mp hmiddle.symm]
    rfl
  | c :: middle =>
    have hpos := c.utf8Size_pos
    simp only [byteLength_cons]
    omega

theorem cut_of_mem_place (h : glyph ∈ place 0 input.toList) :
    glyph.span.cut input = String.ofList [glyph.char] := by
  obtain ⟨front, back, hsplit⟩ := List.append_of_mem h
  obtain ⟨front, rest, hinput, rfl, hrest⟩ := place_eq_append hsplit
  cases rest with
  | nil => cases hrest
  | cons c rest =>
    obtain ⟨rfl, rfl⟩ := List.cons.inj hrest
    have hcut := cut_between front [c] rest
    rw [List.singleton_append, ← hinput, String.ofList_toList] at hcut
    rwa [Nat.zero_add]

section Tokens

variable {κ : Type} {lexicon : Lexicon κ} {tokens front middle back : List (Token κ)}

theorem chars_cut (h : lexicon.scan (strip input) = front ++ (middle ++ back))
    (extent : span.IsExtent (Tokens.spans middle)) :
    (strip (span.cut input)).chars = Tokens.chars middle := by
  obtain ⟨before, part, after, hglyphs, rfl⟩ := Lexicon.scanFrom_part h
  rw [chars_strip, Lexicon.chars_scanFrom]
  exact cut_filter hglyphs (Lexicon.isExtent_scanFrom.mp extent)

theorem fits_of_scan (h : lexicon.scan (strip input) = front ++ (middle ++ back))
    (extent : span.IsExtent (Tokens.spans middle)) :
    span.Fits (Boundary input) input.utf8ByteSize := by
  obtain ⟨before, part, after, hglyphs, rfl⟩ := Lexicon.scanFrom_part h
  exact fits_of_isExtent hglyphs (Lexicon.isExtent_scanFrom.mp extent)

theorem start_lt_stop_of_scan (h : lexicon.scan (strip input) = front ++ (middle ++ back))
    (extent : span.IsExtent (Tokens.spans middle)) : span.start < span.stop := by
  obtain ⟨before, part, after, hglyphs, rfl⟩ := Lexicon.scanFrom_part h
  exact start_lt_stop_of_isExtent hglyphs (Lexicon.isExtent_scanFrom.mp extent)

theorem scan_cut (h : lexicon.scan (strip input) = front ++ (middle ++ back))
    (extent : span.IsExtent (Tokens.spans middle)) :
    ∃ places, Tokens.Alike places middle (lexicon.scan (strip (span.cut input))) :=
  Lexicon.scan_alike_of_chars_eq h (chars_cut h extent)

theorem cut_of_lexeme {token : Token κ} {c : Char}
    (h : lexicon.scan (strip input) = front ++ token :: back) (lexeme : token.lexeme = [c]) :
    token.span.cut input = String.ofList [c] := by
  rw [← List.singleton_append] at h
  obtain ⟨before, part, after, hglyphs, hpart⟩ := Lexicon.scanFrom_part h
  have hchars : part.map Glyph.char = [c] := by
    rw [← Lexicon.chars_scanFrom lexicon, hpart, Tokens.chars_cons, lexeme]
    rfl
  obtain ⟨glyph, rfl, rfl⟩ := List.map_eq_singleton_iff.mp hchars
  rw [(Span.IsExtent.single glyph.span).unique (Lexicon.isExtent_of_scanFrom hpart)]
  have hmem : glyph ∈ (strip input).glyphs := by
    rw [hglyphs]
    simp
  exact cut_of_mem_place (List.mem_filter.mp hmem).1

end Tokens

end Source

end Calculator
