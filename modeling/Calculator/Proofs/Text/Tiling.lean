import Calculator.Proofs.Text.Matching
import Calculator.Proofs.Text.Regions

/-!
Tokens tile a text. Their characters are those of the text, in order, and every edge between two
tokens splits the text into two that are scanned apart: a match that ends at the edge does not see
what is behind it, and the scan starts anew there.
-/

set_option autoImplicit false
set_option relaxedAutoImplicit false

namespace Calculator

/-- The region from the start of the first of some regions to the end of the last one. -/
structure Span.IsExtent (span : Span) (parts : List Span) : Prop where
  start : parts.head?.map Span.start = some span.start
  stop : parts.getLast?.map Span.stop = some span.stop

namespace Span.IsExtent

variable {span first last : Span} {parts others between : List Span}

theorem single (span : Span) : span.IsExtent [span] := ⟨rfl, rfl⟩

theorem through (first last : Span) (between : List Span) :
    (Span.through first last).IsExtent (first :: (between ++ [last])) := by
  refine ⟨rfl, ?_⟩
  rw [← List.cons_append, List.getLast?_concat]
  rfl

theorem ne_nil (h : span.IsExtent parts) : parts ≠ [] := by
  rintro rfl
  cases h.start

theorem unique (h : span.IsExtent parts) (h' : first.IsExtent parts) : first = span := by
  have hstart : first.start = span.start := Option.some.inj (h'.start.symm.trans h.start)
  have hstop : first.stop = span.stop := Option.some.inj (h'.stop.symm.trans h.stop)
  cases first
  cases span
  simp_all

theorem append {left right : Span} (hleft : left.IsExtent parts) (hright : right.IsExtent others) :
    (Span.through left right).IsExtent (parts ++ (between ++ others)) where
  start := by
    rw [List.head?_append_of_ne_nil _ hleft.ne_nil]
    exact hleft.start
  stop := by
    rw [← List.append_assoc, List.getLast?_append_of_ne_nil _ hright.ne_nil]
    exact hright.stop

end Span.IsExtent

def Tokens.chars {κ : Type} (tokens : List (Token κ)) : List Char := tokens.flatMap Token.lexeme

theorem Tokens.chars_nil {κ : Type} : Tokens.chars ([] : List (Token κ)) = [] := rfl

theorem Tokens.chars_cons {κ : Type} (token : Token κ) (tokens : List (Token κ)) :
    Tokens.chars (token :: tokens) = token.lexeme ++ Tokens.chars tokens := List.flatMap_cons

theorem Tokens.chars_append {κ : Type} (front back : List (Token κ)) :
    Tokens.chars (front ++ back) = Tokens.chars front ++ Tokens.chars back := List.flatMap_append

namespace Lexicon

variable {κ : Type} {lexicon : Lexicon κ} {text : List Glyph} {token : Token κ}
  {before middle after : List (Token κ)}

theorem chars_scanFrom (lexicon : Lexicon κ) (text : List Glyph) :
    Tokens.chars (lexicon.scanFrom 0 text) = text.map Glyph.char := by
  induction text using scan_induction with
  | nil => rfl
  | cons glyph text ih =>
    cases hl : lexicon.longest (glyph :: text) with
    | mk kind length =>
      rw [scanFrom_cons hl, Tokens.chars_cons, ih, tokenOf, List.cons_append, ← List.map_append,
        List.take_append_drop, List.map_cons]

theorem lexeme_ne_nil (h : token ∈ lexicon.scanFrom 0 text) : token.lexeme ≠ [] := by
  induction text using scan_induction with
  | nil => cases h
  | cons glyph text ih =>
    cases hl : lexicon.longest (glyph :: text) with
    | mk kind length =>
      rw [scanFrom_cons hl] at h
      rcases List.mem_cons.mp h with rfl | h
      · exact List.cons_ne_nil _ _
      · exact ih _ h

/-- An edge between two tokens splits the text into two that are scanned apart. -/
theorem scanFrom_split (h : lexicon.scanFrom 0 text = before ++ after) :
    ∃ front back, text = front ++ back ∧ lexicon.scanFrom 0 front = before ∧
      lexicon.scanFrom 0 back = after := by
  induction before generalizing text with
  | nil => exact ⟨[], text, rfl, rfl, h⟩
  | cons token before ih =>
    cases text with
    | nil => cases h
    | cons glyph text =>
      cases hl : lexicon.longest (glyph :: text) with
      | mk kind length =>
        rw [scanFrom_cons hl] at h
        obtain ⟨rfl, htail⟩ := List.cons.inj h
        obtain ⟨front, back, hsplit, hfront, hback⟩ := ih htail
        have htext : text = (text.take (length - 1) ++ front) ++ back := by
          rw [List.append_assoc, ← hsplit, List.take_append_drop]
        have htake : (text.take (length - 1)).length = length - 1 := by
          have := length_le_of_longest hl
          rw [List.length_cons] at this
          exact List.length_take_of_le (by omega)
        have hmatch : lexicon.longest (glyph :: (text.take (length - 1) ++ front)) =
            (kind, length) := by
          rw [htext, ← List.cons_append] at hl
          refine longest_of_append hl ?_
          rw [List.length_cons, List.length_append, htake]
          omega
        refine ⟨glyph :: (text.take (length - 1) ++ front), back, ?_, ?_, hback⟩
        · rw [List.cons_append, ← htext]
        · rw [scanFrom_cons hmatch, List.take_left' htake, List.drop_left' htake, hfront]

/-- Tokens that follow one another are the tokens of the text they cover. -/
theorem scanFrom_part (h : lexicon.scanFrom 0 text = before ++ (middle ++ after)) :
    ∃ front part back, text = front ++ (part ++ back) ∧ lexicon.scanFrom 0 part = middle := by
  obtain ⟨front, rest, htext, -, hrest⟩ := scanFrom_split h
  obtain ⟨part, back, rfl, hpart, -⟩ := scanFrom_split hrest
  exact ⟨front, part, back, htext, hpart⟩

theorem takes_of_scanFrom (kinds : lexicon.Unambiguous)
    (h : lexicon.scanFrom 0 text = before ++ token :: after) :
    lexicon.Takes (Tokens.chars (token :: after)) token.kind token.lexeme := by
  obtain ⟨-, rest, -, -, hrest⟩ := scanFrom_split h
  rw [← hrest, chars_scanFrom]
  cases rest with
  | nil => cases hrest
  | cons glyph rest =>
    cases hl : lexicon.longest (glyph :: rest) with
    | mk kind length =>
      rw [scanFrom_cons hl] at hrest
      obtain ⟨rfl, -⟩ := List.cons.inj hrest
      exact takes_of_longest kinds hl

theorem head?_spans_scanFrom (lexicon : Lexicon κ) (text : List Glyph) :
    (Tokens.spans (lexicon.scanFrom 0 text)).head?.map Span.start =
      (Glyphs.spans text).head?.map Span.start := by
  cases text with
  | nil => rfl
  | cons glyph text =>
    cases hl : lexicon.longest (glyph :: text) with
    | mk kind length =>
      rw [scanFrom_cons hl]
      rfl

theorem getLast?_spans_scanFrom (lexicon : Lexicon κ) (text : List Glyph) :
    (Tokens.spans (lexicon.scanFrom 0 text)).getLast?.map Span.stop =
      (Glyphs.spans text).getLast?.map Span.stop := by
  induction text using scan_induction with
  | nil => rfl
  | cons glyph text ih =>
    cases hl : lexicon.longest (glyph :: text) with
    | mk kind length =>
      have hrest := ih (length - 1)
      have htext : (Glyphs.spans text).getLast? =
          (Glyphs.spans (text.drop (length - 1))).getLast?.or
            (Glyphs.spans (text.take (length - 1))).getLast? := by
        rw [← List.getLast?_append, ← List.map_append, List.take_append_drop]
      have htoken : (tokenOf kind glyph (text.take (length - 1))).span.stop =
          ((Glyphs.spans (text.take (length - 1))).getLast?.getD glyph.span).stop := by
        rw [tokenOf, List.getLast?_map, Option.getD_map]
        rfl
      rw [scanFrom_cons hl, Tokens.spans, List.map_cons, List.getLast?_cons, Glyphs.spans,
        List.map_cons, List.getLast?_cons, htext]
      rw [Tokens.spans] at hrest
      cases hlast : (Glyphs.spans (text.drop (length - 1))).getLast? with
      | none =>
        rw [hlast] at hrest
        rw [Option.map_eq_none_iff.mp hrest]
        exact congrArg some htoken
      | some last =>
        rw [hlast] at hrest
        obtain ⟨span, hspan, hstop⟩ := Option.map_eq_some_iff.mp hrest
        rw [hspan]
        exact congrArg some hstop

theorem isExtent_scanFrom {span : Span} :
    span.IsExtent (Tokens.spans (lexicon.scanFrom 0 text)) ↔ span.IsExtent (Glyphs.spans text) := by
  constructor
  · rintro ⟨hstart, hstop⟩
    exact ⟨(head?_spans_scanFrom lexicon text).symm.trans hstart,
      (getLast?_spans_scanFrom lexicon text).symm.trans hstop⟩
  · rintro ⟨hstart, hstop⟩
    exact ⟨(head?_spans_scanFrom lexicon text).trans hstart,
      (getLast?_spans_scanFrom lexicon text).trans hstop⟩

theorem isExtent_of_scanFrom (h : lexicon.scanFrom 0 text = [token]) :
    token.span.IsExtent (Glyphs.spans text) := by
  have hspan : token.span.IsExtent (Tokens.spans (lexicon.scanFrom 0 text)) :=
    h ▸ .single token.span
  exact isExtent_scanFrom.mp hspan

/-- A text is read without loss: its tokens are not empty and have its characters in order, each is
the one at the front of what is left of the text, and what some of them cover, wherever it stands,
is read as the same tokens. -/
structure Reads (lexicon : Lexicon κ) (source : Source) : Prop where
  ne_nil : ∀ token ∈ lexicon.scan source, token.lexeme ≠ []
  whole : Tokens.chars (lexicon.scan source) = source.chars
  front : ∀ before token after, lexicon.scan source = before ++ token :: after →
    lexicon.Takes (Tokens.chars (token :: after)) token.kind token.lexeme
  parts : ∀ before middle after, lexicon.scan source = before ++ (middle ++ after) →
    ∀ part : Source, part.chars = Tokens.chars middle →
      (lexicon.scan part).map (fun token => (token.kind, token.lexeme)) =
        middle.map fun token => (token.kind, token.lexeme)

/-- Tokens that follow one another are read again from a text with their characters. -/
theorem scan_alike_of_chars_eq {source part : Source}
    (h : lexicon.scan source = before ++ (middle ++ after))
    (chars : part.chars = Tokens.chars middle) :
    ∃ places, Tokens.Alike places middle (lexicon.scan part) := by
  obtain ⟨-, text, -, -, rfl⟩ := scanFrom_part h
  have hchars : (Source.mk text 0).chars = part.chars :=
    (chars_scanFrom lexicon text).symm.trans chars.symm
  exact ⟨_, (Source.alike_of_chars_eq hchars).scan lexicon⟩

theorem map_kind_lexeme_of_alike {places : Places} {tokens others : List (Token κ)}
    (h : Tokens.Alike places tokens others) :
    others.map (fun token => (token.kind, token.lexeme)) =
      tokens.map fun token => (token.kind, token.lexeme) := by
  induction h with
  | nil => rfl
  | cons head _ ih => rw [List.map_cons, List.map_cons, head.kind, head.lexeme, ih]

theorem reads (kinds : lexicon.Unambiguous) (source : Source) : lexicon.Reads source where
  ne_nil _ := lexeme_ne_nil
  whole := chars_scanFrom lexicon source.glyphs
  front _ _ _ := takes_of_scanFrom kinds
  parts _ _ _ h _ chars := by
    obtain ⟨places, halike⟩ := scan_alike_of_chars_eq h chars
    exact map_kind_lexeme_of_alike halike

end Lexicon

end Calculator
