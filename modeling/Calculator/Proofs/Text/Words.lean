import Calculator.Proofs.Text.Scanning

/-!
Lexicons that are a pattern for numbers and a table of words. What has to be known about the words
is a property of every entry of the table, checked by going through it. A word that begins no other
one is then the longest match wherever it stands, and no word stands where a number does.
-/

set_option autoImplicit false
set_option relaxedAutoImplicit false

namespace Calculator.Lexicon

variable {κ : Type} {lexicon : Lexicon κ} {number : κ} {glyph : Glyph} {text : List Glyph}

/-- The pattern for numbers comes first, and no word starts like a number. -/
structure IsTable (lexicon : Lexicon κ) (number : κ) : Prop where
  entries_eq : lexicon.entries =
    (.run Pattern.isNumeral, number) :: lexicon.words.map fun entry => (.word entry.1, entry.2)
  ne_nil : ∀ entry ∈ lexicon.words, entry.1 ≠ []
  head : ∀ entry ∈ lexicon.words, entry.1.head?.any Pattern.isNumeral = false

namespace IsTable

theorem forall_entries (table : lexicon.IsTable number) {P : Pattern × κ → Prop}
    (numeral : P (.run Pattern.isNumeral, number))
    (word : ∀ entry ∈ lexicon.words, P (.word entry.1, entry.2)) :
    ∀ entry ∈ lexicon.entries, P entry := by
  intro entry h
  rw [table.entries_eq] at h
  rcases List.mem_cons.mp h with rfl | h
  · exact numeral
  · obtain ⟨entry, hmem, rfl⟩ := List.mem_map.mp h
    exact word entry hmem

theorem isNumeral_of_word (table : lexicon.IsTable number) {entry : List Char × κ}
    (hmem : entry ∈ lexicon.words) (h : entry.1 <+: (glyph :: text).map Glyph.char) :
    Pattern.isNumeral glyph.char = false := by
  have hne := table.ne_nil entry hmem
  have hhead := table.head entry hmem
  cases hw : entry.1 with
  | nil => exact absurd hw hne
  | cons c letters =>
    rw [hw] at h hhead
    obtain ⟨rfl, -⟩ := List.cons_prefix_cons.mp h
    exact hhead

theorem longest_numeral (table : lexicon.IsTable number)
    (h : Pattern.isNumeral glyph.char = true) :
    lexicon.longest (glyph :: text) =
      (number, (Pattern.run Pattern.isNumeral).matchLength (glyph :: text)) := by
  have hzero : ∀ entry ∈ lexicon.words, (Pattern.word entry.1).matchLength (glyph :: text) = 0 := by
    intro entry hmem
    by_contra hne
    have hp := Pattern.prefix_of_matchLength_pos (Nat.pos_of_ne_zero hne)
    rw [table.isNumeral_of_word hmem hp] at h
    cases h
  have hfirst : (Pattern.run Pattern.isNumeral, number) ∈ lexicon.entries := by
    rw [table.entries_eq]
    exact List.mem_cons_self
  refine longest_eq_of_alone hfirst ((Pattern.matchLength_run_pos text).mpr h) ?_
  exact table.forall_entries (.inl rfl) fun entry hmem => .inr (hzero entry hmem)

theorem longest_word (table : lexicon.IsTable number) {entry : List Char × κ}
    (hmem : entry ∈ lexicon.words)
    (alone : ∀ other ∈ lexicon.words, entry.1 <+: other.1 → other = entry)
    (h : entry.1 <+: (glyph :: text).map Glyph.char) :
    lexicon.longest (glyph :: text) = (entry.2, entry.1.length) := by
  have hlength := Pattern.matchLength_word h
  have hnumber := Pattern.matchLength_run_cons text (table.isNumeral_of_word hmem h)
  have hpos := List.length_pos_iff.mpr (table.ne_nil entry hmem)
  have hword : ∀ other ∈ lexicon.words, 0 < (Pattern.word other.1).matchLength (glyph :: text) →
      other = entry ∨ (Pattern.word other.1).matchLength (glyph :: text) < entry.1.length := by
    intro other hother hpos
    have hp := Pattern.prefix_of_matchLength_pos hpos
    rw [Pattern.matchLength_word hp]
    rcases Nat.lt_or_ge other.1.length entry.1.length with hlt | hge
    · exact .inr hlt
    · exact .inl (alone other hother (List.prefix_of_prefix_length_le h hp hge))
  rw [← hlength] at hpos hword ⊢
  refine longest_eq_of_forall_le (mem_entries_of_mem_words hmem) hpos ?_ ?_
  · refine table.forall_entries ?_ fun other hother => ?_
    · rw [hnumber]
      exact Nat.zero_le _
    · rcases Nat.eq_zero_or_pos ((Pattern.word other.1).matchLength (glyph :: text)) with hz | hp
      · rw [hz]
        exact Nat.zero_le _
      · rcases hword other hother hp with rfl | hlt
        · exact Nat.le_refl _
        · exact Nat.le_of_lt hlt
  · refine table.forall_entries (fun heq => ?_) fun other hother heq => ?_
    · rw [hnumber] at heq
      exact absurd heq (Nat.ne_of_lt hpos)
    · rcases hword other hother (heq ▸ hpos) with rfl | hlt
      · rfl
      · exact absurd heq (Nat.ne_of_lt hlt)

theorem scanFrom_mark (table : lexicon.IsTable number) {c : Char} {kind : κ}
    (hmem : ([c], kind) ∈ lexicon.words)
    (alone : ∀ other ∈ lexicon.words, [c] <+: other.1 → other = ([c], kind))
    (hc : glyph.char = c) (rest : List Glyph) :
    lexicon.scanFrom 0 (glyph :: rest) = tokenOf kind glyph [] :: lexicon.scanFrom 0 rest := by
  have hprefix : [c] <+: (glyph :: rest).map Glyph.char := by simp [hc]
  exact scanFrom_cons (table.longest_word hmem alone hprefix)

theorem scanFrom_numeral (table : lexicon.IsTable number) (text rest : List Glyph)
    (hne : text ≠ []) (h : ∀ glyph ∈ text, Pattern.isNumeral glyph.char = true)
    (hrest : ∀ glyph ∈ rest.head?, Pattern.isNumeral glyph.char = false) :
    ∃ token, lexicon.scanFrom 0 (text ++ rest) = token :: lexicon.scanFrom 0 rest ∧
      token.kind = number ∧ token.lexeme = text.map Glyph.char := by
  have hlength : (Pattern.run Pattern.isNumeral).matchLength (text ++ rest) = text.length :=
    Pattern.matchLength_run_of_forall hne h hrest
  have hpos : 0 < text.length := List.length_pos_iff.mpr hne
  refine scanFrom_append_of_longest ?_ (Nat.sub_add_cancel hpos).symm
  obtain ⟨glyph, text, rfl⟩ := List.exists_cons_of_ne_nil hne
  rw [List.cons_append, table.longest_numeral (h glyph List.mem_cons_self)]
  exact congrArg (Prod.mk number) hlength

end IsTable

end Calculator.Lexicon
