import Calculator.Proofs.Text.Words

/-!
What a token is, apart from any way of finding it. A pattern has texts that match it; the token at
the front of a text is the longest of its beginnings that matches a pattern, and its first character
where no beginning does. The match that a lexicon decides on is that token.
-/

set_option autoImplicit false
set_option relaxedAutoImplicit false

namespace Calculator

namespace Pattern

variable {pattern : Pattern} {letters : List Char} {text : List Glyph}

/-- The texts of a pattern, none of them empty: characters of the class of a run, and the word
itself. -/
def Matches : Pattern → List Char → Prop
  | .run belongs, letters => letters ≠ [] ∧ ∀ c ∈ letters, belongs c = true
  | .word expected, letters => letters ≠ [] ∧ letters = expected

theorem Matches.ne_nil (h : pattern.Matches letters) : letters ≠ [] := by
  cases pattern with
  | run belongs => exact h.1
  | word expected => exact h.1

theorem matches_single (c : Char) : (single c).Matches [c] := ⟨List.cons_ne_nil _ _, rfl⟩

theorem matches_of_matchLength_pos (h : 0 < pattern.matchLength text) :
    pattern.Matches ((text.take (pattern.matchLength text)).map Glyph.char) := by
  have hne : (text.take (pattern.matchLength text)).map Glyph.char ≠ [] := by
    refine List.ne_nil_of_length_pos ?_
    rw [List.length_map, List.length_take]
    exact Nat.lt_min.mpr ⟨h, Nat.lt_of_lt_of_le h (pattern.matchLength_le text)⟩
  cases pattern with
  | run belongs =>
    refine ⟨hne, fun c hc => ?_⟩
    obtain ⟨glyph, hmem, rfl⟩ := List.mem_map.mp hc
    exact belongs_of_mem_take hmem
  | word expected => exact ⟨hne, map_take_of_word h⟩

theorem length_le_matchLength (h : pattern.Matches letters)
    (front : letters <+: text.map Glyph.char) : letters.length ≤ pattern.matchLength text := by
  cases pattern with
  | run belongs =>
    obtain ⟨rest, hrest⟩ := front
    have hlength : (run belongs).matchLength text =
        ((text.map Glyph.char).takeWhile belongs).length := by
      rw [List.takeWhile_map, List.length_map]
      rfl
    rw [hlength, ← hrest, List.takeWhile_append_of_pos h.2, List.length_append]
    exact Nat.le_add_right _ _
  | word expected =>
    obtain ⟨-, rfl⟩ := h
    exact Nat.le_of_eq (matchLength_word front).symm

theorem matchLength_of_append_le {rest : List Glyph}
    (h : pattern.matchLength (text ++ rest) ≤ text.length) :
    pattern.matchLength text = pattern.matchLength (text ++ rest) := by
  cases pattern with
  | run belongs =>
    simp only [matchLength, List.takeWhile_append] at h ⊢
    split at h
    · next hall =>
      rw [if_pos hall]
      rw [List.length_append] at h
      rw [List.length_append]
      omega
    · next hall => rw [if_neg hall]
  | word expected =>
    have hiff : expected <+: text.map Glyph.char ↔ expected <+: (text ++ rest).map Glyph.char := by
      rw [List.map_append]
      refine ⟨fun hw => hw.trans (List.prefix_append _ _), fun hw => ?_⟩
      refine List.prefix_of_prefix_length_le hw (List.prefix_append _ _) ?_
      rw [List.length_map]
      rwa [matchLength_word (by rwa [List.map_append])] at h
    have hstarts : startsWith expected text = startsWith expected (text ++ rest) := by
      rw [Bool.eq_iff_iff, startsWith_iff, startsWith_iff, hiff]
    simp only [matchLength, hstarts]

end Pattern

namespace Lexicon

variable {κ : Type} {lexicon : Lexicon κ} {glyph : Glyph} {text rest : List Glyph}

/-- Patterns with a text in common have one kind. -/
def Unambiguous (lexicon : Lexicon κ) : Prop :=
  ∀ entry ∈ lexicon.entries, ∀ other ∈ lexicon.entries, ∀ letters,
    entry.1.Matches letters → other.1.Matches letters → entry.2 = other.2

/-- The token at the front of a text: its longest beginning that matches a pattern, with the kind of
every pattern that it matches, or a symbol of one character if no beginning matches any. -/
inductive Takes (lexicon : Lexicon κ) (text : List Char) : κ → List Char → Prop
  | longest {kind : κ} {lexeme : List Char} (front : lexeme <+: text)
      (matched : ∃ entry ∈ lexicon.entries, entry.1.Matches lexeme)
      (kinds : ∀ entry ∈ lexicon.entries, entry.1.Matches lexeme → entry.2 = kind)
      (maximal : ∀ entry ∈ lexicon.entries, ∀ letters, letters <+: text →
        entry.1.Matches letters → letters.length ≤ lexeme.length) :
      Takes lexicon text kind lexeme
  | symbol {c : Char} (front : [c] <+: text)
      (unmatched : ∀ entry ∈ lexicon.entries, ∀ letters, letters <+: text →
        ¬entry.1.Matches letters) :
      Takes lexicon text lexicon.symbol [c]

theorem lexeme_tokenOf_of_pos {kind : κ} {length : Nat} (h : 0 < length) :
    (tokenOf kind glyph (text.take (length - 1))).lexeme =
      ((glyph :: text).take length).map Glyph.char := by
  rw [tokenOf, ← List.map_cons, ← List.take_succ_cons, Nat.sub_add_cancel h]

theorem takes_of_longest {kind : κ} {length : Nat} (kinds : lexicon.Unambiguous)
    (h : lexicon.longest (glyph :: text) = (kind, length)) :
    lexicon.Takes ((glyph :: text).map Glyph.char) kind
      (tokenOf kind glyph (text.take (length - 1))).lexeme := by
  rcases lexicon.longest_cases (glyph :: text) with ⟨hs, hzero⟩ | ⟨entry, hmem, hs, hpos⟩
  · obtain ⟨rfl, rfl⟩ := Prod.mk.inj (h.symm.trans hs)
    refine .symbol (by simp) fun entry hmem letters hfront hmatch => ?_
    have hle := Pattern.length_le_matchLength hmatch hfront
    rw [hzero entry hmem] at hle
    exact hmatch.ne_nil (List.eq_nil_of_length_eq_zero (Nat.le_zero.mp hle))
  · obtain ⟨rfl, rfl⟩ := Prod.mk.inj (h.symm.trans hs)
    have hmatch := Pattern.matches_of_matchLength_pos hpos
    rw [lexeme_tokenOf_of_pos hpos]
    refine .longest ((List.take_prefix _ _).map _) ⟨entry, hmem, hmatch⟩
      (fun other hother hm => kinds other hother entry hmem _ hm hmatch) ?_
    intro other hother letters hfront hm
    have hle := Pattern.length_le_matchLength hm hfront
    have hother := matchLength_le_longest (glyph :: text) hother
    rw [h] at hother
    rw [List.length_map, List.length_take, Nat.min_eq_left (entry.1.matchLength_le _)]
    exact Nat.le_trans hle hother

theorem longest_of_append {kind : κ} {length : Nat}
    (h : lexicon.longest (text ++ rest) = (kind, length)) (hle : length ≤ text.length) :
    lexicon.longest text = (kind, length) := by
  rw [← h]
  refine longest_congr fun entry hmem => Pattern.matchLength_of_append_le ?_
  have hmax := matchLength_le_longest (text ++ rest) hmem
  rw [h] at hmax
  exact Nat.le_trans hmax hle

theorem IsTable.unambiguous {number : κ} (table : lexicon.IsTable number)
    (words : ∀ entry ∈ lexicon.words, ∀ other ∈ lexicon.words, entry.1 = other.1 →
      entry.2 = other.2) : lexicon.Unambiguous := by
  have numeral {entry : List Char × κ} {letters : List Char} (hmem : entry ∈ lexicon.words)
      (hword : (Pattern.word entry.1).Matches letters) :
      ¬(Pattern.run Pattern.isNumeral).Matches letters := by
    rintro ⟨hne, hall⟩
    have hhead := table.head entry hmem
    obtain ⟨c, tail, rfl⟩ := List.exists_cons_of_ne_nil hne
    rw [← hword.2] at hhead
    simp [hall c List.mem_cons_self] at hhead
  refine table.forall_entries ?_ fun entry hmem => ?_
  · refine table.forall_entries (fun _ _ _ => rfl) fun other hother letters hrun hword => ?_
    exact absurd hrun (numeral hother hword)
  · refine table.forall_entries (fun letters hword hrun => absurd hrun (numeral hmem hword)) ?_
    intro other hother letters hword hword'
    exact words entry hmem other hother (hword.2.symm.trans hword'.2)

end Lexicon

end Calculator
