import Calculator.Text.Reading
import Mathlib.Data.List.Basic
import Mathlib.Data.List.TakeWhile

/-!
Longest matches. The match a lexicon decides on is that of one of its patterns, and no pattern has
a longer one; the lemmas on single grammars use nothing else about it. A scan is then one token of
that length after another.
-/

set_option autoImplicit false
set_option relaxedAutoImplicit false

namespace Calculator

namespace Pattern

variable {text : List Glyph} {letters : List Char} {belongs : Char → Bool}

def isNumeral (c : Char) : Bool := c.isDigit || c = '.'

theorem startsWith_iff : startsWith letters text = true ↔ letters <+: text.map Glyph.char := by
  induction letters generalizing text with
  | nil => simp [startsWith]
  | cons c letters ih =>
    cases text with
    | nil => simp [startsWith]
    | cons glyph text => simp [startsWith, ih, List.cons_prefix_cons]

theorem matchLength_word (h : letters <+: text.map Glyph.char) :
    (word letters).matchLength text = letters.length :=
  if_pos (startsWith_iff.mpr h)

theorem prefix_of_matchLength_pos (h : 0 < (word letters).matchLength text) :
    letters <+: text.map Glyph.char := by
  simp only [matchLength] at h
  split at h
  · next hs => exact startsWith_iff.mp hs
  · simp at h

theorem matchLength_run_cons (text : List Glyph) {glyph : Glyph} (h : belongs glyph.char = false) :
    (run belongs).matchLength (glyph :: text) = 0 := by
  simp [matchLength, h]

theorem matchLength_run_pos (text : List Glyph) {glyph : Glyph} :
    0 < (run belongs).matchLength (glyph :: text) ↔ belongs glyph.char = true := by
  cases h : belongs glyph.char <;> simp [matchLength, h]

theorem matchLength_le (pattern : Pattern) (text : List Glyph) :
    pattern.matchLength text ≤ text.length := by
  cases pattern with
  | run belongs => exact (List.takeWhile_sublist _).length_le
  | word letters =>
    by_cases h : letters <+: text.map Glyph.char
    · rw [matchLength_word h]
      simpa using h.length_le
    · have : ¬0 < (word letters).matchLength text := fun hp => h (prefix_of_matchLength_pos hp)
      omega

theorem matchLength_run_append {rest : List Glyph} (hne : text ≠ [])
    (h : ∀ a ∈ text.getLast?, ∀ b ∈ rest.head?,
      ¬(belongs a.char = true ∧ belongs b.char = true)) :
    (run belongs).matchLength (text ++ rest) = (run belongs).matchLength text := by
  simp only [matchLength, List.takeWhile_append]
  split
  · next hall =>
    have hlast : belongs (text.getLast hne).char = true := by
      have hprefix : text.takeWhile (fun glyph => belongs glyph.char) = text :=
        (List.takeWhile_prefix _).eq_of_length hall
      exact List.takeWhile_eq_self_iff.mp hprefix _ (List.getLast_mem hne)
    have hrest : rest.takeWhile (fun glyph => belongs glyph.char) = [] := by
      cases rest with
      | nil => rfl
      | cons b rest =>
        have hb := h _ (List.getLast?_eq_some_getLast hne) b rfl
        exact List.takeWhile_cons_of_neg fun hbelongs => hb ⟨hlast, hbelongs⟩
    rw [hrest, List.append_nil, hall]
  · rfl

theorem matchLength_run_of_forall {rest : List Glyph} (hne : text ≠ [])
    (h : ∀ glyph ∈ text, belongs glyph.char = true)
    (hrest : ∀ glyph ∈ rest.head?, belongs glyph.char = false) :
    (run belongs).matchLength (text ++ rest) = text.length := by
  rw [matchLength_run_append hne, matchLength, List.takeWhile_eq_self_iff.mpr h]
  rintro a - b hb ⟨-, hbelongs⟩
  rw [hrest b hb] at hbelongs
  cases hbelongs

theorem head?_drop_matchLength (belongs : Char → Bool) (text : List Glyph) :
    ∀ glyph ∈ (text.drop ((run belongs).matchLength text)).head?, belongs glyph.char = false := by
  induction text with
  | nil => simp
  | cons first text ih =>
    cases hfirst : belongs first.char with
    | true =>
      have hlength : (run belongs).matchLength (first :: text) =
          (run belongs).matchLength text + 1 := by
        simp [matchLength, hfirst]
      rwa [hlength, List.drop_succ_cons]
    | false =>
      rw [matchLength_run_cons text hfirst, List.drop_zero]
      rintro _ ⟨rfl⟩
      exact hfirst

theorem belongs_of_mem_take {glyph : Glyph}
    (h : glyph ∈ text.take ((run belongs).matchLength text)) :
    belongs glyph.char = true := by
  have hp : text.takeWhile (fun glyph => belongs glyph.char) <+: text := List.takeWhile_prefix _
  rw [matchLength, ← List.prefix_iff_eq_take.mp hp] at h
  exact List.all_eq_true.mp List.all_takeWhile glyph h

theorem map_take_of_word (h : 0 < (word letters).matchLength text) :
    (text.take ((word letters).matchLength text)).map Glyph.char = letters := by
  have hp := prefix_of_matchLength_pos h
  rw [matchLength_word hp, List.map_take]
  exact (List.prefix_iff_eq_take.mp hp).symm

end Pattern

namespace Lexicon

variable {κ : Type} {lexicon : Lexicon κ} {text : List Glyph}

def words (lexicon : Lexicon κ) : List (List Char × κ) :=
  lexicon.entries.filterMap fun entry =>
    match entry.1 with
    | .run _ => none
    | .word letters => some (letters, entry.2)

theorem mem_entries_of_mem_words {entry : List Char × κ} (h : entry ∈ lexicon.words) :
    (.word entry.1, entry.2) ∈ lexicon.entries := by
  obtain ⟨⟨pattern, kind⟩, hmem, hentry⟩ := List.mem_filterMap.mp h
  cases pattern with
  | run belongs => cases hentry
  | word letters =>
    cases hentry
    exact hmem

/-- The better of a match and the match of a pattern, the first if they are equally long. -/
def better (text : List Glyph) (best : κ × Nat) (entry : Pattern × κ) : κ × Nat :=
  if best.2 < entry.1.matchLength text then (entry.2, entry.1.matchLength text) else best

theorem longest_eq_foldl :
    lexicon.longest text = lexicon.entries.foldl (better text) (lexicon.symbol, 0) := rfl

private theorem foldl_better (entries : List (Pattern × κ)) (best : κ × Nat) :
    (entries.foldl (better text) best = best ∨
      ∃ entry ∈ entries, entries.foldl (better text) best =
        (entry.2, entry.1.matchLength text) ∧ best.2 < entry.1.matchLength text) ∧
    best.2 ≤ (entries.foldl (better text) best).2 ∧
    ∀ entry ∈ entries, entry.1.matchLength text ≤ (entries.foldl (better text) best).2 := by
  induction entries generalizing best with
  | nil => simp
  | cons first entries ih =>
    obtain ⟨hfound, hbest, hmax⟩ := ih (better text best first)
    rw [List.foldl_cons]
    by_cases hlt : best.2 < first.1.matchLength text
    · rw [better, if_pos hlt] at hfound hbest hmax ⊢
      refine ⟨.inr ?_, Nat.le_trans (Nat.le_of_lt hlt) hbest, ?_⟩
      · rcases hfound with h | ⟨entry, hmem, h, hgt⟩
        · exact ⟨first, List.mem_cons_self, h, hlt⟩
        · exact ⟨entry, List.mem_cons_of_mem _ hmem, h, Nat.lt_trans hlt hgt⟩
      · simpa using ⟨hbest, fun p k hm => hmax (p, k) hm⟩
    · rw [better, if_neg hlt] at hfound hbest hmax ⊢
      refine ⟨?_, hbest, ?_⟩
      · rcases hfound with h | ⟨entry, hmem, h, hgt⟩
        · exact .inl h
        · exact .inr ⟨entry, List.mem_cons_of_mem _ hmem, h, hgt⟩
      · have := Nat.le_trans (Nat.le_of_not_lt hlt) hbest
        simpa using ⟨this, fun p k hm => hmax (p, k) hm⟩

theorem matchLength_le_longest (text : List Glyph) {entry : Pattern × κ}
    (h : entry ∈ lexicon.entries) :
    entry.1.matchLength text ≤ (lexicon.longest text).2 :=
  (foldl_better lexicon.entries (lexicon.symbol, 0)).2.2 entry h

theorem longest_cases (lexicon : Lexicon κ) (text : List Glyph) :
    (lexicon.longest text = (lexicon.symbol, 0) ∧
      ∀ entry ∈ lexicon.entries, entry.1.matchLength text = 0) ∨
    ∃ entry ∈ lexicon.entries, lexicon.longest text = (entry.2, entry.1.matchLength text) ∧
      0 < entry.1.matchLength text := by
  rcases (foldl_better lexicon.entries (lexicon.symbol, 0)).1 with h | ⟨entry, hmem, h, hpos⟩
  · refine .inl ⟨h, fun entry hmem => ?_⟩
    have hle := matchLength_le_longest text hmem
    rw [longest_eq_foldl, h] at hle
    exact Nat.le_zero.mp hle
  · exact .inr ⟨entry, hmem, h, hpos⟩

theorem length_le_of_longest {kind : κ} {length : Nat}
    (h : lexicon.longest text = (kind, length)) : length ≤ text.length := by
  rcases longest_cases lexicon text with ⟨hs, -⟩ | ⟨entry, -, hs, -⟩
  · obtain ⟨-, rfl⟩ := Prod.mk.inj (h.symm.trans hs)
    exact Nat.zero_le _
  · obtain ⟨-, rfl⟩ := Prod.mk.inj (h.symm.trans hs)
    exact entry.1.matchLength_le text

theorem longest_eq_of_forall_le {entry : Pattern × κ} (hmem : entry ∈ lexicon.entries)
    (hpos : 0 < entry.1.matchLength text)
    (hmax : ∀ other ∈ lexicon.entries, other.1.matchLength text ≤ entry.1.matchLength text)
    (hkind : ∀ other ∈ lexicon.entries, other.1.matchLength text = entry.1.matchLength text →
      other.2 = entry.2) :
    lexicon.longest text = (entry.2, entry.1.matchLength text) := by
  have hge := matchLength_le_longest text hmem
  rcases longest_cases lexicon text with ⟨h, -⟩ | ⟨other, hother, h, -⟩
  · rw [h] at hge
    exact absurd hge (Nat.not_le_of_lt hpos)
  · rw [h] at hge
    have heq := Nat.le_antisymm (hmax other hother) hge
    rw [h, heq, hkind other hother heq]

theorem longest_eq_of_alone {entry : Pattern × κ} (hmem : entry ∈ lexicon.entries)
    (hpos : 0 < entry.1.matchLength text)
    (alone : ∀ other ∈ lexicon.entries, other = entry ∨ other.1.matchLength text = 0) :
    lexicon.longest text = (entry.2, entry.1.matchLength text) := by
  refine longest_eq_of_forall_le hmem hpos (fun other hother => ?_) fun other hother heq => ?_
  · rcases alone other hother with rfl | hzero
    · exact Nat.le_refl _
    · rw [hzero]
      exact Nat.zero_le _
  · rcases alone other hother with rfl | hzero
    · rfl
    · rw [hzero] at heq
      exact absurd heq (Nat.ne_of_lt hpos)

/-- A match depends on a text only through what every pattern matches in it. -/
theorem longest_congr {other : List Glyph}
    (h : ∀ entry ∈ lexicon.entries, entry.1.matchLength text = entry.1.matchLength other) :
    lexicon.longest text = lexicon.longest other := by
  rw [longest_eq_foldl, longest_eq_foldl]
  refine List.foldl_ext _ _ _ fun best entry hmem => ?_
  simp only [better, h entry hmem]

theorem scan_induction {P : List Glyph → Prop} (nil : P [])
    (cons : ∀ glyph text, (∀ n, P (text.drop n)) → P (glyph :: text)) (text : List Glyph) :
    P text := by
  induction hn : text.length using Nat.strongRecOn generalizing text with
  | _ n ih =>
    subst hn
    cases text with
    | nil => exact nil
    | cons glyph text =>
      refine cons glyph text fun n => ih (text.drop n).length ?_ _ rfl
      rw [List.length_drop, List.length_cons]
      omega

theorem scanFrom_eq_drop (lexicon : Lexicon κ) (skip : Nat) (text : List Glyph) :
    lexicon.scanFrom skip text = lexicon.scanFrom 0 (text.drop skip) := by
  induction text generalizing skip with
  | nil => simp [scanFrom]
  | cons glyph text ih =>
    cases skip with
    | zero => rfl
    | succ skip => rw [scanFrom, ih skip, List.drop_succ_cons]

theorem scanFrom_cons {kind : κ} {length : Nat} {glyph : Glyph}
    (h : lexicon.longest (glyph :: text) = (kind, length)) :
    lexicon.scanFrom 0 (glyph :: text) =
      tokenOf kind glyph (text.take (length - 1)) ::
        lexicon.scanFrom 0 (text.drop (length - 1)) := by
  rw [scanFrom, h, ← scanFrom_eq_drop]

theorem scanFrom_append_of_longest {kind : κ} {length : Nat} {rest : List Glyph}
    (h : lexicon.longest (text ++ rest) = (kind, length)) (hlength : text.length = length - 1 + 1) :
    ∃ token, lexicon.scanFrom 0 (text ++ rest) = token :: lexicon.scanFrom 0 rest ∧
      token.kind = kind ∧ token.lexeme = text.map Glyph.char := by
  cases text with
  | nil => cases hlength
  | cons glyph text =>
    have htext : text.length = length - 1 := Nat.succ.inj hlength
    rw [List.cons_append] at h ⊢
    rw [scanFrom_cons h, List.drop_left' htext, List.take_left' htext]
    exact ⟨_, rfl, rfl, rfl⟩

/-- Two texts are read one after the other if no match goes on from the first into the second. -/
theorem scanFrom_append {rest : List Glyph}
    (h : ∀ part, part ≠ [] → part <:+ text →
      lexicon.longest (part ++ rest) = lexicon.longest part) :
    lexicon.scanFrom 0 (text ++ rest) = lexicon.scanFrom 0 text ++ lexicon.scanFrom 0 rest := by
  induction text using scan_induction with
  | nil => rfl
  | cons glyph text ih =>
    cases hl : lexicon.longest (glyph :: text) with
    | mk kind length =>
      have hlong : lexicon.longest (glyph :: (text ++ rest)) = (kind, length) :=
        (h _ (List.cons_ne_nil _ _) List.suffix_rfl).trans hl
      have hle : length - 1 ≤ text.length := by
        have := length_le_of_longest hl
        rw [List.length_cons] at this
        omega
      have hdrop := ih (length - 1) fun part hne hpart =>
        h part hne (hpart.trans ((List.drop_suffix _ _).trans (List.suffix_cons _ _)))
      rw [List.cons_append, scanFrom_cons hl, scanFrom_cons hlong,
        List.take_append_of_le_length hle,
        List.drop_append_of_le_length hle, hdrop, List.cons_append]

end Lexicon

end Calculator
