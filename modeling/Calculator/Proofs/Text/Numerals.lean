import Calculator.Number.Reader
import Calculator.Proofs.Text.Tiling

/-!
Numbers that are kept apart. Digits and points are in no token but a number, and a number goes on as
long as they do, so where one token ends and the next one starts does not depend on which number
stands there. A text that has `1` for every malformed number is read as the same tokens as before,
but for these numbers.
-/

set_option autoImplicit false
set_option relaxedAutoImplicit false

namespace Calculator

def Places.loose (left right : Nat) : Places := ⟨fun _ _ => True, fun _ _ => True, left, right⟩

theorem Places.Run.loose {left right : Nat} (x y : Span) : (Places.loose left right).Run x y :=
  ⟨trivial, trivial⟩

namespace Token

variable {κ : Type} [DecidableEq κ] {number : κ} {token : Token κ}

/-- Whether a token of the kind of numbers does not have the text of one. -/
def isMalformed (number : κ) (token : Token κ) : Bool :=
  token.kind = number && (Number.read? token.lexeme).isNone

/-- The token, or `1` if it is a malformed number. -/
def mend (number : κ) (token : Token κ) : Token κ :=
  if token.isMalformed number then { token with lexeme := ['1'] } else token

theorem isMalformed_iff : token.isMalformed number = true ↔
    token.kind = number ∧ Number.read? token.lexeme = none := by
  rw [isMalformed, Bool.and_eq_true, decide_eq_true_eq, Option.isNone_iff_eq_none]

theorem mend_of_good (h : token.isMalformed number = false) : token.mend number = token :=
  if_neg (by simp [h])

theorem mend_of_kind_ne (h : token.kind ≠ number) : token.mend number = token :=
  if_neg fun hbad => h (isMalformed_iff.mp hbad).1

theorem kind_mend (number : κ) (token : Token κ) : (token.mend number).kind = token.kind := by
  rw [mend]
  split <;> rfl

theorem lexeme_mend_ne_nil (h : token.lexeme ≠ []) : (token.mend number).lexeme ≠ [] := by
  rw [mend]
  split
  · exact List.cons_ne_nil _ _
  · exact h

end Token

namespace Lexicon

/-- Digits and points are in tokens of one kind only, and make a run in these. -/
structure NumbersApart {κ : Type} (lexicon : Lexicon κ) (number : κ) : Prop where
  symbol : lexicon.symbol ≠ number
  numeral : (.run Pattern.isNumeral, number) ∈ lexicon.entries
  other : ∀ entry ∈ lexicon.entries, entry = (.run Pattern.isNumeral, number) ∨
    entry.2 ≠ number ∧ ∀ letters, entry.1.Matches letters →
      ∀ c ∈ letters, Pattern.isNumeral c = false

namespace NumbersApart

variable {κ : Type} {lexicon : Lexicon κ} {number kind : κ} {glyph : Glyph}
  {text others : List Glyph} {length : Nat}

theorem isNumeral_eq_false (h : lexicon.NumbersApart number) {entry : Pattern × κ}
    (hmem : entry ∈ lexicon.entries) (hne : entry ≠ (.run Pattern.isNumeral, number))
    {member : Glyph} (hmember : member ∈ text.take (entry.1.matchLength text)) :
    Pattern.isNumeral member.char = false := by
  have hpos : 0 < entry.1.matchLength text := by
    refine Nat.pos_of_ne_zero fun hzero => ?_
    rw [hzero] at hmember
    cases hmember
  exact ((h.other entry hmem).resolve_left hne).2 _ (Pattern.matches_of_matchLength_pos hpos) _
    (List.mem_map_of_mem hmember)

theorem longest_numeral (h : lexicon.NumbersApart number)
    (hglyph : Pattern.isNumeral glyph.char = true) :
    lexicon.longest (glyph :: text) =
      (number, (Pattern.run Pattern.isNumeral).matchLength (glyph :: text)) := by
  refine longest_eq_of_alone h.numeral ((Pattern.matchLength_run_pos text).mpr hglyph)
    fun entry hmem => or_iff_not_imp_left.mpr fun hne => ?_
  by_contra hlength
  have hfirst : glyph ∈ (glyph :: text).take (entry.1.matchLength (glyph :: text)) := by
    rw [List.take_cons (Nat.pos_of_ne_zero hlength)]
    exact List.mem_cons_self
  rw [h.isNumeral_eq_false hmem hne hfirst] at hglyph
  cases hglyph

theorem of_longest (h : lexicon.NumbersApart number)
    (hglyph : Pattern.isNumeral glyph.char = false)
    (hl : lexicon.longest (glyph :: text) = (kind, length)) :
    kind ≠ number ∧
      ∀ member ∈ glyph :: text.take (length - 1), Pattern.isNumeral member.char = false := by
  rcases lexicon.longest_cases (glyph :: text) with ⟨hs, -⟩ | ⟨entry, hmem, hs, hpos⟩
  · obtain ⟨rfl, rfl⟩ := Prod.mk.inj (hl.symm.trans hs)
    refine ⟨h.symbol, fun member hmember => ?_⟩
    obtain rfl : member = glyph := by simpa using hmember
    exact hglyph
  · obtain ⟨rfl, rfl⟩ := Prod.mk.inj (hl.symm.trans hs)
    have hne : entry ≠ (.run Pattern.isNumeral, number) := by
      rintro rfl
      rw [(Pattern.matchLength_run_pos text).mp hpos] at hglyph
      cases hglyph
    refine ⟨((h.other entry hmem).resolve_left hne).1, fun member hmember => ?_⟩
    rw [← List.take_cons hpos] at hmember
    exact h.isNumeral_eq_false hmem hne hmember

/-- The characters of a text up to the first digit or point. -/
def beforeNumeral (text : List Char) : List Char := text.takeWhile fun c => !Pattern.isNumeral c

theorem beforeNumeral_numeral {c : Char} {text : List Char} (h : Pattern.isNumeral c = true) :
    beforeNumeral (c :: text) = [] :=
  List.takeWhile_cons_of_neg (by simp [h])

theorem beforeNumeral_append {front : List Char} (back : List Char)
    (h : ∀ c ∈ front, Pattern.isNumeral c = false) :
    beforeNumeral (front ++ back) = front ++ beforeNumeral back :=
  List.takeWhile_append_of_pos fun c hc => by rw [h c hc]; rfl

theorem exists_cons_of_beforeNumeral {c : Char} {text : List Char}
    (h : Pattern.isNumeral c = false) (heq : beforeNumeral (c :: text) =
      beforeNumeral (others.map Glyph.char)) :
    ∃ other rest, others = other :: rest ∧ Pattern.isNumeral other.char = false := by
  have hne : beforeNumeral (others.map Glyph.char) ≠ [] := by
    rw [← heq, ← List.singleton_append, beforeNumeral_append _ (by simpa using h)]
    exact List.cons_ne_nil _ _
  cases others with
  | nil => exact absurd rfl hne
  | cons other rest =>
    refine ⟨other, rest, rfl, ?_⟩
    by_contra hnumeral
    exact hne (beforeNumeral_numeral (by simpa using hnumeral))

/-- The pattern of another kind of token matches the same with and without what follows the first
digit or point. -/
theorem matchLength_takeWhile (h : lexicon.NumbersApart number) {entry : Pattern × κ}
    (hmem : entry ∈ lexicon.entries) (hne : entry ≠ (.run Pattern.isNumeral, number))
    (text : List Glyph) :
    entry.1.matchLength (text.takeWhile fun glyph => !Pattern.isNumeral glyph.char) =
      entry.1.matchLength text := by
  have hmatch : ∀ member ∈ text.take (entry.1.matchLength text),
      (!Pattern.isNumeral member.char) = true := fun member hmember => by
    rw [h.isNumeral_eq_false hmem hne hmember]
    rfl
  have hlength : entry.1.matchLength text ≤
      (text.takeWhile fun glyph => !Pattern.isNumeral glyph.char).length := by
    conv_rhs => rw [← List.take_append_drop (entry.1.matchLength text) text,
      List.takeWhile_append_of_pos hmatch, List.length_append, List.length_take,
      Nat.min_eq_left (entry.1.matchLength_le _)]
    exact Nat.le_add_right _ _
  obtain ⟨rest, hsplit⟩ := List.takeWhile_prefix (l := text)
    (fun glyph => !Pattern.isNumeral glyph.char)
  generalize (text.takeWhile fun glyph => !Pattern.isNumeral glyph.char) = front at hlength hsplit ⊢
  subst hsplit
  exact Pattern.matchLength_of_append_le hlength

theorem longest_eq_of_beforeNumeral (h : lexicon.NumbersApart number)
    (hglyph : Pattern.isNumeral glyph.char = false)
    (heq : beforeNumeral ((glyph :: text).map Glyph.char) =
      beforeNumeral (others.map Glyph.char)) :
    lexicon.longest others = lexicon.longest (glyph :: text) := by
  obtain ⟨other, rest, rfl, hother⟩ := exists_cons_of_beforeNumeral hglyph heq
  refine longest_congr fun entry hmem => ?_
  by_cases hentry : entry = (.run Pattern.isNumeral, number)
  · rw [hentry, Pattern.matchLength_run_cons _ hglyph, Pattern.matchLength_run_cons _ hother]
  · rw [← h.matchLength_takeWhile hmem hentry, ← h.matchLength_takeWhile hmem hentry
      (glyph :: text)]
    refine Pattern.matchLength_congr ?_ _
    rw [beforeNumeral, beforeNumeral, List.takeWhile_map, List.takeWhile_map] at heq
    exact heq.symm

theorem scanFrom_numeral_append (h : lexicon.NumbersApart number) {part rest : List Glyph}
    (hne : part ≠ []) (numerals : ∀ glyph ∈ part, Pattern.isNumeral glyph.char = true)
    (hend : ∀ glyph ∈ rest.head?, Pattern.isNumeral glyph.char = false) :
    ∃ token, lexicon.scanFrom 0 (part ++ rest) = token :: lexicon.scanFrom 0 rest ∧
      token.kind = number ∧ token.lexeme = part.map Glyph.char := by
  have hlength := Pattern.matchLength_run_of_forall hne numerals hend
  have hpos : 0 < part.length := List.length_pos_iff.mpr hne
  refine scanFrom_append_of_longest ?_ (Nat.sub_add_cancel hpos).symm
  obtain ⟨first, part, rfl⟩ := List.exists_cons_of_ne_nil hne
  rw [List.cons_append, h.longest_numeral (numerals first List.mem_cons_self)]
  exact congrArg (Prod.mk number) hlength

variable [DecidableEq κ]

theorem beforeNumeral_mend (h : lexicon.NumbersApart number) (text : List Glyph) :
    beforeNumeral (Tokens.chars ((lexicon.scanFrom 0 text).map (Token.mend number))) =
      beforeNumeral (text.map Glyph.char) := by
  induction text using scan_induction with
  | nil => rfl
  | cons glyph text ih =>
    cases hl : lexicon.longest (glyph :: text) with
    | mk kind length =>
      rw [scanFrom_cons hl, List.map_cons, Tokens.chars_cons]
      cases hglyph : Pattern.isNumeral glyph.char with
      | true =>
        rw [List.map_cons, beforeNumeral_numeral hglyph, Token.mend]
        split
        · exact beforeNumeral_numeral rfl
        · exact beforeNumeral_numeral hglyph
      | false =>
        obtain ⟨hkind, hmembers⟩ := h.of_longest hglyph hl
        have hletters : ∀ c ∈ (glyph :: text.take (length - 1)).map Glyph.char,
            Pattern.isNumeral c = false := by
          intro c hc
          obtain ⟨member, hmember, rfl⟩ := List.mem_map.mp hc
          exact hmembers member hmember
        have hsplit : (glyph :: text).map Glyph.char =
            (glyph :: text.take (length - 1)).map Glyph.char ++
              (text.drop (length - 1)).map Glyph.char := by
          rw [← List.map_append, List.cons_append, List.take_append_drop]
        rw [Token.mend_of_kind_ne hkind, hsplit, beforeNumeral_append _ hletters, ← ih (length - 1)]
        exact beforeNumeral_append _ hletters

theorem head_mend (h : lexicon.NumbersApart number) {rest : List Glyph}
    (htext : ∀ glyph ∈ text.head?, Pattern.isNumeral glyph.char = false)
    (hchars : rest.map Glyph.char =
      Tokens.chars ((lexicon.scanFrom 0 text).map (Token.mend number))) :
    ∀ glyph ∈ rest.head?, Pattern.isNumeral glyph.char = false := by
  cases text with
  | nil =>
    rw [List.map_eq_nil_iff.mp hchars]
    exact fun _ hglyph => nomatch hglyph
  | cons first text =>
    have heq := h.beforeNumeral_mend (first :: text)
    rw [← hchars] at heq
    obtain ⟨other, rest, rfl, hother⟩ := exists_cons_of_beforeNumeral (htext first rfl) heq.symm
    rintro _ ⟨rfl⟩
    exact hother

theorem numeral_mend (h : lexicon.NumbersApart number)
    (hglyph : Pattern.isNumeral glyph.char = true)
    (hl : lexicon.longest (glyph :: text) = (kind, length)) :
    ∀ c ∈ ((tokenOf kind glyph (text.take (length - 1))).mend number).lexeme,
      Pattern.isNumeral c = true := by
  obtain ⟨rfl, rfl⟩ := Prod.mk.inj (hl.symm.trans (h.longest_numeral hglyph))
  intro c hc
  rw [Token.mend] at hc
  split at hc
  · rw [List.mem_singleton.mp hc]
    rfl
  · rw [lexeme_tokenOf_of_pos ((Pattern.matchLength_run_pos text).mpr hglyph)] at hc
    obtain ⟨member, hmember, rfl⟩ := List.mem_map.mp hc
    exact Pattern.belongs_of_mem_take hmember

/-- A text that has the characters of mended tokens has them as its tokens. -/
theorem scanFrom_mend (h : lexicon.NumbersApart number) {left right : Nat}
    (hchars : others.map Glyph.char =
      Tokens.chars ((lexicon.scanFrom 0 text).map (Token.mend number))) :
    Tokens.Alike (.loose left right) ((lexicon.scanFrom 0 text).map (Token.mend number))
      (lexicon.scanFrom 0 others) := by
  induction text using scan_induction generalizing others with
  | nil =>
    rw [List.map_eq_nil_iff.mp hchars]
    exact .nil
  | cons glyph text ih =>
    have hfront := h.beforeNumeral_mend (glyph :: text)
    rw [← hchars] at hfront
    cases hl : lexicon.longest (glyph :: text) with
    | mk kind length =>
      rw [scanFrom_cons hl, List.map_cons, Tokens.chars_cons] at hchars
      obtain ⟨part, rest, rfl, hpart, hrest⟩ := List.map_eq_append_iff.mp hchars
      have htoken : ∃ token, lexicon.scanFrom 0 (part ++ rest) = token :: lexicon.scanFrom 0 rest ∧
          token.kind = kind ∧ token.lexeme = part.map Glyph.char := by
        cases hglyph : Pattern.isNumeral glyph.char with
        | true =>
          have hnumerals := h.numeral_mend hglyph hl
          obtain ⟨rfl, rfl⟩ := Prod.mk.inj (hl.symm.trans (h.longest_numeral hglyph))
          rw [← hpart, List.forall_mem_map] at hnumerals
          have hend : ∀ glyph ∈ rest.head?, Pattern.isNumeral glyph.char = false := by
            refine h.head_mend ?_ hrest
            have hdrop := Pattern.head?_drop_matchLength Pattern.isNumeral (glyph :: text)
            rwa [← Nat.sub_add_cancel ((Pattern.matchLength_run_pos text).mpr hglyph),
              List.drop_succ_cons] at hdrop
          refine h.scanFrom_numeral_append ?_ hnumerals hend
          rintro rfl
          exact Token.lexeme_mend_ne_nil (List.cons_ne_nil _ _) hpart.symm
        | false =>
          rw [Token.mend_of_kind_ne (h.of_longest hglyph hl).1] at hpart
          refine scanFrom_append_of_longest
            ((h.longest_eq_of_beforeNumeral hglyph hfront.symm).trans hl) ?_
          have hlength := congrArg List.length hpart
          have hle := length_le_of_longest hl
          rw [List.length_cons] at hle
          rw [tokenOf, List.length_map, List.length_cons, List.length_map,
            List.length_take] at hlength
          omega
      obtain ⟨token, hscan, hkind, hlexeme⟩ := htoken
      rw [scanFrom_cons hl, List.map_cons, hscan]
      refine .cons ⟨?_, ?_, .loose _ _⟩ (ih _ hrest)
      · rw [hkind, Token.kind_mend]
        rfl
      · rw [hlexeme, hpart]

end NumbersApart

theorem IsTable.numbersApart {κ : Type} {lexicon : Lexicon κ} {number : κ}
    (table : lexicon.IsTable number) (symbol : lexicon.symbol ≠ number)
    (words : ∀ entry ∈ lexicon.words,
      entry.2 ≠ number ∧ entry.1.any Pattern.isNumeral = false) :
    lexicon.NumbersApart number where
  symbol := symbol
  numeral := by
    rw [table.entries_eq]
    exact List.mem_cons_self
  other := by
    refine table.forall_entries (.inl rfl) fun entry hmem => .inr
      ⟨(words entry hmem).1, fun letters hword c hc => ?_⟩
    rw [hword.2] at hc
    exact Bool.eq_false_iff.mpr (List.any_eq_false.mp (words entry hmem).2 c hc)

end Lexicon

end Calculator
