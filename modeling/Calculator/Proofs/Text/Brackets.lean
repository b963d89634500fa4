import Calculator.Diagnostic
import Calculator.Proofs.Outcome
import Calculator.Proofs.Text.Matching

/-!
Brackets and their partners. A stack pairs the brackets of an input from left to right: a closing
one has the innermost open one as its partner if that is of its kind. A grammar finds the same
brackets among its tokens as there are among the characters. Text between brackets that are paired
leaves the stack as it was, whatever is open around it.
-/

set_option autoImplicit false
set_option relaxedAutoImplicit false

namespace Calculator

/-- A delimiter in an input: which one, whether it opens a group, and where it stands. -/
structure BracketAt where
  delimiter : Delimiter
  opening : Bool
  span : Span
deriving DecidableEq

namespace BracketAt

def charSide? : Char → Option (Delimiter × Bool)
  | '(' => some (.parenthesis, true)
  | ')' => some (.parenthesis, false)
  | '\x7b' => some (.brace, true)
  | '\x7d' => some (.brace, false)
  | _ => none

/-- Which of the given delimiters a character is, and whether it opens a group. -/
def sideOf? (delimiters : List Delimiter) (c : Char) : Option (Delimiter × Bool) :=
  (charSide? c).filter fun side => delimiters.contains side.1

def ofSide (span : Span) (side : Delimiter × Bool) : BracketAt := ⟨side.1, side.2, span⟩

def inText (delimiters : List Delimiter) (text : List Glyph) : List BracketAt :=
  text.filterMap fun glyph => (sideOf? delimiters glyph.char).map (ofSide glyph.span)

/-- The brackets among tokens, given what side each kind of token is. -/
def inTokens {κ : Type} (side? : κ → Option (Delimiter × Bool)) (tokens : List (Token κ)) :
    List BracketAt :=
  tokens.filterMap fun token => (side? token.kind).map (ofSide token.span)

/-- The brackets without a partner, given those that are open, the innermost first. -/
def unpairedFrom : List BracketAt → List BracketAt → List BracketAt
  | opened, [] => opened
  | opened, bracket :: rest =>
    if bracket.opening then unpairedFrom (bracket :: opened) rest
    else
      match opened with
      | [] => bracket :: unpairedFrom [] rest
      | innermost :: outer =>
        if innermost.delimiter = bracket.delimiter then unpairedFrom outer rest
        else bracket :: unpairedFrom (innermost :: outer) rest

def unpaired (brackets : List BracketAt) : List BracketAt := unpairedFrom [] brackets

inductive Balanced : List BracketAt → Prop
  | nil : Balanced []
  | pair {opening closing : BracketAt} {inner rest : List BracketAt}
      (opens : opening.opening = true)
      (closes : closing.opening = false) (same : opening.delimiter = closing.delimiter)
      (inside : Balanced inner) (after : Balanced rest) :
      Balanced (opening :: (inner ++ closing :: rest))

variable {bracket opening closing : BracketAt} {opened inner rest : List BracketAt}

theorem unpairedFrom_opening (opens : bracket.opening = true) :
    unpairedFrom opened (bracket :: rest) = unpairedFrom (bracket :: opened) rest := by
  rw [unpairedFrom.eq_def]
  exact if_pos opens

theorem unpairedFrom_closing (closes : closing.opening = false)
    (same : opening.delimiter = closing.delimiter) :
    unpairedFrom (opening :: opened) (closing :: rest) = unpairedFrom opened rest := by
  simp [unpairedFrom, closes, same]

theorem unpairedFrom_alone (closes : closing.opening = false) :
    unpairedFrom [] (closing :: rest) = closing :: unpairedFrom [] rest := by
  simp [unpairedFrom, closes]

namespace Balanced

theorem unpairedFrom (h : Balanced inner) (opened rest : List BracketAt) :
    unpairedFrom opened (inner ++ rest) = BracketAt.unpairedFrom opened rest := by
  induction h generalizing opened rest with
  | nil => rfl
  | pair opens closes same _ _ ihInside ihAfter =>
    rw [List.cons_append, List.append_assoc, List.cons_append, unpairedFrom_opening opens, ihInside,
      unpairedFrom_closing closes same, ihAfter]

theorem unpaired (h : Balanced inner) : unpaired inner = [] := by
  have hnone := h.unpairedFrom [] []
  rwa [List.append_nil] at hnone

theorem append (h : Balanced inner) (hrest : Balanced rest) : Balanced (inner ++ rest) := by
  induction h with
  | nil => exact hrest
  | pair opens closes same inside _ _ ihAfter =>
    rw [List.cons_append, List.append_assoc, List.cons_append]
    exact .pair opens closes same inside ihAfter

theorem enclosed (opens : opening.opening = true) (closes : closing.opening = false)
    (same : opening.delimiter = closing.delimiter) (h : Balanced inner) :
    Balanced (opening :: (inner ++ [closing])) :=
  .pair opens closes same h .nil

end Balanced

section Tokens

variable {κ : Type} {side? : κ → Option (Delimiter × Bool)} {token : Token κ}

theorem inTokens_append (front back : List (Token κ)) :
    inTokens side? (front ++ back) = inTokens side? front ++ inTokens side? back :=
  List.filterMap_append

theorem inTokens_some {side : Delimiter × Bool} (h : side? token.kind = some side)
    (tokens : List (Token κ)) :
    inTokens side? (token :: tokens) = ofSide token.span side :: inTokens side? tokens :=
  List.filterMap_cons_some (by rw [h]; rfl)

theorem inTokens_none (h : side? token.kind = none) (tokens : List (Token κ)) :
    inTokens side? (token :: tokens) = inTokens side? tokens :=
  List.filterMap_cons_none (by rw [h]; rfl)

namespace Balanced

theorem of_forall {tokens : List (Token κ)} (h : ∀ token ∈ tokens, side? token.kind = none) :
    Balanced (inTokens side? tokens) := by
  have hnone : inTokens side? tokens = [] :=
    List.filterMap_eq_nil_iff.mpr fun token hmem => by rw [h token hmem]; rfl
  rw [hnone]
  exact .nil

theorem join {front back : List (Token κ)} (hfront : Balanced (inTokens side? front))
    (h : side? token.kind = none) (hback : Balanced (inTokens side? back)) :
    Balanced (inTokens side? (front ++ token :: back)) := by
  rw [inTokens_append, inTokens_none h]
  exact hfront.append hback

theorem group {opening closing : Token κ} {inner : List (Token κ)} {delimiter : Delimiter}
    (opens : side? opening.kind = some (delimiter, true))
    (closes : side? closing.kind = some (delimiter, false)) (h : Balanced (inTokens side? inner)) :
    Balanced (inTokens side? (opening :: (inner ++ [closing]))) := by
  rw [inTokens_some opens, inTokens_append, inTokens_some closes]
  exact .enclosed rfl rfl rfl h

end Balanced

end Tokens

theorem inText_append (delimiters : List Delimiter) (front back : List Glyph) :
    inText delimiters (front ++ back) = inText delimiters front ++ inText delimiters back :=
  List.filterMap_append

theorem sideOf?_eq_none (delimiters : List Delimiter) {c : Char}
    (h : c.isAlpha = true ∨ Pattern.isNumeral c = true) : sideOf? delimiters c = none := by
  have hnone : charSide? c = none := by
    rw [charSide?.eq_def]
    split
    · exact absurd h (by decide)
    · exact absurd h (by decide)
    · exact absurd h (by decide)
    · exact absurd h (by decide)
    · rfl
  rw [sideOf?, hnone]
  rfl

theorem eq_of_sideOf? {delimiters : List Delimiter} {c : Char} (h : sideOf? delimiters c ≠ none) :
    (.parenthesis ∈ delimiters ∧ (c = '(' ∨ c = ')')) ∨
      .brace ∈ delimiters ∧ (c = '\x7b' ∨ c = '\x7d') := by
  obtain ⟨side, hside⟩ := Option.ne_none_iff_exists'.mp h
  obtain ⟨hchar, hmem⟩ := Option.filter_eq_some_iff.mp hside
  rw [charSide?.eq_def] at hchar
  split at hchar <;> cases hchar <;> simp_all

end BracketAt

open BracketAt (sideOf? inText inTokens)

/-- Letters are one bracket and their kind says which, or neither the letters nor the kind is one.
-/
def SpellsSide (delimiters : List Delimiter) (letters : List Char)
    (side? : Option (Delimiter × Bool)) : Prop :=
  letters.map (sideOf? delimiters) = [side?] ∨
    side? = none ∧ ∀ c ∈ letters, sideOf? delimiters c = none

instance (delimiters : List Delimiter) (letters : List Char) (side? : Option (Delimiter × Bool)) :
    Decidable (SpellsSide delimiters letters side?) :=
  -- The letters are gone through, never all characters.
  have : Decidable (∀ c ∈ letters, sideOf? delimiters c = none) := List.decidableBAll _ _
  inferInstanceAs (Decidable (_ ∨ _ ∧ _))

/-- A lexicon has tokens of their own for the given delimiters. -/
structure Lexicon.Delimits {κ : Type} (lexicon : Lexicon κ)
    (side? : κ → Option (Delimiter × Bool)) (delimiters : List Delimiter) : Prop where
  symbol : side? lexicon.symbol = none
  entry : ∀ entry ∈ lexicon.entries, ∀ letters, entry.1.Matches letters →
    SpellsSide delimiters letters (side? entry.2)
  known : ∀ c, sideOf? delimiters c ≠ none → ∃ entry ∈ lexicon.entries, entry.1.Matches [c]

theorem Lexicon.IsTable.spellsSide {κ : Type} {lexicon : Lexicon κ} {number : κ}
    {side? : κ → Option (Delimiter × Bool)} {delimiters : List Delimiter}
    (table : lexicon.IsTable number) (numeral : side? number = none)
    (words : ∀ entry ∈ lexicon.words, SpellsSide delimiters entry.1 (side? entry.2)) :
    ∀ entry ∈ lexicon.entries, ∀ letters, entry.1.Matches letters →
      SpellsSide delimiters letters (side? entry.2) := by
  refine table.forall_entries (fun letters h => ?_) fun entry hmem letters h => ?_
  · exact .inr ⟨numeral, fun c hc => BracketAt.sideOf?_eq_none _ (.inr (h.2 c hc))⟩
  · exact h.2 ▸ words entry hmem

namespace Lexicon.Delimits

variable {κ : Type} {lexicon : Lexicon κ} {side? : κ → Option (Delimiter × Bool)}
  {delimiters : List Delimiter}

theorem spellsSide_of_longest (h : lexicon.Delimits side? delimiters) {glyph : Glyph}
    {text : List Glyph} {kind : κ} {length : Nat}
    (hl : lexicon.longest (glyph :: text) = (kind, length)) :
    SpellsSide delimiters (tokenOf kind glyph (text.take (length - 1))).lexeme (side? kind) := by
  rcases lexicon.longest_cases (glyph :: text) with ⟨hs, hzero⟩ | ⟨entry, hmem, hs, hpos⟩
  · obtain ⟨rfl, rfl⟩ := Prod.mk.inj (hl.symm.trans hs)
    refine .inr ⟨h.symbol, fun c hc => ?_⟩
    obtain rfl : c = glyph.char := by simpa [tokenOf] using hc
    by_contra hside
    -- A delimiter would have been matched.
    obtain ⟨entry, hmem, hmatch⟩ := h.known _ hside
    have hfront : [glyph.char] <+: (glyph :: text).map Glyph.char := by simp
    have hle := Pattern.length_le_matchLength hmatch hfront
    rw [hzero entry hmem] at hle
    exact absurd hle (by simp)
  · obtain ⟨rfl, rfl⟩ := Prod.mk.inj (hl.symm.trans hs)
    rw [lexeme_tokenOf_of_pos hpos]
    exact h.entry entry hmem _ (Pattern.matches_of_matchLength_pos hpos)

theorem inText_of_spellsSide {kind : κ} {glyph : Glyph} {part : List Glyph}
    (h : SpellsSide delimiters (tokenOf kind glyph part).lexeme (side? kind)) :
    inText delimiters (glyph :: part) = inTokens side? [tokenOf kind glyph part] := by
  rw [tokenOf] at h
  rcases h with hone | ⟨hkind, hnone⟩
  · rw [List.map_cons, List.map_map] at hone
    obtain ⟨hside, hpart⟩ := List.cons.inj hone
    obtain rfl := List.map_eq_nil_iff.mp hpart
    simp only [inText, inTokens, tokenOf, List.filterMap_cons, List.filterMap_nil, hside]
    rfl
  · have hglyphs : ∀ member ∈ glyph :: part, sideOf? delimiters member.char = none := by
      intro member hmem
      refine hnone _ ?_
      rw [← List.map_cons]
      exact List.mem_map_of_mem hmem
    rw [BracketAt.inTokens_none hkind, inText, List.filterMap_eq_nil_iff.mpr]
    · rfl
    · intro member hmem
      rw [hglyphs member hmem]
      rfl

theorem inTokens_scanFrom (h : lexicon.Delimits side? delimiters) (text : List Glyph) :
    inTokens side? (lexicon.scanFrom 0 text) = inText delimiters text := by
  induction text using scan_induction with
  | nil => rfl
  | cons glyph text ih =>
    cases hl : lexicon.longest (glyph :: text) with
    | mk kind length =>
      have hfirst := inText_of_spellsSide (h.spellsSide_of_longest hl)
      have hsplit : glyph :: text =
          (glyph :: text.take (length - 1)) ++ text.drop (length - 1) := by
        rw [List.cons_append, List.take_append_drop]
      rw [scanFrom_cons hl, ← List.singleton_append, BracketAt.inTokens_append, ih, ← hfirst,
        ← BracketAt.inText_append, ← hsplit]

end Lexicon.Delimits

theorem Source.inText_withProducts (delimiters : List Delimiter) (source : Source) :
    inText delimiters source.withProducts.glyphs = inText delimiters source.glyphs := by
  have hstar (span : Span) : inText delimiters [⟨'*', span⟩] = [] := rfl
  have hinsert (previous : Option Char) (glyphs : List Glyph) :
      inText delimiters (insertProducts previous glyphs) = inText delimiters glyphs := by
    induction glyphs generalizing previous with
    | nil => rfl
    | cons glyph glyphs ih =>
      have hkept : inText delimiters (glyph :: insertProducts (some glyph.char) glyphs) =
          inText delimiters (glyph :: glyphs) := by
        rw [← List.singleton_append, BracketAt.inText_append, ih, ← BracketAt.inText_append,
          List.singleton_append]
      rw [insertProducts]
      split
      · rw [← List.singleton_append, BracketAt.inText_append, hstar, List.nil_append, hkept]
      · exact hkept
  exact hinsert none source.glyphs

def Cause.isUnclosed : Cause → Bool
  | .unclosed _ _ => true
  | _ => false

/-- An error about an unclosed delimiter is about one of the given brackets and says on which side
it is. -/
def UnclosedAmong {α : Type} (brackets : List BracketAt) (x : Except Diagnostic α) : Prop :=
  ∀ delimiter opening spans, x = .error ⟨.unclosed delimiter opening, spans⟩ →
    ∃ span, spans = [span] ∧ ⟨delimiter, opening, span⟩ ∈ brackets

namespace UnclosedAmong

variable {α β : Type} {brackets : List BracketAt} {x : Except Diagnostic α}

theorem ok (a : α) : UnclosedAmong brackets (.ok a : Except Diagnostic α) := by
  intro delimiter opening spans h
  cases h

theorem error {d : Diagnostic} (h : d.cause.isUnclosed = false) :
    UnclosedAmong brackets (.error d : Except Diagnostic α) := by
  intro delimiter opening spans hd
  cases hd
  cases h

theorem about {bracket : BracketAt} (h : bracket ∈ brackets) :
    UnclosedAmong brackets (.error (.one bracket.span
      (.unclosed bracket.delimiter bracket.opening)) : Except Diagnostic α) := by
  intro delimiter opening spans hd
  cases hd
  exact ⟨bracket.span, rfl, h⟩

theorem bind {next : α → Except Diagnostic β} (h : UnclosedAmong brackets x)
    (hnext : ∀ a, x = .ok a → UnclosedAmong brackets (next a)) :
    UnclosedAmong brackets (x >>= next) := by
  intro delimiter opening spans hd
  rcases bind_eq_error_iff.mp hd with hx | ⟨a, hx, hrest⟩
  · exact h delimiter opening spans hx
  · exact hnext a hx delimiter opening spans hrest

theorem mono {others : List BracketAt} (h : UnclosedAmong brackets x)
    (hsub : ∀ bracket ∈ brackets, bracket ∈ others) : UnclosedAmong others x := by
  intro delimiter opening spans hd
  obtain ⟨span, hspans, hmem⟩ := h delimiter opening spans hd
  exact ⟨span, hspans, hsub _ hmem⟩

theorem map {f : α → β} (h : UnclosedAmong brackets x) : UnclosedAmong brackets (x.map f) := by
  intro delimiter opening spans hd
  cases x with
  | ok a => cases hd
  | error d =>
    cases hd
    exact h delimiter opening spans rfl

end UnclosedAmong

/-- An error about an unclosed delimiter is about a bracket without a partner: one that was opened
before the tokens and is never closed, or one of the tokens. -/
def BlamesUnpaired {κ α : Type} (side? : κ → Option (Delimiter × Bool)) (opened : List BracketAt)
    (tokens : List (Token κ)) (x : Except Diagnostic α) : Prop :=
  UnclosedAmong (BracketAt.unpairedFrom opened (inTokens side? tokens)) x

namespace BlamesUnpaired

open BracketAt (Balanced ofSide)

variable {κ α β : Type} {side? : κ → Option (Delimiter × Bool)} {opened : List BracketAt}
  {token : Token κ} {tokens read rest : List (Token κ)} {x : Except Diagnostic α}

/-- Tokens with properly matched brackets make no difference to the brackets of those after them. -/
theorem after (h : BlamesUnpaired side? opened rest x) (balanced : Balanced (inTokens side? read))
    (hread : tokens = read ++ rest) : BlamesUnpaired side? opened tokens x := by
  rwa [BlamesUnpaired, hread, BracketAt.inTokens_append, balanced.unpairedFrom]

theorem skip (h : BlamesUnpaired side? opened rest x) (none : side? token.kind = none) :
    BlamesUnpaired side? opened (token :: rest) x := by
  rwa [BlamesUnpaired, BracketAt.inTokens_none none]

theorem opening {delimiter : Delimiter} (opens : side? token.kind = some (delimiter, true))
    (h : BlamesUnpaired side? (ofSide token.span (delimiter, true) :: opened) rest x) :
    BlamesUnpaired side? opened (token :: rest) x := by
  rwa [BlamesUnpaired, BracketAt.inTokens_some opens, BracketAt.unpairedFrom_opening rfl]

theorem unclosed {delimiter : Delimiter} {span : Span} :
    BlamesUnpaired side? (ofSide span (delimiter, true) :: opened) []
      (.error (.one span (.unclosed delimiter true)) : Except Diagnostic α) :=
  UnclosedAmong.about (@List.mem_cons_self _ (ofSide span (delimiter, true)) opened)

theorem unopened {delimiter : Delimiter} (closes : side? token.kind = some (delimiter, false)) :
    BlamesUnpaired side? [] (token :: rest)
      (.error (.one token.span (.unclosed delimiter false)) : Except Diagnostic α) := by
  rw [BlamesUnpaired, BracketAt.inTokens_some closes, BracketAt.unpairedFrom_alone rfl]
  exact UnclosedAmong.about (@List.mem_cons_self _ (ofSide token.span (delimiter, false)) _)

end BlamesUnpaired

end Calculator
