import Calculator.Formula.Token
import Calculator.Proofs.Text.Matching

/-!
The lexicon of formulas is a table of words, and the texts of its numerals and marks are read one
after the other.
-/

set_option autoImplicit false
set_option relaxedAutoImplicit false

namespace Calculator.Formula

theorem isTable : lexicon.IsTable .number where
  entries_eq := rfl
  ne_nil := by decide
  head := by decide

theorem unambiguous : lexicon.Unambiguous := isTable.unambiguous (by decide)

def Decides (entry : List Char × Kind) : Prop :=
  entry ∈ lexicon.words ∧ ∀ other ∈ lexicon.words, entry.1 <+: other.1 → other = entry

instance (entry : List Char × Kind) : Decidable (Decides entry) :=
  inferInstanceAs (Decidable (_ ∧ _))

variable {glyph : Glyph} {text : List Glyph}

theorem Decides.longest {entry : List Char × Kind} (hentry : Decides entry)
    (h : entry.1 <+: (glyph :: text).map Glyph.char) :
    lexicon.longest (glyph :: text) = (entry.2, entry.1.length) :=
  isTable.longest_word hentry.1 hentry.2 h

def tokensOf (text : List Char) : List (Token Kind) :=
  lexicon.scanFrom 0 (text.map fun c => ⟨c, Span.point 0⟩)

theorem tokensOf_mark {c : Char} {kind : Kind} (h : Decides ([c], kind)) (rest : List Char) :
    ∃ token, tokensOf (c :: rest) = token :: tokensOf rest ∧ token.kind = kind :=
  ⟨_, isTable.scanFrom_mark h.1 h.2 rfl _, rfl⟩

theorem tokensOf_numeral {text rest : List Char} (hne : text ≠ [])
    (h : ∀ c ∈ text, Pattern.isNumeral c = true)
    (hrest : ∀ c ∈ rest.head?, Pattern.isNumeral c = false) :
    ∃ token, tokensOf (text ++ rest) = token :: tokensOf rest ∧ token.kind = .number ∧
      token.lexeme = text := by
  obtain ⟨token, hscan, kind, lexeme⟩ := isTable.scanFrom_numeral
    (text.map fun c => ⟨c, Span.point 0⟩) (rest.map fun c => ⟨c, Span.point 0⟩)
    (by simpa using hne) (by simpa using h) (by simpa using hrest)
  refine ⟨token, ?_, kind, ?_⟩
  · rw [tokensOf, List.map_append]
    exact hscan
  · rw [lexeme, List.map_map]
    exact List.map_id text

end Calculator.Formula
