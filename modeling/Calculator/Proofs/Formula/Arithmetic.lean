import Calculator.Proofs.Arith.Reading
import Calculator.Proofs.Arith.Scanning
import Calculator.Proofs.Formula.Derivation
import Calculator.Proofs.Formula.Products

/-!
Arithmetic is read as a formula without the variable. Where every token of arithmetic is known, the
lexicon of formulas cuts the text at the same places, since a known word begins no longer one. A
derivation in the one grammar is then one in the other, phrase by phrase.
-/

set_option autoImplicit false
set_option relaxedAutoImplicit false

namespace Calculator.Arith

def Expr.lift : Expr → RealFunction Float
  | .literal value _ => .constant value
  | .binary .pow _ lhs rhs _ => .pow RealFunction.defaultMaxPower lhs.lift rhs.lift
  | .binary op _ lhs rhs _ => .binary op lhs.lift rhs.lift
  | .call f arg _ => .call f arg.lift

/-- The kind that a token of arithmetic with the given text has in a formula, a symbol if it has
none. -/
def Kind.formula (text : String) : Kind → Formula.Kind
  | .number => .number
  | .name =>
    match Builtin.ofName? text with
    | some f => .function f
    | none => .symbol
  | .operator op => .operator op
  | .opening => .opening .parenthesis
  | .closing => .closing .parenthesis
  | .symbol => .symbol

def formulaToken (token : Token Kind) : Token Formula.Kind :=
  ⟨token.kind.formula token.text, token.lexeme, token.span⟩

theorem lift_join (op : Operator) (span : Span) (l r : Expr) :
    (Expr.join op span l r).lift =
      (Formula.Meaning.function RealFunction.defaultMaxPower).binary op l.lift r.lift := by
  cases op <;> rfl

def Phrase.formula : Phrase → Formula.Phrase
  | .expression => .expression
  | .term => .term
  | .power => .power
  | .atom => .primary

section Kinds

variable {token : Token Kind}

theorem formulaToken_number (kind : token.kind = .number) :
    (formulaToken token).kind = .number := by
  simp only [formulaToken, kind, Kind.formula]

theorem formulaToken_name {f : Builtin} (kind : token.kind = .name)
    (known : Builtin.ofName? token.text = some f) : (formulaToken token).kind = .function f := by
  simp only [formulaToken, kind, Kind.formula, known]

theorem formulaToken_operator {op : Operator} (kind : token.kind = .operator op) :
    (formulaToken token).kind = .operator op := by
  simp only [formulaToken, kind, Kind.formula]

theorem formulaToken_opening (kind : token.kind = .opening) :
    (formulaToken token).kind = .opening .parenthesis := by
  simp only [formulaToken, kind, Kind.formula]

theorem formulaToken_closing (kind : token.kind = .closing) :
    (formulaToken token).kind = .closing .parenthesis := by
  simp only [formulaToken, kind, Kind.formula]

end Kinds

namespace Derives

variable {p : Phrase} {tokens : List (Token Kind)} {e : Expr}

theorem formulaToken_ne_symbol (h : Derives p tokens e) :
    ∀ token ∈ tokens, (formulaToken token).kind ≠ .symbol := by
  induction h with
  | number kind _ => simp [formulaToken_number kind]
  | call kind known opens closes _ ih =>
    simpa [formulaToken_name kind known, formulaToken_opening opens, formulaToken_closing closes,
      or_imp, forall_and] using ih
  | group opens closes _ ih =>
    simpa [formulaToken_opening opens, formulaToken_closing closes, or_imp, forall_and] using ih
  | atom _ ih | power _ ih | term _ ih => exact ih
  | raised _ kind _ ihl ihr | scaled _ kind _ _ ihl ihr | shifted _ kind _ _ ihl ihr =>
    simpa [formulaToken_operator kind, or_imp, forall_and] using ⟨ihl, ihr⟩

theorem formula (h : Derives p tokens e) :
    Formula.Derives (.function RealFunction.defaultMaxPower) p.formula (tokens.map formulaToken)
      e.lift := by
  induction h with
  | number kind read => exact .number (formulaToken_number kind) read
  | call kind known opens closes _ ih =>
    rw [List.map_cons, List.map_cons, List.map_append, List.map_singleton]
    exact .call (formulaToken_name kind known) (formulaToken_opening opens)
      (formulaToken_closing closes) ih
  | group opens closes _ ih =>
    rw [List.map_cons, List.map_append, List.map_singleton]
    exact .group (formulaToken_opening opens) (formulaToken_closing closes) ih
  | atom _ ih => exact .primary ih
  | raised _ kind _ ihl ihr =>
    rw [List.map_append, List.map_cons, lift_join]
    exact .raised ihl (formulaToken_operator kind) (.power ihr)
  | power _ ih => exact .unary (.power ih)
  | scaled _ kind scales _ ihl ihr =>
    rw [List.map_append, List.map_cons, lift_join]
    exact .scaled ihl (formulaToken_operator kind) scales (.power ihr)
  | term _ ih => exact .term ih
  | shifted _ kind shifts _ ihl ihr =>
    rw [List.map_append, List.map_cons, lift_join]
    exact .shifted ihl (formulaToken_operator kind) shifts ihr

end Derives

theorem decides_mark : ∀ entry ∈ lexicon.words,
    Formula.Decides (entry.1, entry.2.formula (String.ofList entry.1)) := by decide

theorem decides_name : ∀ entry ∈ Builtin.names,
    Formula.Decides (entry.1.toList, .function entry.2) := by decide

theorem decides_of_ofName? {letters : List Char} {f : Builtin}
    (h : Builtin.ofName? (String.ofList letters) = some f) :
    Formula.Decides (letters, .function f) := by
  obtain ⟨entry, hfind, rfl⟩ := Option.map_eq_some_iff.mp h
  have hname : entry.1 = String.ofList letters := by simpa using List.find?_some hfind
  have := decides_name entry (List.mem_of_find?_eq_some hfind)
  rwa [hname, String.toList_ofList] at this

section Longest

variable {glyph : Glyph} {text : List Glyph} {kind : Kind} {length : Nat}

theorem lexeme_tokenOf (kind : Kind) (hpos : 0 < length) :
    (Lexicon.tokenOf kind glyph (text.take (length - 1))).lexeme =
      ((glyph :: text).take length).map Glyph.char := by
  rw [List.take_cons hpos]
  rfl

/-- A word of formulas that stands at the front of a text as a whole token is also matched by
their lexicon. -/
theorem longest_of_decides {k : Formula.Kind} (hle : length ≤ (glyph :: text).length)
    (hdecides : Formula.Decides (((glyph :: text).take length).map Glyph.char, k)) :
    Formula.lexicon.longest (glyph :: text) = (k, length) := by
  have hfront : ((glyph :: text).take length).map Glyph.char <+: (glyph :: text).map Glyph.char :=
    (List.take_prefix _ _).map _
  rw [hdecides.longest hfront, List.length_map, List.length_take, Nat.min_eq_left hle]

theorem longest_formula {token : Token Kind} (h : lexicon.longest (glyph :: text) = (kind, length))
    (htoken : Lexicon.tokenOf kind glyph (text.take (length - 1)) = token)
    (known : (formulaToken token).kind ≠ .symbol) :
    Formula.lexicon.longest (glyph :: text) = ((formulaToken token).kind, length) := by
  have hkind : token.kind = kind := htoken ▸ rfl
  have hle : length ≤ (glyph :: text).length := Lexicon.length_le_of_longest h
  rcases lexicon.longest_cases (glyph :: text) with ⟨hs, -⟩ | ⟨entry, hmem, hs, hpos⟩
  · obtain ⟨rfl, rfl⟩ := Prod.mk.inj (h.symm.trans hs)
    simp [formulaToken, hkind, lexicon, Kind.formula] at known
  · obtain ⟨rfl, rfl⟩ := Prod.mk.inj (h.symm.trans hs)
    have hlexeme : ((glyph :: text).take (entry.1.matchLength (glyph :: text))).map Glyph.char =
        token.lexeme := by
      rw [← htoken, lexeme_tokenOf entry.2 hpos]
    rw [entries_eq] at hmem
    rcases List.mem_cons.mp hmem with rfl | hmem
    · rw [formulaToken_number hkind]
      exact Formula.isTable.longest_numeral ((Pattern.matchLength_run_pos text).mp hpos)
    -- Any other token that a formula knows is one of its words.
    refine longest_of_decides hle ?_
    rw [hlexeme]
    rcases List.mem_cons.mp hmem with rfl | hmem
    · cases hf : Builtin.ofName? token.text with
      | none => simp [formulaToken, hkind, Kind.formula, hf] at known
      | some f =>
        rw [formulaToken_name hkind hf]
        exact decides_of_ofName? hf
    · obtain ⟨word, hword, rfl⟩ := List.mem_map.mp hmem
      rw [Pattern.map_take_of_word hpos] at hlexeme
      have := decides_mark word hword
      rw [hlexeme] at this
      simpa [formulaToken, hkind, Token.text] using this

end Longest

theorem scanFrom_formula (text : List Glyph)
    (known : ∀ token ∈ lexicon.scanFrom 0 text, (formulaToken token).kind ≠ .symbol) :
    Formula.lexicon.scanFrom 0 text = (lexicon.scanFrom 0 text).map formulaToken := by
  induction text using Lexicon.scan_induction with
  | nil => rfl
  | cons glyph text ih =>
    obtain ⟨kind, length, hlongest⟩ :
        ∃ kind length, lexicon.longest (glyph :: text) = (kind, length) := ⟨_, _, rfl⟩
    rw [Lexicon.scanFrom_cons hlongest] at known ⊢
    rw [Lexicon.scanFrom_cons (longest_formula hlongest rfl (known _ List.mem_cons_self)),
      ih (length - 1) fun token hmem => known token (List.mem_cons_of_mem _ hmem), List.map_cons]
    rfl

/-- Whatever arithmetic reads is read as a formula too, and gives the function that the expression
stands for. -/
theorem parse_lift {input : String} {e : Expr} (h : parse input = .ok e) :
    RealFunction.parse RealFunction.defaultMaxPower input = .ok e.lift := by
  obtain ⟨hempty, h⟩ : (Source.strip input).isEmpty = false ∧
      ofTokens (Source.strip input).endSpan (lexicon.scan (Source.strip input)) = .ok e := by
    rw [parse, ofSource] at h
    split at h
    · cases h
    · next hempty => exact ⟨Bool.not_eq_true _ ▸ hempty, h⟩
  have hderives : Derives .expression (lexicon.scan (Source.strip input)) e := by
    simpa using Reached.initial.derives h
  have hscan : Formula.lexicon.scan (Source.strip input) =
      (lexicon.scan (Source.strip input)).map formulaToken :=
    scanFrom_formula _ hderives.formulaToken_ne_symbol
  obtain ⟨f, hfold, hread⟩ := hderives.formula.ofTokens
  have hformula : (Formula.ofSource (Source.strip input)).outcome = .ok f := by
    rw [Formula.ofSource, hempty, hscan]
    exact hread _
  rw [RealFunction.parse, Formula.parse, Formula.sourceOf, Formula.outcome_ofSource_withProducts,
    hformula, ← hfold, ← Formula.compile_eq_fold]
  rfl

theorem parse_lift_root_of_power :
    parse "2^3^2+sqrt(4)" = .ok (.binary .add ⟨5, 6⟩
      (.binary .pow ⟨1, 2⟩ (.literal 2 ⟨0, 1⟩)
        (.binary .pow ⟨3, 4⟩ (.literal 3 ⟨2, 3⟩) (.literal 2 ⟨4, 5⟩) ⟨2, 5⟩) ⟨0, 5⟩)
      (.call .squareRoot (.literal 4 ⟨11, 12⟩) ⟨6, 13⟩) ⟨0, 13⟩) ∧
    RealFunction.parse RealFunction.defaultMaxPower "2^3^2+sqrt(4)" = .ok (.binary .add
      (.pow RealFunction.defaultMaxPower (.constant 2)
        (.pow RealFunction.defaultMaxPower (.constant 3) (.constant 2)))
      (.call .squareRoot (.constant 4))) := by
  have h : parse "2^3^2+sqrt(4)" = .ok (.binary .add ⟨5, 6⟩
      (.binary .pow ⟨1, 2⟩ (.literal 2 ⟨0, 1⟩)
        (.binary .pow ⟨3, 4⟩ (.literal 3 ⟨2, 3⟩) (.literal 2 ⟨4, 5⟩) ⟨2, 5⟩) ⟨0, 5⟩)
      (.call .squareRoot (.literal 4 ⟨11, 12⟩) ⟨6, 13⟩) ⟨0, 13⟩) := by decide +kernel
  exact ⟨h, parse_lift h⟩

end Calculator.Arith
