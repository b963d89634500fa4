import Calculator.Proofs.Arith.Grouping
import Calculator.Proofs.Number.ReadBack
import Calculator.Proofs.Text.Stripping

/-!
Printed expressions are read again. A text with parentheses around every operation leaves nothing to
precedence: each operand is an atom, so the tree comes back whatever its operators are. A literal
comes back as its value because the grammar has no sign, and so no literal has one.
-/

set_option autoImplicit false
set_option relaxedAutoImplicit false

namespace Calculator.Arith

open Number (Numeral)

def Expr.literals : Expr → List Float
  | .literal value _ => [value]
  | .binary _ _ lhs rhs _ => lhs.literals ++ rhs.literals
  | .call _ arg _ => arg.literals

section Literals

variable {p : Phrase} {tokens : List (Token Kind)} {e : Expr}

theorem Derives.unsigned (h : Derives p tokens e)
    (numerals : ∀ token ∈ tokens, token.kind = .number → Numeral token.lexeme) :
    ∀ x ∈ e.literals, Binary64.isNegative x = false := by
  have both {l r : Expr} (hl : ∀ x ∈ l.literals, Binary64.isNegative x = false)
      (hr : ∀ x ∈ r.literals, Binary64.isNegative x = false) :
      ∀ x ∈ l.literals ++ r.literals, Binary64.isNegative x = false := by
    intro x hx
    rcases List.mem_append.mp hx with hx | hx
    · exact hl x hx
    · exact hr x hx
  induction h with
  | @number token value kind read =>
    intro x hx
    rw [Expr.literals, List.mem_singleton] at hx
    subst hx
    exact Number.isNegative_of_read?_numeral (numerals token List.mem_cons_self kind) read
  | call _ _ _ _ _ ih =>
    exact ih fun token hmem => numerals token (by simp [hmem])
  | group _ _ _ ih =>
    exact ih fun token hmem => numerals token (by simp [hmem])
  | atom _ ih | power _ ih | term _ ih => exact ih numerals
  | raised _ _ _ ihl ihr | scaled _ _ _ _ ihl ihr | shifted _ _ _ _ ihl ihr =>
    have hl := ihl fun token hmem => numerals token (by simp [hmem])
    have hr := ihr fun token hmem => numerals token (by simp [hmem])
    exact both hl hr

theorem unsigned_of_parse {input : String} (h : parse input = .ok e) :
    ∀ x ∈ e.literals, Binary64.isNegative x = false := by
  refine (ofSource_eq_ok_iff_derives.mp h).unsigned fun token hmem kind => ?_
  obtain ⟨hne, hnumerals⟩ := numeral_of_mem_scanFrom hmem kind
  exact ⟨hne, hnumerals⟩

end Literals

theorem tokensOf_opening : tokensOf ['('] = [⟨.opening, ['('], Span.point 0⟩] := rfl

theorem tokensOf_closing : tokensOf [')'] = [⟨.closing, [')'], Span.point 0⟩] := rfl

theorem chars_strip_symbol (op : Operator) :
    (Source.strip (String.singleton op.symbol)).chars = [op.symbol] := by
  cases op <;> rfl

theorem chars_strip_name (f : Builtin) : (Source.strip f.name).chars = f.name.toList := by
  cases f <;> rfl

theorem tokensOf_symbol (op : Operator) :
    ∃ token, tokensOf [op.symbol] = [token] ∧ token.kind = .operator op := by
  cases op <;> exact ⟨_, rfl, rfl⟩

theorem tokensOf_name (f : Builtin) :
    ∃ token, tokensOf f.name.toList = [token] ∧ token.kind = .name ∧
      Builtin.ofName? token.text = some f := by
  refine ⟨⟨.name, f.name.toList, Span.point 0⟩, ?_, rfl, ?_⟩
  · cases f <;> rfl
  · cases f <;> rfl

theorem tokensOf_plain {x : Float} (finite : x.isFinite = true)
    (unsigned : Binary64.isNegative x = false) :
    ∃ token, tokensOf (Source.strip (Number.plain x)).chars = [token] ∧
      token.kind = .number ∧ Number.read? token.lexeme = some x := by
  have hnumeral := Number.numeral_plain finite unsigned
  obtain ⟨token, htokens, kind, lexeme⟩ := tokensOf_numeral hnumeral.ne_nil hnumeral.numerals
  refine ⟨token, ?_, kind, ?_⟩
  · rw [Source.chars_strip, hnumeral.filter_not_isBlank, htokens]
  · rw [lexeme, Number.read?_plain finite unsigned]

section Texts

variable {lhs rhs : String} {ls rs : List (Token Kind)} {l r : Expr}

theorem Derives.operation (op : Operator)
    (hl : Derives .atom (tokensOf (Source.strip lhs).chars) l)
    (hr : Derives .atom (tokensOf (Source.strip rhs).chars) r) :
    ∃ opSpan, Derives .atom
      (tokensOf (Source.strip ("(" ++ lhs ++ " " ++ String.singleton op.symbol ++ " " ++ rhs ++
        ")")).chars) (.join op opSpan l r) := by
  have hchars : (Source.strip ("(" ++ lhs ++ " " ++ String.singleton op.symbol ++ " " ++ rhs ++
      ")")).chars = [] ++ '(' :: ((Source.strip lhs).chars ++
        op.symbol :: ((Source.strip rhs).chars ++ ')' :: [])) := by
    have hopen : (Source.strip "(").chars = ['('] := rfl
    have hclose : (Source.strip ")").chars = [')'] := rfl
    have hspace : (Source.strip " ").chars = [] := rfl
    simp only [Source.chars_strip_append, chars_strip_symbol, hopen, hclose, hspace,
      List.append_nil, List.nil_append, List.append_assoc, List.cons_append]
  have hmark : Pattern.isNumeral op.symbol = false ∧ op.symbol.isAlpha = false := by
    cases op <;> exact ⟨rfl, rfl⟩
  obtain ⟨token, hsymbol, kind⟩ := tokensOf_symbol op
  have joined : Derives .expression (tokensOf (Source.strip lhs).chars ++
      token :: tokensOf (Source.strip rhs).chars) (.join op token.span l r) :=
    (Derives.join (hl.loosen (Phrase.rank_le_atom _)) kind
      (hr.loosen (Phrase.rank_le_atom _))).loosen (Nat.zero_le _)
  refine ⟨token.span, ?_⟩
  rw [hchars, tokensOf_mark [] _ rfl rfl, tokensOf_mark _ _ hmark.1 hmark.2,
    tokensOf_mark _ [] rfl rfl, tokensOf_opening, hsymbol, tokensOf_closing]
  have grouped : Derives .atom (⟨.opening, ['('], Span.point 0⟩ ::
      ((tokensOf (Source.strip lhs).chars ++ token :: tokensOf (Source.strip rhs).chars) ++
        [⟨.closing, [')'], Span.point 0⟩])) (.join op token.span l r) := .group rfl rfl joined
  rw [List.append_assoc] at grouped
  exact grouped

theorem Derives.application (f : Builtin)
    (h : Derives .atom (tokensOf (Source.strip lhs).chars) l) :
    ∃ span, Derives .atom (tokensOf (Source.strip (f.name ++ "(" ++ lhs ++ ")")).chars)
      (.call f l span) := by
  have hchars : (Source.strip (f.name ++ "(" ++ lhs ++ ")")).chars =
      f.name.toList ++ '(' :: ((Source.strip lhs).chars ++ ')' :: []) := by
    have hopen : (Source.strip "(").chars = ['('] := rfl
    have hclose : (Source.strip ")").chars = [')'] := rfl
    simp only [Source.chars_strip_append, chars_strip_name, hopen, hclose, List.append_assoc,
      List.cons_append, List.nil_append]
  obtain ⟨token, hname, kind, known⟩ := tokensOf_name f
  have call : Derives .atom (token :: ⟨.opening, ['('], Span.point 0⟩ ::
      (tokensOf (Source.strip lhs).chars ++ [⟨.closing, [')'], Span.point 0⟩]))
      (.call f l (Span.through token.span (Span.point 0))) :=
    .call kind known rfl rfl (h.loosen (Nat.zero_le _))
  refine ⟨Span.through token.span (Span.point 0), ?_⟩
  rw [hchars, tokensOf_mark _ _ rfl rfl, tokensOf_mark _ [] rfl rfl, hname, tokensOf_opening,
    tokensOf_closing]
  exact call

end Texts

/-- The text of an expression is an atom, and stands for the expression. -/
theorem Expr.derives_render (e : Expr) (finite : ∀ x ∈ e.literals, x.isFinite = true)
    (unsigned : ∀ x ∈ e.literals, Binary64.isNegative x = false) :
    ∃ e', Derives .atom (tokensOf (Source.strip e.render).chars) e' ∧ e.Same e' := by
  induction e with
  | literal value span =>
    have hmem : value ∈ (Expr.literal value span).literals := List.mem_singleton_self value
    obtain ⟨token, htokens, kind, read⟩ := tokensOf_plain (finite value hmem) (unsigned value hmem)
    refine ⟨.literal value token.span, ?_, .literal value trivial⟩
    rw [Expr.render, htokens]
    exact .number kind read
  | binary op opSpan lhs rhs span ihl ihr =>
    obtain ⟨l, derivedL, sameL⟩ := ihl (fun x hx => finite x (List.mem_append_left _ hx))
      fun x hx => unsigned x (List.mem_append_left _ hx)
    obtain ⟨r, derivedR, sameR⟩ := ihr (fun x hx => finite x (List.mem_append_right _ hx))
      fun x hx => unsigned x (List.mem_append_right _ hx)
    obtain ⟨opSpan', derived⟩ := derivedL.operation op derivedR
    exact ⟨_, derived, .binary op trivial sameL sameR trivial⟩
  | call f arg span ih =>
    obtain ⟨a, derivedArg, same⟩ := ih finite unsigned
    obtain ⟨span', derived⟩ := derivedArg.application f
    exact ⟨_, derived, .call f same trivial⟩

theorem Derives.parse {input : String} {e : Expr}
    (h : Derives .expression (tokensOf (Source.strip input).chars) e) :
    ∃ e', parse input = .ok e' ∧ e.Same e' := by
  have placed := Grouped.of_alike (scanFrom_anywhere (map_char_chars (Source.strip input)))
  obtain ⟨-, e', derived, same⟩ := h.regroups placed
  exact ⟨e', ofSource_eq_ok_iff_derives.mpr derived, same⟩

/-- The text of an expression that was read, with finite literals, is read as the same expression,
apart from regions. -/
theorem parse_render {input : String} {e : Expr} (h : parse input = .ok e)
    (finite : ∀ x ∈ e.literals, x.isFinite = true) :
    ∃ e', parse e.render = .ok e' ∧ e.Same e' := by
  obtain ⟨e₁, derived, same₁⟩ := e.derives_render finite (unsigned_of_parse h)
  obtain ⟨e₂, hparse, same₂⟩ := (derived.loosen (Nat.zero_le _)).parse
  exact ⟨e₂, hparse, same₁.trans same₂⟩

theorem parse_render_of_chain :
    let e : Expr := .binary .sub ⟨1, 2⟩ (.literal 1 ⟨0, 1⟩)
      (.binary .pow ⟨9, 10⟩ (.call .naturalLog (.literal 0.5 ⟨6, 8⟩) ⟨2, 9⟩)
        (.literal 2 ⟨11, 12⟩) ⟨2, 12⟩) ⟨0, 12⟩
    parse "1-ln (.5)^ 2" = .ok e ∧ (∀ x ∈ e.literals, x.isFinite = true) ∧
      e.render = "(1 - (ln(0.5) ^ 2))" ∧ ∃ e', parse e.render = .ok e' ∧ e.Same e' := by
  intro e
  have hparse : parse "1-ln (.5)^ 2" = .ok e := by decide +kernel
  have hfinite : ∀ x ∈ e.literals, x.isFinite = true := by decide
  have hrender : e.render = "(1 - (ln(0.5) ^ 2))" := rfl
  exact ⟨hparse, hfinite, hrender, parse_render hparse hfinite⟩

end Calculator.Arith
