import Calculator.Proofs.Arith.Placement
import Calculator.Proofs.Arith.Scanning
import Calculator.Proofs.Outcome

/-!
Parentheses around an atom change no value. `Grouped` relates tokens to the same tokens with more
parentheses around some numbers and groups; whatever the grammar derives from the ones it derives
from the others, as the same expression apart from regions. A group that is put into parentheses
has none inside, so that both ends of it can be told by where they stand.
-/

set_option autoImplicit false
set_option relaxedAutoImplicit false

namespace Calculator.Arith

/-- Expressions that differ in regions only. -/
abbrev Expr.Same : Expr → Expr → Prop := Expr.Alike fun _ _ => True

/-- Tokens, and the same tokens with more parentheses. The flags say whether the first and the last
of them stand inside a group that is put into parentheses. -/
inductive Grouped : Bool → List (Token Kind) → List (Token Kind) → Bool → Prop
  | nil (inside : Bool) : Grouped inside [] [] inside
  | keep {inside final : Bool} {token token' : Token Kind} {tokens grouped : List (Token Kind)}
      (kind : token.kind = token'.kind) (lexeme : token.lexeme = token'.lexeme)
      (flat : inside = true → token.kind ≠ .opening ∧ token.kind ≠ .closing)
      (rest : Grouped inside tokens grouped final) :
      Grouped inside (token :: tokens) (token' :: grouped) final
  | number {final : Bool} {token opening token' closing : Token Kind}
      {tokens grouped : List (Token Kind)} (number : token.kind = .number)
      (kind : token.kind = token'.kind) (lexeme : token.lexeme = token'.lexeme)
      (opens : opening.kind = .opening) (closes : closing.kind = .closing)
      (rest : Grouped false tokens grouped final) :
      Grouped false (token :: tokens) (opening :: token' :: closing :: grouped) final
  | opening {final : Bool} {token outer inner : Token Kind} {tokens grouped : List (Token Kind)}
      (kind : token.kind = .opening) (outerOpens : outer.kind = .opening)
      (innerOpens : inner.kind = .opening) (rest : Grouped true tokens grouped final) :
      Grouped false (token :: tokens) (outer :: inner :: grouped) final
  | closing {final : Bool} {token inner outer : Token Kind} {tokens grouped : List (Token Kind)}
      (kind : token.kind = .closing) (innerCloses : inner.kind = .closing)
      (outerCloses : outer.kind = .closing) (rest : Grouped false tokens grouped final) :
      Grouped true (token :: tokens) (inner :: outer :: grouped) final

namespace Grouped

variable {inside final : Bool} {tokens more grouped : List (Token Kind)} {token : Token Kind}

theorem append_left (h : Grouped inside (tokens ++ more) grouped final) :
    ∃ before between after, grouped = before ++ after ∧ Grouped inside tokens before between ∧
      Grouped between more after final := by
  induction tokens generalizing inside grouped with
  | nil => exact ⟨[], inside, grouped, rfl, .nil inside, h⟩
  | cons token tokens ih =>
    cases h with
    | keep kind lexeme flat rest =>
      obtain ⟨before, between, after, rfl, hbefore, hafter⟩ := ih rest
      exact ⟨_ :: before, between, after, rfl, .keep kind lexeme flat hbefore, hafter⟩
    | number number kind lexeme opens closes rest =>
      obtain ⟨before, between, after, rfl, hbefore, hafter⟩ := ih rest
      exact ⟨_ :: _ :: _ :: before, between, after, rfl,
        .number number kind lexeme opens closes hbefore, hafter⟩
    | opening kind outer inner rest =>
      obtain ⟨before, between, after, rfl, hbefore, hafter⟩ := ih rest
      exact ⟨_ :: _ :: before, between, after, rfl, .opening kind outer inner hbefore, hafter⟩
    | closing kind inner outer rest =>
      obtain ⟨before, between, after, rfl, hbefore, hafter⟩ := ih rest
      exact ⟨_ :: _ :: before, between, after, rfl, .closing kind inner outer hbefore, hafter⟩

theorem of_cons (h : Grouped inside (token :: tokens) grouped final)
    (number : token.kind ≠ .number) (opening : token.kind ≠ .opening)
    (closing : token.kind ≠ .closing) :
    ∃ token' rest, grouped = token' :: rest ∧ token.kind = token'.kind ∧
      token.lexeme = token'.lexeme ∧ Grouped inside tokens rest final := by
  cases h with
  | keep kind lexeme flat rest => exact ⟨_, _, rfl, kind, lexeme, rest⟩
  | number kind => exact absurd kind number
  | opening kind => exact absurd kind opening
  | closing kind => exact absurd kind closing

theorem append_right {between : Bool} {tokens' more' : List (Token Kind)}
    (h : Grouped inside tokens tokens' between) (h' : Grouped between more more' final) :
    Grouped inside (tokens ++ more) (tokens' ++ more') final := by
  induction h with
  | nil => exact h'
  | keep kind lexeme flat _ ih => exact .keep kind lexeme flat (ih h')
  | number number kind lexeme opens closes _ ih =>
    exact .number number kind lexeme opens closes (ih h')
  | opening kind outer inner _ ih => exact .opening kind outer inner (ih h')
  | closing kind inner outer _ ih => exact .closing kind inner outer (ih h')

theorem of_alike {places : Places} (h : Tokens.Alike places tokens grouped) :
    Grouped false tokens grouped false := by
  induction h with
  | nil => exact .nil false
  | cons head _ ih => exact .keep head.kind head.lexeme (fun inside => by cases inside) ih

theorem refl (tokens : List (Token Kind)) : Grouped false tokens tokens false := by
  induction tokens with
  | nil => exact .nil false
  | cons token tokens ih => exact .keep rfl rfl (fun inside => by cases inside) ih

end Grouped

section Derivations

variable {inside final : Bool} {tokens grouped inner : List (Token Kind)}
  {name opening closing : Token Kind} {e : Expr}

/-- What the tokens of a phrase become, wherever they stand. -/
def Regroups (p : Phrase) (tokens : List (Token Kind)) (e : Expr) : Prop :=
  ∀ {inside final : Bool} {grouped : List (Token Kind)}, Grouped inside tokens grouped final →
    final = inside ∧ ∃ e', Derives p grouped e' ∧ e.Same e'

theorem Derives.parenthesized (opens : opening.kind = .opening) (closes : closing.kind = .closing)
    (h : Derives .expression tokens e) :
    Derives .expression (opening :: (tokens ++ [closing])) e :=
  .term (.power (.atom (.group opens closes h)))

/-- A group keeps its parentheses, or has them doubled; either way they enclose an expression. -/
theorem Regroups.enclosed (h : Regroups .expression inner e) (opens : opening.kind = .opening)
    (closes : closing.kind = .closing)
    (hg : Grouped inside (opening :: (inner ++ [closing])) grouped final) :
    final = inside ∧ ∃ opening' closing' inner' e', grouped = opening' :: (inner' ++ [closing']) ∧
      opening'.kind = .opening ∧ closing'.kind = .closing ∧ Derives .expression inner' e' ∧
      e.Same e' := by
  cases hg with
  | number number => rw [opens] at number; cases number
  | closing kind => rw [opens] at kind; cases kind
  | keep kind lexeme flat rest =>
    obtain ⟨inner', between, after, rfl, hinner, hafter⟩ := rest.append_left
    obtain ⟨rfl, e', derived, same⟩ := h hinner
    cases hafter with
    | number number => rw [closes] at number; cases number
    | opening kind => rw [closes] at kind; cases kind
    | closing => exact absurd opens (flat rfl).1
    | keep kind' lexeme' flat' rest =>
      cases rest
      exact ⟨rfl, _, _, inner', e', rfl, kind ▸ opens, kind' ▸ closes, derived, same⟩
  | opening kind outer inner rest =>
    obtain ⟨inner', between, after, rfl, hinner, hafter⟩ := rest.append_left
    obtain ⟨rfl, e', derived, same⟩ := h hinner
    -- No parenthesis is kept inside, so this one is doubled as well.
    cases hafter with
    | keep kind' lexeme' flat' => exact absurd closes (flat' rfl).2
    | @closing _ _ innerClosing outerClosing _ _ kind' innerCloses outerCloses rest =>
      cases rest
      refine ⟨rfl, _, outerClosing, _ :: (inner' ++ [innerClosing]), e', ?_, outer, outerCloses,
        derived.parenthesized inner innerCloses, same⟩
      simp

theorem Regroups.number {token : Token Kind} {value : Float} (kind : token.kind = .number)
    (read : Number.read? token.lexeme = some value) :
    Regroups .atom [token] (.literal value token.span) := by
  intro inside final grouped hg
  cases hg with
  | keep hkind lexeme flat rest =>
    cases rest
    exact ⟨rfl, _, .number (hkind ▸ kind) (lexeme ▸ read), .literal value trivial⟩
  | number _ hkind lexeme opens closes rest =>
    cases rest
    exact ⟨rfl, _, .group opens closes
      (.term (.power (.atom (.number (hkind ▸ kind) (lexeme ▸ read))))), .literal value trivial⟩
  | opening hkind => rw [kind] at hkind; cases hkind
  | closing hkind => rw [kind] at hkind; cases hkind

theorem Regroups.call {f : Builtin} (kind : name.kind = .name)
    (known : Builtin.ofName? name.text = some f) (opens : opening.kind = .opening)
    (closes : closing.kind = .closing) (h : Regroups .expression inner e) :
    Regroups .atom (name :: opening :: (inner ++ [closing]))
      (.call f e (Span.through name.span closing.span)) := by
  intro inside final grouped hg
  obtain ⟨name', rest, rfl, hkind, lexeme, hrest⟩ :=
    hg.of_cons (by simp [kind]) (by simp [kind]) (by simp [kind])
  obtain ⟨rfl, opening', closing', inner', e', rfl, opens', closes', derived, same⟩ :=
    h.enclosed opens closes hrest
  have hname : name'.text = name.text := congrArg String.ofList lexeme.symm
  exact ⟨rfl, _, .call (hkind ▸ kind) (hname ▸ known) opens' closes' derived,
    .call f same trivial⟩

theorem Regroups.join {p q r : Phrase} {op : Operator} {ls rs : List (Token Kind)}
    {token : Token Kind} {l k : Expr} (lhs : Regroups p ls l) (kind : token.kind = .operator op)
    (rhs : Regroups q rs k)
    (whole : ∀ {ls rs : List (Token Kind)} {token : Token Kind} {l k : Expr}, Derives p ls l →
      token.kind = .operator op → Derives q rs k →
      Derives r (ls ++ token :: rs) (.join op token.span l k)) :
    Regroups r (ls ++ token :: rs) (.join op token.span l k) := by
  intro inside final grouped hg
  obtain ⟨ls', between, after, rfl, hls, hafter⟩ := hg.append_left
  obtain ⟨rfl, l', derivedL, sameL⟩ := lhs hls
  obtain ⟨token', rs', rfl, hkind, -, hrs⟩ :=
    hafter.of_cons (by simp [kind]) (by simp [kind]) (by simp [kind])
  obtain ⟨rfl, k', derivedR, sameR⟩ := rhs hrs
  exact ⟨rfl, _, whole derivedL (hkind ▸ kind) derivedR, .binary op trivial sameL sameR trivial⟩

theorem Derives.regroups {p : Phrase} (h : Derives p tokens e) : Regroups p tokens e := by
  induction h with
  | number kind read => exact Regroups.number kind read
  | call kind known opens closes _ ih => exact Regroups.call kind known opens closes ih
  | group opens closes _ ih =>
    intro inside final grouped hg
    obtain ⟨rfl, _, _, _, e', rfl, opens', closes', derived, same⟩ := ih.enclosed opens closes hg
    exact ⟨rfl, e', .group opens' closes' derived, same⟩
  | atom _ ih =>
    intro inside final grouped hg
    obtain ⟨rfl, e', derived, same⟩ := ih hg
    exact ⟨rfl, e', .atom derived, same⟩
  | power _ ih =>
    intro inside final grouped hg
    obtain ⟨rfl, e', derived, same⟩ := ih hg
    exact ⟨rfl, e', .power derived, same⟩
  | term _ ih =>
    intro inside final grouped hg
    obtain ⟨rfl, e', derived, same⟩ := ih hg
    exact ⟨rfl, e', .term derived, same⟩
  | raised _ kind _ ihl ihr => exact ihl.join kind ihr .raised
  | scaled _ kind scales _ ihl ihr => exact ihl.join kind ihr fun l k r => .scaled l k scales r
  | shifted _ kind shifts _ ihl ihr => exact ihl.join kind ihr fun l k r => .shifted l k shifts r

end Derivations

theorem Expr.cause_of_eval_eq_error {e : Expr} {d : Diagnostic} (h : e.eval = .error d) :
    d.cause = .divisionByZero := by
  induction e with
  | literal value span => cases h
  | call f arg span ih =>
    rcases bind_eq_error_iff.mp h with harg | ⟨a, -, hvalue⟩
    · exact ih harg
    · cases hvalue
  | binary op opSpan lhs rhs span ihl ihr =>
    rcases bind_eq_error_iff.mp h with hl | ⟨a, -, hrest⟩
    · exact ihl hl
    rcases bind_eq_error_iff.mp hrest with hr | ⟨b, -, hvalue⟩
    · exact ihr hr
    cases hchecked : op.checked? a b with
    | some value =>
      rw [hchecked] at hvalue
      cases hvalue
    | none =>
      rw [hchecked] at hvalue
      cases hvalue
      rfl

namespace Expr.Same

variable {e e' e'' : Expr}

theorem trans (h : e.Same e') (h' : e'.Same e'') : e.Same e'' := by
  induction h generalizing e'' with
  | literal value =>
    cases h'
    exact .literal value trivial
  | binary op _ _ _ _ ihl ihr =>
    cases h' with
    | binary _ _ lhs rhs => exact .binary op trivial (ihl lhs) (ihr rhs) trivial
  | call f _ _ ih =>
    cases h' with
    | call _ inner => exact .call f (ih inner) trivial

theorem eval (h : e.Same e') : SameOutcome (fun _ _ => True) Eq e.eval e'.eval := by
  induction h with
  | literal value => exact .ok rfl
  | call f _ _ ih =>
    refine ih.bind ?_
    rintro a _ - rfl
    exact .ok rfl
  | binary op _ _ _ _ ihl ihr =>
    refine ihl.bind ?_
    rintro a _ - rfl
    refine ihr.bind ?_
    rintro b _ - rfl
    cases op.checked? a b with
    | some value => exact .ok rfl
    | none => exact .error (.two trivial trivial _)

end Expr.Same

/-- The same value, or a division by zero in both. -/
def Expr.SameValue (e e' : Expr) : Prop :=
  (∃ value, e.eval = .ok value ∧ e'.eval = .ok value) ∨
    ∃ d d', e.eval = .error d ∧ e'.eval = .error d' ∧ d.cause = .divisionByZero ∧
      d'.cause = .divisionByZero

theorem Expr.Same.value {e e' : Expr} (h : e.Same e') : e.SameValue e' := by
  have hvalues := h.eval
  cases he : e.eval with
  | ok value =>
    rw [he] at hvalues
    cases he' : e'.eval with
    | ok value' =>
      rw [he'] at hvalues
      cases hvalues with
      | ok hvalue => exact .inl ⟨value, he, hvalue ▸ he'⟩
    | error d' =>
      rw [he'] at hvalues
      cases hvalues
  | error d =>
    rw [he] at hvalues
    cases he' : e'.eval with
    | ok value' =>
      rw [he'] at hvalues
      cases hvalues
    | error d' =>
      exact .inr ⟨d, d', he, he', cause_of_eval_eq_error he, cause_of_eval_eq_error he'⟩

def anywhere : Places := ⟨fun _ _ => True, fun _ _ => True, 0, 0⟩

theorem scanFrom_anywhere {text text' : List Glyph}
    (h : text.map Glyph.char = text'.map Glyph.char) :
    Tokens.Alike anywhere (lexicon.scanFrom 0 text) (lexicon.scanFrom 0 text') := by
  have hchars : List.Forall₂ (fun a b : Glyph => a.char = b.char) text text' := by
    rw [← List.forall₂_eq_eq_eq, List.forall₂_map_left_iff, List.forall₂_map_right_iff] at h
    exact h
  exact Lexicon.scanFrom_alike (hchars.imp fun a b hchar => ⟨hchar, trivial, trivial⟩)

theorem map_char_chars (source : Source) :
    (source.chars.map fun c => (⟨c, Span.point 0⟩ : Glyph)).map Glyph.char =
      source.glyphs.map Glyph.char := by
  rw [List.map_map]
  exact List.map_id _

theorem ofSource_eq_ok_iff_derives {source : Source} {e : Expr} :
    ofSource source = .ok e ↔ Derives .expression (lexicon.scan source) e := by
  constructor
  · intro h
    rw [ofSource] at h
    split at h
    · cases h
    · simpa using Reached.initial.derives h
  · intro h
    rw [ofSource, if_neg]
    · exact h.reads.parseFrom_initial
    · intro hempty
      have hglyphs : source.glyphs = [] := List.isEmpty_iff.mp hempty
      refine h.ne_nil ?_
      rw [Lexicon.scan, hglyphs]
      rfl

/-- An input whose tokens are grouped as another one's is read as the same expression. -/
theorem parse_of_grouped {input input' : String} {e : Expr}
    (hg : Grouped false (tokensOf (Source.strip input).chars)
      (tokensOf (Source.strip input').chars) false)
    (h : parse input = .ok e) : ∃ e', parse input' = .ok e' ∧ e.Same e' := by
  have first := Grouped.of_alike (scanFrom_anywhere (map_char_chars (Source.strip input)).symm)
  have last := Grouped.of_alike (scanFrom_anywhere (map_char_chars (Source.strip input')))
  obtain ⟨-, e₁, derived₁, same₁⟩ := (ofSource_eq_ok_iff_derives.mp h).regroups first
  obtain ⟨-, e₂, derived₂, same₂⟩ := derived₁.regroups hg
  obtain ⟨-, e₃, derived₃, same₃⟩ := derived₂.regroups last
  exact ⟨e₃, ofSource_eq_ok_iff_derives.mpr derived₃, (same₁.trans same₂).trans same₃⟩

end Calculator.Arith
