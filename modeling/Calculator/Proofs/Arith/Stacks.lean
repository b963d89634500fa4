import Calculator.Proofs.Arith.Grammar

/-!
What the two stacks hold while arithmetic is read. The precedence of operators and the kinds of
phrases say the same: a stacked operator gives way to an incoming one exactly if what it makes can
stand to the left of it, and stays exactly if what the incoming one makes can stand to its right.
Every lemma about the stacks rests on these two equivalences and on no case of a precedence.

`Held` says what reading one phrase leaves behind: operators that are still to be settled, with the
operands to settle them. `Stacked` says how stacks come about: every operator on them has the phrase
that was read before it as its left operand. `Topped` adds the phrase that was read last.
-/

set_option autoImplicit false
set_option relaxedAutoImplicit false

namespace Calculator.Arith

namespace Phrase

/-- The phrase that an operator and its operands form. -/
def whole : Operator → Phrase
  | .add | .sub => .expression
  | .mul | .div => .term
  | .pow => .power

def lhs : Operator → Phrase
  | .add | .sub => .expression
  | .mul | .div => .term
  | .pow => .atom

def rhs : Operator → Phrase
  | .add | .sub => .term
  | .mul | .div | .pow => .power

theorem whole_le_lhs (op : Operator) : (whole op).rank ≤ (lhs op).rank := by
  cases op <;> decide

theorem whole_le_rhs (op : Operator) : (whole op).rank ≤ (rhs op).rank := by
  cases op <;> decide

theorem rank_le_atom (p : Phrase) : p.rank ≤ Phrase.atom.rank := by
  cases p <;> decide

end Phrase

theorem bindsBefore_iff (stacked incoming : Operator) :
    bindsBefore stacked incoming = true ↔
      (Phrase.lhs incoming).rank ≤ (Phrase.whole stacked).rank := by
  cases stacked <;> cases incoming <;> decide

theorem not_bindsBefore_iff (stacked incoming : Operator) :
    bindsBefore stacked incoming = false ↔
      (Phrase.rhs stacked).rank ≤ (Phrase.whole incoming).rank := by
  cases stacked <;> cases incoming <;> decide

theorem Derives.join {op : Operator} {ls rs : List (Token Kind)} {token : Token Kind} {l r : Expr}
    (lhs : Derives (Phrase.lhs op) ls l) (kind : token.kind = .operator op)
    (rhs : Derives (Phrase.rhs op) rs r) :
    Derives (Phrase.whole op) (ls ++ token :: rs) (.join op token.span l r) := by
  cases op with
  | add | sub => exact .shifted lhs kind (by simp) rhs
  | mul | div => exact .scaled lhs kind (by simp) rhs
  | pow => exact .raised lhs kind rhs

theorem combine_join (op : Operator) (span : Span) (l r : Expr) (operands : List Expr) :
    combine op span (r :: l :: operands) = .ok (.join op span l r :: operands) := rfl

/-- Operators at least as tight as a phrase, which turn one stack of operands into another when
they are settled. -/
inductive Held (p : Phrase) : List Pending → List Expr → List Expr → Prop
  | none (operands : List Expr) : Held p [] operands operands
  | operator {op : Operator} {span : Span} {held : List Pending} {before between after : List Expr}
      (tight : p.rank ≤ (Phrase.whole op).rank) (combined : combine op span before = .ok between)
      (below : Held p held between after) : Held p (.operator op span :: held) before after

namespace Held

variable {p q : Phrase} {held pending : List Pending} {before after : List Expr}

theorem loosen (h : Held q held before after) (hle : p.rank ≤ q.rank) :
    Held p held before after := by
  induction h with
  | none operands => exact .none operands
  | operator tight combined _ ih => exact .operator (Nat.le_trans hle tight) combined ih

theorem append {more : List Pending} {last : List Expr} (h : Held p held before after)
    (h' : Held p more after last) : Held p (held ++ more) before last := by
  induction h with
  | none => exact h'
  | operator tight combined _ ih => exact .operator tight combined (ih h')

theorem settleFor {incoming : Operator} (h : Held (Phrase.lhs incoming) held before after) :
    settleFor incoming (held ++ pending) before = Arith.settleFor incoming pending after := by
  induction h with
  | none => rfl
  | @operator op _ _ _ _ _ tight combined _ ih =>
    simp only [List.cons_append, Arith.settleFor, (bindsBefore_iff op incoming).mpr tight, combined,
      if_true]
    exact ih

theorem settleGroup {span : Span} (h : Held p held before after) :
    settleGroup (held ++ .opening span :: pending) before = .ok (some (pending, after)) := by
  induction h with
  | none => rfl
  | operator _ combined _ ih =>
    simp only [List.cons_append, Arith.settleGroup, combined]
    exact ih

theorem settleAll {stop : Span} {e : Expr} (h : Held p held before [e]) :
    settleAll stop held before = .ok e := by
  generalize hafter : [e] = after at h
  induction h with
  | none => rw [← hafter]; rfl
  | operator _ combined _ ih =>
    simp only [Arith.settleAll, combined]
    exact ih hafter

end Held

/-- Stacked items that no operator inside a phrase of this kind settles. -/
def Firm (p : Phrase) (pending : List Pending) : Prop :=
  ∀ op : Operator, p.rank ≤ (Phrase.whole op).rank → ∀ operands : List Expr,
    settleFor op pending operands = .ok (pending, operands)

namespace Firm

variable {p q : Phrase} {pending : List Pending}

theorem tighten (h : Firm p pending) (hle : p.rank ≤ q.rank) : Firm q pending :=
  fun op hop => h op (Nat.le_trans hle hop)

theorem nil : Firm p [] := fun _ _ _ => rfl

theorem opening (span : Span) : Firm p (.opening span :: pending) := fun _ _ _ => rfl

theorem operator (op : Operator) (span : Span) :
    Firm (Phrase.rhs op) (.operator op span :: pending) := by
  intro incoming hle operands
  simp [settleFor, (not_bindsBefore_iff op incoming).mpr hle]

end Firm

/-- Whether a phrase of this kind can be the right operand of the topmost item. -/
def Fits (p : Phrase) : List Pending → Prop
  | .operator op _ :: _ => (Phrase.rhs op).rank ≤ p.rank
  | _ => True

theorem fits_atom (pending : List Pending) : Fits .atom pending := by
  cases pending with
  | nil => trivial
  | cons item below =>
    cases item with
    | opening => trivial
    | operator op => exact Phrase.rank_le_atom _

/-- The stacks where an operand has to come, and the tokens read so far. -/
inductive Stacked : List Pending → List Expr → List (Token Kind) → Prop
  | start : Stacked [] [] []
  | opening {pending : List Pending} {operands : List Expr} {tokens : List (Token Kind)}
      {token : Token Kind} (below : Stacked pending operands tokens)
      (kind : token.kind = .opening) :
      Stacked (.opening token.span :: pending) operands (tokens ++ [token])
  | operator {pending : List Pending} {operands : List Expr} {tokens ls : List (Token Kind)}
      {token : Token Kind} {op : Operator} {l : Expr} (below : Stacked pending operands tokens)
      (lhs : Derives (Phrase.lhs op) ls l) (kind : token.kind = .operator op)
      (fits : Fits (Phrase.whole op) pending) :
      Stacked (.operator op token.span :: pending) (l :: operands) (tokens ++ (ls ++ [token]))

/-- The stacks after a phrase of this kind, and the tokens read so far. -/
inductive Topped (p : Phrase) : List Pending → List Expr → List (Token Kind) → Prop
  | intro {pending : List Pending} {operands : List Expr} {tokens top : List (Token Kind)}
      {e : Expr} (below : Stacked pending operands tokens) (phrase : Derives p top e)
      (fits : Fits p pending) : Topped p pending (e :: operands) (tokens ++ top)

namespace Topped

variable {p : Phrase} {op : Operator} {span : Span} {pending : List Pending}
  {operands : List Expr} {tokens : List (Token Kind)} {token : Token Kind}

/-- Settling an operator never fails, and makes one phrase of both operands. -/
theorem combine (h : Topped p (.operator op span :: pending) operands tokens) :
    ∃ settled, combine op span operands = .ok settled ∧
      Topped (Phrase.whole op) pending settled tokens := by
  obtain ⟨below, phrase, fits⟩ := h
  cases below with
  | operator below lhs kind fits' =>
    refine ⟨_, combine_join .., ?_⟩
    simpa using Topped.intro below (lhs.join kind (phrase.loosen fits)) fits'

theorem push (h : Topped p pending operands tokens) (tight : (Phrase.lhs op).rank ≤ p.rank)
    (kind : token.kind = .operator op) :
    ∃ kept settled, settleFor op pending operands = .ok (kept, settled) ∧
      Stacked (.operator op token.span :: kept) settled (tokens ++ [token]) := by
  have stay {pending : List Pending} {operands : List Expr} {p : Phrase}
      (h : Topped p pending operands tokens) (tight : (Phrase.lhs op).rank ≤ p.rank)
      (fits : Fits (Phrase.whole op) pending) :
      Stacked (.operator op token.span :: pending) operands (tokens ++ [token]) := by
    obtain ⟨below, phrase, -⟩ := h
    simpa using Stacked.operator below (phrase.loosen tight) kind fits
  induction pending generalizing p operands with
  | nil => exact ⟨_, _, rfl, stay h tight trivial⟩
  | cons item pending ih =>
    cases item with
    | opening => exact ⟨_, _, rfl, stay h tight trivial⟩
    | operator stacked span =>
      cases hb : bindsBefore stacked op with
      | false =>
        refine ⟨_, _, by simp [settleFor, hb], stay h tight ?_⟩
        exact (not_bindsBefore_iff stacked op).mp hb
      | true =>
        obtain ⟨settled, hc, hs⟩ := h.combine
        obtain ⟨kept, settled', hk, hst⟩ := ih hs ((bindsBefore_iff stacked op).mp hb)
        refine ⟨kept, settled', ?_, hst⟩
        simp only [settleFor, hb, hc, if_true]
        exact hk

theorem close (h : Topped p pending operands tokens) (kind : token.kind = .closing) :
    settleGroup pending operands = .ok none ∨
      ∃ kept settled, settleGroup pending operands = .ok (some (kept, settled)) ∧
        Topped .atom kept settled (tokens ++ [token]) := by
  induction pending generalizing p operands with
  | nil => exact .inl rfl
  | cons item pending ih =>
    cases item with
    | opening span =>
      obtain ⟨below, phrase, -⟩ := h
      cases below with
      | opening below opens =>
        refine .inr ⟨_, _, rfl, ?_⟩
        have inside := phrase.loosen (p := .expression) (Nat.zero_le _)
        simpa using Topped.intro below (.group opens kind inside) (fits_atom _)
    | operator op span =>
      obtain ⟨settled, hc, hs⟩ := h.combine
      simp only [settleGroup, hc]
      exact ih hs

theorem finish {stop : Span} {e : Expr} (h : Topped p pending operands tokens)
    (he : settleAll stop pending operands = .ok e) : Derives .expression tokens e := by
  induction pending generalizing p operands with
  | nil =>
    obtain ⟨below, phrase, -⟩ := h
    cases below with
    | start =>
      obtain rfl : _ = e := Except.ok.inj he
      exact phrase.loosen (Nat.zero_le _)
  | cons item pending ih =>
    cases item with
    | opening span => simp [settleAll] at he
    | operator op span =>
      obtain ⟨settled, hc, hs⟩ := h.combine
      simp only [settleAll, hc] at he
      exact ih hs he

end Topped

end Calculator.Arith
