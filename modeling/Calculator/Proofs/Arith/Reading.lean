import Calculator.Proofs.Arith.Stacks

/-!
Reading arithmetic follows its grammar. `Reads` says of a phrase that reading it, whatever is on the
stacks and whatever comes after, leaves its expression on them, apart from operators still held;
every derivation gives one. `Reached` is the invariant of a run the other way round: whatever the
state, its stacks are made of phrases that were derived from the tokens read so far. Together they
say that a list of tokens is read exactly if the grammar derives it, and as what.
-/

set_option autoImplicit false
set_option relaxedAutoImplicit false

namespace Calculator.Arith

variable {stop : Span} {state : State} {token : Token Kind} {rest : List (Token Kind)}

theorem parseFrom_nil : parseFrom stop state [] = state.finish stop := by rw [parseFrom]

theorem parseFrom_step (hc : callHead? state (token :: rest) = none) :
    parseFrom stop state (token :: rest) =
      state.step token >>= fun next => parseFrom stop next rest := by
  rw [parseFrom]
  split
  · next h => simp [hc] at h
  · rfl

theorem parseFrom_call {f : Builtin} {opening : Token Kind} {inside : List (Token Kind)}
    (hc : callHead? state (token :: rest) = some (f, opening, inside)) :
    parseFrom stop state (token :: rest) =
      match splitClosing 0 inside with
      | none => .error (.one opening.span (.unclosed .parenthesis true))
      | some (inner, closing, after) =>
        if inner.isEmpty then .error (.one (Span.through opening.span closing.span) .emptyGroup)
        else
          parseFrom (Span.point closing.span.start) State.initial inner >>= fun arg =>
            parseFrom stop (state.push (.call f arg (Span.through token.span closing.span)) closing)
              after := by
  rw [parseFrom]
  split
  · next h =>
    cases hc.symm.trans h
    split
    · next h => simp only [h]
    · next h => simp only [h]
  · next h => simp [hc] at h

theorem callHead?_eq_none_of_kind (h : token.kind ≠ .name) :
    callHead? state (token :: rest) = none := by
  cases rest with
  | nil => rfl
  | cons next rest => simp [callHead?, h]

theorem callHead?_eq_none_of_awaited (h : state.awaited = .operator) :
    callHead? state (token :: rest) = none := by
  cases rest with
  | nil => rfl
  | cons next rest => simp [callHead?, h]

theorem callHead?_eq_some {f : Builtin} {opening : Token Kind} {inside : List (Token Kind)} :
    callHead? state (token :: rest) = some (f, opening, inside) ↔
      state.awaited = .operand ∧ token.kind = .name ∧ Builtin.ofName? token.text = some f ∧
        opening.kind = .opening ∧ rest = opening :: inside := by
  cases rest with
  | nil => simp [callHead?]
  | cons next rest =>
    simp only [callHead?, Option.ite_none_right_eq_some, Bool.and_eq_true, decide_eq_true_eq,
      Option.map_eq_some_iff, Prod.mk.injEq, List.cons.injEq]
    constructor
    · rintro ⟨⟨⟨ha, hn⟩, ho⟩, g, hg, rfl, rfl, rfl⟩
      exact ⟨ha, hn, hg, ho, rfl, rfl⟩
    · rintro ⟨ha, hn, hg, ho, rfl, rfl⟩
      exact ⟨⟨⟨ha, hn⟩, ho⟩, f, hg, rfl, rfl, rfl⟩

/-! Every derivation is read. -/

/-- Reading these tokens where an operand has to come, with items on the stack that the phrase
does not settle, leaves the expression on the stacks, apart from operators still held. -/
def Reads (p : Phrase) (tokens : List (Token Kind)) (e : Expr) : Prop :=
  ∀ (stop : Span) (pending : List Pending) (operands : List Expr) (previous : Option (Token Kind))
    (rest : List (Token Kind)), Firm p pending →
    ∃ held before last,
      parseFrom stop ⟨operands, pending, .operand, previous⟩ (tokens ++ rest) =
        parseFrom stop ⟨before, held ++ pending, .operator, some last⟩ rest ∧
      Held p held before (e :: operands)

namespace Reads

variable {p q : Phrase} {tokens : List (Token Kind)} {e : Expr}

theorem loosen (h : Reads q tokens e) (hle : p.rank ≤ q.rank) : Reads p tokens e := by
  intro stop pending operands previous rest firm
  obtain ⟨held, before, last, hread, hheld⟩ :=
    h stop pending operands previous rest (firm.tighten hle)
  exact ⟨held, before, last, hread, hheld.loosen hle⟩

theorem number {value : Float} (kind : token.kind = .number)
    (read : Number.read? token.lexeme = some value) :
    Reads .atom [token] (.literal value token.span) := by
  intro stop pending operands previous rest _
  refine ⟨[], _, token, ?_, .none _⟩
  rw [List.singleton_append, parseFrom_step (callHead?_eq_none_of_kind (by simp [kind]))]
  simp only [State.step, kind, read]
  rfl

theorem parseFrom_operator {op : Operator} {ls : List (Token Kind)} {l : Expr}
    {pending : List Pending} (lhs : Reads (Phrase.lhs op) ls l) (kind : token.kind = .operator op)
    (firm : Firm (Phrase.whole op) pending) (stop : Span) (operands : List Expr)
    (previous : Option (Token Kind)) (rest : List (Token Kind)) :
    parseFrom stop ⟨operands, pending, .operand, previous⟩ (ls ++ token :: rest) =
      parseFrom stop ⟨l :: operands, .operator op token.span :: pending, .operand, some token⟩
        rest := by
  obtain ⟨held, before, last, hread, hheld⟩ := lhs stop pending operands previous
    (token :: rest) (firm.tighten (Phrase.whole_le_lhs op))
  have hstep : State.step ⟨before, held ++ pending, .operator, some last⟩ token =
      .ok ⟨l :: operands, .operator op token.span :: pending, .operand, some token⟩ := by
    simp only [State.step, kind, hheld.settleFor, firm op (Nat.le_refl _)]
    rfl
  rw [hread, parseFrom_step (callHead?_eq_none_of_awaited rfl), hstep]
  rfl

theorem join (op : Operator) {ls rs : List (Token Kind)} {l r : Expr}
    (lhs : Reads (Phrase.lhs op) ls l) (kind : token.kind = .operator op)
    (rhs : Reads (Phrase.rhs op) rs r) :
    Reads (Phrase.whole op) (ls ++ token :: rs) (.join op token.span l r) := by
  intro stop pending operands previous rest firm
  obtain ⟨held, before, last, hread, hheld⟩ := rhs stop (.operator op token.span :: pending)
    (l :: operands) (some token) rest (Firm.operator op token.span)
  refine ⟨held ++ [.operator op token.span], before, last, ?_, ?_⟩
  · rw [List.append_assoc, List.cons_append, lhs.parseFrom_operator kind firm, hread,
      List.append_assoc]
    rfl
  · refine (hheld.loosen (Phrase.whole_le_rhs op)).append ?_
    exact .operator (Nat.le_refl _) (combine_join ..) (.none _)

theorem group {opening closing : Token Kind} {inner : List (Token Kind)}
    (opens : opening.kind = .opening) (closes : closing.kind = .closing)
    (inside : Reads .expression inner e) : Reads .atom (opening :: (inner ++ [closing])) e := by
  intro stop pending operands previous rest _
  obtain ⟨held, before, last, hread, hheld⟩ := inside stop (.opening opening.span :: pending)
    operands (some opening) (closing :: rest) (Firm.opening opening.span)
  have hopen : State.step ⟨operands, pending, .operand, previous⟩ opening =
      .ok ⟨operands, .opening opening.span :: pending, .operand, some opening⟩ := by
    simp only [State.step, opens]
  have hclose : State.step ⟨before, held ++ .opening opening.span :: pending, .operator, some last⟩
      closing = .ok ⟨e :: operands, pending, .operator, some closing⟩ := by
    simp only [State.step, closes, hheld.settleGroup]
    rfl
  refine ⟨[], _, closing, ?_, .none _⟩
  rw [List.cons_append, List.append_assoc, List.singleton_append,
    parseFrom_step (callHead?_eq_none_of_kind (by simp [opens])), hopen]
  show parseFrom _ _ (inner ++ closing :: rest) = _
  rw [hread, parseFrom_step (callHead?_eq_none_of_awaited rfl), hclose]
  rfl

theorem parseFrom_initial (h : Reads .expression tokens e) :
    parseFrom stop State.initial tokens = .ok e := by
  obtain ⟨held, before, last, hread, hheld⟩ := h stop [] [] none [] .nil
  rw [List.append_nil, List.append_nil, parseFrom_nil] at hread
  exact hread.trans hheld.settleAll

theorem call {name opening closing : Token Kind} {inner : List (Token Kind)} {f : Builtin}
    {arg : Expr} (kind : name.kind = .name) (known : Builtin.ofName? name.text = some f)
    (opens : opening.kind = .opening) (closes : closing.kind = .closing)
    (derived : Derives .expression inner arg) (inside : Reads .expression inner arg) :
    Reads .atom (name :: opening :: (inner ++ [closing]))
      (.call f arg (Span.through name.span closing.span)) := by
  intro stop pending operands previous rest _
  have hsplit : splitClosing 0 (inner ++ closing :: rest) = some (inner, closing, rest) := by
    rw [derived.splitClosing_append, splitClosing_end closes]
    simp [prepend]
  refine ⟨[], _, closing, ?_, .none _⟩
  rw [List.cons_append, List.cons_append, List.append_assoc, List.singleton_append,
    parseFrom_call (callHead?_eq_some.mpr ⟨rfl, kind, known, opens, rfl⟩), hsplit]
  simp only [List.isEmpty_iff, derived.ne_nil, if_false, inside.parseFrom_initial]
  rfl

end Reads

theorem Derives.reads {p : Phrase} {tokens : List (Token Kind)} {e : Expr}
    (h : Derives p tokens e) : Reads p tokens e := by
  induction h with
  | number kind read => exact .number kind read
  | call kind known opens closes inside ih => exact .call kind known opens closes inside ih
  | group opens closes _ ih => exact .group opens closes ih
  | atom _ ih => exact ih.loosen (by decide)
  | power _ ih => exact ih.loosen (by decide)
  | term _ ih => exact ih.loosen (by decide)
  | raised _ kind _ ihl ihr => exact .join .pow ihl kind ihr
  | scaled _ kind scales _ ihl ihr =>
    rcases scales with rfl | rfl
    · exact .join .mul ihl kind ihr
    · exact .join .div ihl kind ihr
  | shifted _ kind shifts _ ihl ihr =>
    rcases shifts with rfl | rfl
    · exact .join .add ihl kind ihr
    · exact .join .sub ihl kind ihr

/-! Everything that is read was derived. -/

/-- The invariant of a run: the stacks are made of phrases derived from the tokens read so far. -/
def Reached (state : State) (tokens : List (Token Kind)) : Prop :=
  match state.awaited with
  | .operand => Stacked state.pending state.operands tokens
  | .operator => Topped .atom state.pending state.operands tokens

namespace Reached

variable {tokens : List (Token Kind)} {e : Expr}

theorem initial : Reached State.initial [] := .start

theorem push {operand : List (Token Kind)} (h : Reached state tokens)
    (ha : state.awaited = .operand) (derived : Derives .atom operand e) :
    Reached (state.push e token) (tokens ++ operand) := by
  obtain ⟨operands, pending, awaited, previous⟩ := state
  subst ha
  exact .intro h derived (fits_atom pending)

theorem step {next : State} (h : Reached state tokens) (hs : state.step token = .ok next) :
    Reached next (tokens ++ [token]) := by
  obtain ⟨operands, pending, awaited, previous⟩ := state
  cases awaited with
  | operand =>
    cases kind : token.kind with
    | number =>
      cases read : Number.read? token.lexeme with
      | none => simp [State.step, kind, read] at hs
      | some value =>
        simp only [State.step, kind, read, Except.ok.injEq] at hs
        subst hs
        exact h.push rfl (.number kind read)
    | opening =>
      simp only [State.step, kind, Except.ok.injEq] at hs
      subst hs
      exact .opening h kind
    | name | closing | operator | symbol => simp [State.step, kind] at hs
  | operator =>
    cases kind : token.kind with
    | closing =>
      rcases Topped.close h kind with hg | ⟨kept, settled, hg, ht⟩
      · simp [State.step, kind, hg, bind, Except.bind] at hs
      · simp only [State.step, kind, hg, bind, Except.bind, Except.ok.injEq] at hs
        subst hs
        exact ht
    | operator op =>
      obtain ⟨kept, settled, hf, hst⟩ := Topped.push h (Phrase.rank_le_atom _) kind
      simp only [State.step, kind, hf, bind, Except.bind, Except.ok.injEq] at hs
      subst hs
      exact hst
    | number | name | opening | symbol => simp [State.step, kind] at hs

theorem finish (h : Reached state tokens) (he : state.finish stop = .ok e) :
    Derives .expression tokens e := by
  obtain ⟨operands, pending, awaited, previous⟩ := state
  cases awaited with
  | operator => exact Topped.finish h he
  | operand =>
    cases previous with
    | none => simp [State.finish] at he
    | some previous =>
      simp only [State.finish] at he
      split at he <;> cases he

/-- A run from a state with this invariant accepts only what the grammar derives. -/
theorem derives {more : List (Token Kind)} (h : Reached state tokens)
    (he : parseFrom stop state more = .ok e) : Derives .expression (tokens ++ more) e := by
  induction hn : more.length using Nat.strongRecOn generalizing state stop tokens more e with
  | _ n ih =>
    subst hn
    cases more with
    | nil =>
      rw [parseFrom_nil] at he
      rw [List.append_nil]
      exact h.finish he
    | cons token rest =>
      cases hc : callHead? state (token :: rest) with
      | none =>
        rw [parseFrom_step hc] at he
        cases hs : state.step token with
        | error d => simp [hs, bind, Except.bind] at he
        | ok next =>
          rw [hs] at he
          have := ih rest.length (Nat.lt_succ_self _) (h.step hs) he rfl
          simpa using this
      | some found =>
        obtain ⟨f, opening, inside⟩ := found
        obtain ⟨ha, kind, known, opens, rfl⟩ := callHead?_eq_some.mp hc
        rw [parseFrom_call hc] at he
        cases hsplit : splitClosing 0 inside with
        | none => simp [hsplit] at he
        | some found =>
          obtain ⟨inner, closing, after⟩ := found
          obtain ⟨rfl, closes⟩ := eq_of_splitClosing hsplit
          by_cases hempty : inner.isEmpty
          · simp [hsplit, hempty] at he
          · simp only [hsplit, hempty] at he
            cases harg : parseFrom (Span.point closing.span.start) State.initial inner with
            | error d => simp [harg, bind, Except.bind] at he
            | ok arg =>
              rw [harg] at he
              have hinner := ih inner.length (by simp; omega) initial harg rfl
              have hcall : Reached
                  (state.push (.call f arg (Span.through token.span closing.span)) closing)
                  (tokens ++ token :: opening :: (inner ++ [closing])) :=
                h.push ha (.call kind known opens closes hinner)
              have := ih after.length (by simp; omega) hcall he rfl
              simpa using this

end Reached

/-- Reading accepts exactly what the grammar derives, as exactly the expression it derives. -/
theorem ofTokens_eq_ok_iff {tokens : List (Token Kind)} {e : Expr} :
    ofTokens stop tokens = .ok e ↔ Derives .expression tokens e := by
  constructor
  · intro h
    simpa using Reached.initial.derives h
  · intro h
    exact h.reads.parseFrom_initial

end Calculator.Arith
