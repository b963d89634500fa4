import Calculator.Proofs.Arith.Reading
import Calculator.Proofs.Text.Places

/-!
Arithmetic decides nothing by offsets. Tokens that are alike take the stacks of two runs from alike
to alike, token by token, and so both runs end with the same expression, apart from regions, or with
the same error.
-/

set_option autoImplicit false
set_option relaxedAutoImplicit false

namespace Calculator.Arith

/-- The same expression, apart from regions, which are related one by one. -/
inductive Expr.Alike (run : Span → Span → Prop) : Expr → Expr → Prop
  | literal (value : Float) {x y : Span} (span : run x y) :
      Alike run (.literal value x) (.literal value y)
  | binary (op : Operator) {a b x y : Span} {l l' r r' : Expr} (opSpan : run a b)
      (lhs : Alike run l l') (rhs : Alike run r r') (span : run x y) :
      Alike run (.binary op a l r x) (.binary op b l' r' y)
  | call (f : Builtin) {x y : Span} {arg arg' : Expr} (inner : Alike run arg arg')
      (span : run x y) : Alike run (.call f arg x) (.call f arg' y)

theorem Expr.Alike.span {run : Span → Span → Prop} {e e' : Expr} (h : e.Alike run e') :
    run e.span e'.span := by
  cases h with
  | literal _ span | binary _ _ _ _ span | call _ _ span => exact span

theorem Expr.Alike.mono {run other : Span → Span → Prop} {e e' : Expr} (h : e.Alike run e')
    (regions : ∀ x y, run x y → other x y) : e.Alike other e' := by
  induction h with
  | literal value span => exact .literal value (regions _ _ span)
  | binary op opSpan _ _ span ihl ihr =>
    exact .binary op (regions _ _ opSpan) ihl ihr (regions _ _ span)
  | call f _ span ih => exact .call f ih (regions _ _ span)

variable {places : Places}

inductive Pending.Alike (places : Places) : Pending → Pending → Prop
  | operator (op : Operator) {x y : Span} (span : places.Run x y) :
      Alike places (.operator op x) (.operator op y)
  | opening {x y : Span} (span : places.Run x y) : Alike places (.opening x) (.opening y)

abbrev Operands.Alike (places : Places) : List Expr → List Expr → Prop :=
  List.Forall₂ (Expr.Alike places.Run)

structure Stacks.Alike (places : Places) (a b : List Pending × List Expr) : Prop where
  pending : List.Forall₂ (Pending.Alike places) a.1 b.1
  operands : Operands.Alike places a.2 b.2

section Stacks

variable {pending pending' : List Pending} {operands operands' : List Expr} {x y : Span}

theorem combine_alike (op : Operator) (span : places.Run x y)
    (h : Operands.Alike places operands operands') :
    SameOutcome places.Region (Operands.Alike places) (combine op x operands)
      (combine op y operands') := by
  have missing : Diagnostic.Alike places.Region (.one x (.missingOperand op.symbol))
      (.one y (.missingOperand op.symbol)) := .one (.run span) _
  match h with
  | .nil => exact .error missing
  | .cons _ .nil => exact .error missing
  | .cons rhs (.cons lhs rest) =>
    exact .ok (.cons (.binary op span lhs rhs (lhs.span.through rhs.span)) rest)

theorem settleFor_alike (incoming : Operator)
    (hp : List.Forall₂ (Pending.Alike places) pending pending')
    (ho : Operands.Alike places operands operands') :
    SameOutcome places.Region (Stacks.Alike places) (settleFor incoming pending operands)
      (settleFor incoming pending' operands') := by
  induction hp generalizing operands operands' with
  | nil => exact .ok ⟨.nil, ho⟩
  | cons head tail ih =>
    cases head with
    | opening span => exact .ok ⟨.cons (.opening span) tail, ho⟩
    | operator op span =>
      simp only [settleFor]
      by_cases hb : bindsBefore op incoming = true
      · rw [if_pos hb, if_pos hb]
        exact (combine_alike op span ho).bind fun _ _ _ ho => ih ho
      · rw [if_neg hb, if_neg hb]
        exact .ok ⟨.cons (.operator op span) tail, ho⟩

theorem settleGroup_alike (hp : List.Forall₂ (Pending.Alike places) pending pending')
    (ho : Operands.Alike places operands operands') :
    SameOutcome places.Region (Option.Rel (Stacks.Alike places)) (settleGroup pending operands)
      (settleGroup pending' operands') := by
  induction hp generalizing operands operands' with
  | nil => exact .ok .none
  | cons head tail ih =>
    cases head with
    | opening span => exact .ok (.some ⟨tail, ho⟩)
    | operator op span => exact (combine_alike op span ho).bind fun _ _ _ ho => ih ho

theorem settleAll_alike (hstop : places.Region x y)
    (hp : List.Forall₂ (Pending.Alike places) pending pending')
    (ho : Operands.Alike places operands operands') :
    SameOutcome places.Region (Expr.Alike places.Run) (settleAll x pending operands)
      (settleAll y pending' operands') := by
  induction hp generalizing operands operands' with
  | nil =>
    cases ho with
    | nil => exact .error (.one hstop _)
    | cons head _ => exact .ok head
  | cons head tail ih =>
    cases head with
    | opening span => exact .error (.one (.run span) _)
    | operator op span => exact (combine_alike op span ho).bind fun _ _ _ ho => ih ho

end Stacks

structure State.Alike (places : Places) (s s' : State) : Prop where
  operands : Operands.Alike places s.operands s'.operands
  pending : List.Forall₂ (Pending.Alike places) s.pending s'.pending
  awaited : s.awaited = s'.awaited
  previous : Option.Rel (Token.Alike places) s.previous s'.previous

section Step

variable {state state' : State} {token token' : Token Kind} {e e' : Expr}

theorem State.Alike.push (h : state.Alike places state') (he : e.Alike places.Run e')
    (ht : token.Alike places token') :
    (state.push e token).Alike places (state'.push e' token') where
  operands := .cons he h.operands
  pending := h.pending
  awaited := rfl
  previous := .some ht

theorem missingRight_alike (ht : token.Alike places token') :
    (missingRight token).Alike places.Region (missingRight token') := by
  rw [missingRight, missingRight, ← ht.kind]
  cases token.kind with
  | operator op => exact .one (.run ht.span) _
  | number | name | opening | closing | symbol => exact .one (.run ht.span) _

theorem missingLeft_alike (op : Operator) (ht : token.Alike places token') :
    (missingLeft op token).Alike places.Region (missingLeft op token') := by
  cases op with
  | add | sub | mul | div | pow => exact .one (.run ht.span) _

theorem missingOperator_alike (h : state.Alike places state') (ht : token.Alike places token') :
    (missingOperator state token).Alike places.Region (missingOperator state' token') := by
  rw [missingOperator, missingOperator]
  match state.operands, state'.operands, h.operands with
  | _, _, .nil => exact .one (.run ht.span) _
  | _, _, .cons head _ => exact .two (.run head.span) (.run ht.span) _

theorem misplacedClosing_alike (h : state.Alike places state') (ht : token.Alike places token') :
    (misplacedClosing state token).Alike places.Region (misplacedClosing state' token') := by
  rw [misplacedClosing, misplacedClosing]
  match state.previous, state'.previous, h.previous with
  | _, _, .none => exact .one (.run ht.span) _
  | _, _, .some (a := previous) (b := previous') hprevious =>
    simp only [← hprevious.kind]
    by_cases opens : previous.kind = .opening
    · rw [if_pos opens, if_pos opens]
      exact .one (.run (hprevious.span.through ht.span)) _
    · rw [if_neg opens, if_neg opens]
      exact missingRight_alike hprevious

theorem nameAlone_alike (ht : token.Alike places token') :
    (nameAlone token).Alike places.Region (nameAlone token') := by
  rw [nameAlone, nameAlone, ← ht.text]
  cases Builtin.ofName? token.text with
  | none => exact .one (.run ht.span) _
  | some f => exact .one (.run ht.span) _

theorem step_alike (h : state.Alike places state') (ht : token.Alike places token') :
    SameOutcome places.Region (State.Alike places) (state.step token) (state'.step token') := by
  rw [State.step, State.step, ← ht.kind, ← h.awaited]
  cases token.kind with
  | symbol =>
    rw [← ht.text]
    exact .error (.one (.run ht.span) _)
  | number =>
    cases state.awaited with
    | operator => exact .error (missingOperator_alike h ht)
    | operand =>
      simp only [← ht.lexeme, ← ht.text]
      cases Number.read? token.lexeme with
      | none => exact .error (.one (.run ht.span) _)
      | some value => exact .ok (h.push (.literal value ht.span) ht)
  | name =>
    cases state.awaited with
    | operator => exact .error (missingOperator_alike h ht)
    | operand => exact .error (nameAlone_alike ht)
  | opening =>
    cases state.awaited with
    | operator => exact .error (missingOperator_alike h ht)
    | operand => exact .ok ⟨h.operands, .cons (.opening ht.span) h.pending, rfl, .some ht⟩
  | closing =>
    cases state.awaited with
    | operand => exact .error (misplacedClosing_alike h ht)
    | operator =>
      refine (settleGroup_alike h.pending h.operands).bind fun found found' _ hfound => ?_
      cases hfound with
      | none => exact .error (.one (.run ht.span) _)
      | some hfound => exact .ok ⟨hfound.operands, hfound.pending, rfl, .some ht⟩
  | operator op =>
    cases state.awaited with
    | operand => exact .error (missingLeft_alike op ht)
    | operator =>
      refine (settleFor_alike op h.pending h.operands).bind fun settled settled' _ hsettled => ?_
      exact .ok ⟨hsettled.operands, .cons (.operator op ht.span) hsettled.pending, rfl, .some ht⟩

theorem finish_alike {stop stop' : Span} (hstop : places.Region stop stop')
    (h : state.Alike places state') :
    SameOutcome places.Region (Expr.Alike places.Run)
      (state.finish stop) (state'.finish stop') := by
  rw [State.finish, State.finish, ← h.awaited]
  cases state.awaited with
  | operator => exact settleAll_alike hstop h.pending h.operands
  | operand =>
    have hprevious := h.previous
    generalize state.previous = before at hprevious ⊢
    generalize state'.previous = before' at hprevious ⊢
    cases hprevious with
    | none => exact .error (.one hstop _)
    | @some previous _ hprevious =>
      simp only [← hprevious.kind]
      by_cases opens : previous.kind = .opening
      · rw [if_pos opens, if_pos opens]
        exact .error (.one (.run hprevious.span) _)
      · rw [if_neg opens, if_neg opens]
        exact .error (missingRight_alike hprevious)

end Step

structure Split.Alike (places : Places)
    (a b : List (Token Kind) × Token Kind × List (Token Kind)) : Prop where
  inner : Tokens.Alike places a.1 b.1
  closing : a.2.1.Alike places b.2.1
  after : Tokens.Alike places a.2.2 b.2.2

section Calls

variable {tokens tokens' rest rest' : List (Token Kind)} {token token' : Token Kind}
  {state state' : State}

theorem splitClosing_alike (depth : Nat) (h : Tokens.Alike places tokens tokens') :
    Option.Rel (Split.Alike places) (splitClosing depth tokens) (splitClosing depth tokens') := by
  induction h generalizing depth with
  | nil => exact .none
  | @cons token token' rest rest' ht hrest ih =>
    have deeper (inside : Nat) : Option.Rel (Split.Alike places)
        ((splitClosing inside rest).map (prepend [token]))
        ((splitClosing inside rest').map (prepend [token'])) := by
      match splitClosing inside rest, splitClosing inside rest', ih inside with
      | _, _, .none => exact .none
      | _, _, .some hfound => exact .some ⟨.cons ht hfound.inner, hfound.closing, hfound.after⟩
    by_cases opens : token.kind = .opening
    · rw [splitClosing_opening opens, splitClosing_opening (ht.kind ▸ opens)]
      exact deeper _
    by_cases closes : token.kind = .closing
    · cases depth with
      | zero =>
        rw [splitClosing_end closes, splitClosing_end (ht.kind ▸ closes)]
        exact .some ⟨.nil, ht, hrest⟩
      | succ depth =>
        rw [splitClosing_closing closes, splitClosing_closing (ht.kind ▸ closes)]
        exact deeper depth
    · rw [splitClosing_other opens closes,
        splitClosing_other (ht.kind ▸ opens) (ht.kind ▸ closes)]
      exact deeper depth

theorem callHead?_alike (h : state.Alike places state') (ht : token.Alike places token')
    (hrest : Tokens.Alike places rest rest') :
    (callHead? state (token :: rest) = none ∧ callHead? state' (token' :: rest') = none) ∨
      ∃ f opening opening' inside inside',
        callHead? state (token :: rest) = some (f, opening, inside) ∧
        callHead? state' (token' :: rest') = some (f, opening', inside') ∧
        opening.Alike places opening' ∧ Tokens.Alike places inside inside' := by
  cases hrest with
  | nil => exact .inl ⟨rfl, rfl⟩
  | @cons opening opening' inside inside' ho hinside =>
    simp only [callHead?, ← ht.kind, ← ho.kind, ← h.awaited, ← ht.text]
    split
    · cases Builtin.ofName? token.text with
      | none => exact .inl ⟨rfl, rfl⟩
      | some f => exact .inr ⟨f, opening, opening', inside, inside', rfl, rfl, ho, hinside⟩
    · exact .inl ⟨rfl, rfl⟩

end Calls

/-- Two runs over tokens that are alike, from states that are alike, end alike. -/
theorem parseFrom_alike {tokens tokens' : List (Token Kind)} {state state' : State}
    {stop stop' : Span} (hstop : places.Region stop stop') (h : state.Alike places state')
    (htokens : Tokens.Alike places tokens tokens') :
    SameOutcome places.Region (Expr.Alike places.Run) (parseFrom stop state tokens)
      (parseFrom stop' state' tokens') := by
  induction hn : tokens.length using Nat.strongRecOn
    generalizing tokens tokens' state state' stop stop' with
  | _ n ih =>
    subst hn
    cases htokens with
    | nil =>
      rw [parseFrom_nil, parseFrom_nil]
      exact finish_alike hstop h
    | @cons token token' rest rest' ht hrest =>
      rcases callHead?_alike h ht hrest with
        ⟨hc, hc'⟩ | ⟨f, opening, opening', inside, inside', hc, hc', ho, hinside⟩
      · rw [parseFrom_step hc, parseFrom_step hc']
        exact (step_alike h ht).bind fun _ _ _ hnext =>
          ih rest.length (Nat.lt_succ_self _) hstop hnext hrest rfl
      rw [parseFrom_call hc, parseFrom_call hc']
      have hlength : inside.length + 2 = (token :: rest).length := length_of_callHead? hc
      have hsplit := splitClosing_alike 0 hinside
      generalize hs : splitClosing 0 inside = found at hsplit ⊢
      generalize splitClosing 0 inside' = found' at hsplit ⊢
      cases hsplit with
      | none => exact .error (.one (.run ho.span) _)
      | @some found found' hfound =>
        obtain ⟨inner, closing, after⟩ := found
        obtain ⟨inner', closing', after'⟩ := found'
        have hbelow : inner.length + 1 + after.length = inside.length := length_of_splitClosing hs
        have hspan : places.Run (token.span.through closing.span)
            (token'.span.through closing'.span) := ht.span.through hfound.closing.span
        have hempty : inner.isEmpty = inner'.isEmpty := by
          rw [Bool.eq_iff_iff, List.isEmpty_iff_length_eq_zero, List.isEmpty_iff_length_eq_zero,
            hfound.inner.length_eq]
        simp only [← hempty]
        cases inner.isEmpty with
        | true => exact .error (.one (.run (ho.span.through hfound.closing.span)) _)
        | false =>
          refine (ih inner.length (by omega) (.before hfound.closing.span) ?_ hfound.inner rfl).bind
            fun arg arg' _ harg => ?_
          · exact ⟨.nil, .nil, rfl, .none⟩
          · exact ih after.length (by omega) hstop
              (h.push (.call f harg hspan) hfound.closing) hfound.after rfl

theorem ofSource_alike {s t : Source} (h : s.Alike places t) :
    SameOutcome places.Region (Expr.Alike places.Run) (ofSource s) (ofSource t) := by
  rw [ofSource, ofSource, ← h.isEmpty]
  cases s.isEmpty with
  | true => exact .error (.one h.endSpan _)
  | false => exact parseFrom_alike h.endSpan ⟨.nil, .nil, rfl, .none⟩ (h.scan lexicon)

end Calculator.Arith
