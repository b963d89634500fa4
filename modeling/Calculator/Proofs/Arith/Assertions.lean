import Calculator.Proofs.Arith.Regions

/-!
The reader of arithmetic with its assertions. The reader provides for outcomes that only a miscount
of its stacks could bring about: an operator that finds fewer than two operands, a result that is
missing or not the only one, an operand to point at that is not there. `Checked` is the reader with
a fault in the place of each of them, and with the count of operands checked at every head of its
loop, also in the arguments of calls. It never has a fault, and reads what the reader reads.
-/

set_option autoImplicit false
set_option relaxedAutoImplicit false

namespace Calculator.Arith

variable {α β : Type} {stop : Span} {state next : State} {token : Token Kind}
  {tokens more rest : List (Token Kind)} {pending : List Pending} {operands : List Expr}

def Pending.isOperator : Pending → Bool
  | .operator _ _ => true
  | .opening _ => false

def operators (pending : List Pending) : Nat := pending.countP Pending.isOperator

theorem operators_operator (op : Operator) (span : Span) :
    operators (.operator op span :: pending) = operators pending + 1 :=
  List.countP_cons_of_pos rfl

theorem operators_opening (span : Span) :
    operators (.opening span :: pending) = operators pending :=
  List.countP_cons_of_neg Bool.false_ne_true

/-- Whether there is one operand for each operator that is waiting, and one more where an operator
may come. -/
def State.Balanced (state : State) : Prop :=
  state.operands.length = operators state.pending +
    match state.awaited with
    | .operand => 0
    | .operator => 1

instance (state : State) : Decidable state.Balanced := inferInstanceAs (Decidable (_ = _))

theorem Stacked.length_eq (h : Stacked pending operands tokens) :
    operands.length = operators pending := by
  induction h with
  | start => rfl
  | opening _ _ ih => rw [operators_opening, ih]
  | operator _ _ _ _ ih => rw [operators_operator, List.length_cons, ih]

theorem Topped.length_eq {p : Phrase} (h : Topped p pending operands tokens) :
    operands.length = operators pending + 1 := by
  obtain ⟨below, -, -⟩ := h
  rw [List.length_cons, below.length_eq]

theorem Reached.balanced (h : Reached state tokens) : state.Balanced := by
  obtain ⟨operands, pending, awaited, previous⟩ := state
  cases awaited with
  | operand => exact Stacked.length_eq h
  | operator => exact Topped.length_eq h

theorem Reached.length_eq (h : Reached state tokens) (awaits : state.awaited = .operator) :
    state.operands.length = operators state.pending + 1 := by
  have hlength := h.balanced
  rw [State.Balanced, awaits] at hlength
  exact hlength

theorem Stacked.kind_of_getLast? (h : Stacked pending operands tokens)
    (last : token ∈ tokens.getLast?) : token.kind = .opening ∨ ∃ op, token.kind = .operator op := by
  cases h with
  | start => cases last
  | opening _ kind =>
    rw [List.getLast?_concat] at last
    exact .inl (Option.some.inj last ▸ kind)
  | operator _ _ kind _ =>
    rw [← List.append_assoc, List.getLast?_concat] at last
    exact .inr ⟨_, Option.some.inj last ▸ kind⟩

/-- What would go wrong in a reader that lost count of its stacks. -/
inductive Fault where
  /-- At the head of the loop, the operands on the stack do not fit the operators. -/
  | unbalanced
  /-- An operator finds fewer than two operands. -/
  | missingOperands
  /-- All operators are settled, and there is no operand. -/
  | noResult
  /-- All operators are settled, and there is more than one operand. -/
  | leftOver
  /-- A token without a right-hand side is no operator. -/
  | notAnOperator
  /-- An operand is one too many, and there is none before it. -/
  | noOperandBefore
  /-- A group is closed that was not opened. -/
  | depthBelowZero
  /-- A call has no tokens as its argument. -/
  | emptyArgument
deriving DecidableEq

/-- A fault, or a result or an error of the input. -/
abbrev Checked := ExceptT Diagnostic (Except Fault)

namespace Checked

def reply (x : Except Diagnostic α) : Checked α := .mk (.ok x)

def fault (f : Fault) : Checked α := .mk (.error f)

theorem reply_bind {x : Except Diagnostic α} {next : α → Checked β}
    {f : α → Except Diagnostic β} (h : ∀ a, x = .ok a → next a = reply (f a)) :
    reply x >>= next = reply (x >>= f) := by
  cases x with
  | error d => rfl
  | ok a => exact h a rfl

def combine (op : Operator) (span : Span) : List Expr → Checked (List Expr)
  | rhs :: lhs :: operands =>
    pure (.binary op span lhs rhs (Span.through lhs.span rhs.span) :: operands)
  | _ => fault .missingOperands

def settleFor (incoming : Operator) :
    List Pending → List Expr → Checked (List Pending × List Expr)
  | .operator op span :: pending, operands =>
    if bindsBefore op incoming then do
      let operands ← combine op span operands
      settleFor incoming pending operands
    else pure (.operator op span :: pending, operands)
  | pending, operands => pure (pending, operands)

def settleGroup : List Pending → List Expr → Checked (Option (List Pending × List Expr))
  | .operator op span :: pending, operands => do
    let operands ← combine op span operands
    settleGroup pending operands
  | .opening _ :: pending, operands => pure (some (pending, operands))
  | [], _ => pure none

def settleAll : List Pending → List Expr → Checked Expr
  | .operator op span :: pending, operands => do
    let operands ← combine op span operands
    settleAll pending operands
  | .opening span :: _, _ => throw (.one span (.unclosed .parenthesis true))
  | [], [operand] => pure operand
  | [], [] => fault .noResult
  | [], _ :: _ :: _ => fault .leftOver

def missingOperator (state : State) (token : Token Kind) : Checked α :=
  match state.operands with
  | [] => fault .noOperandBefore
  | operand :: _ => throw (.two operand.span token.span .missingOperator)

def missingRight (token : Token Kind) : Checked α :=
  match token.kind with
  | .operator op => throw (.one token.span (.missingOperand op.symbol))
  | _ => fault .notAnOperator

def misplacedClosing (state : State) (token : Token Kind) : Checked α :=
  match state.previous with
  | none => throw (.one token.span (.unclosed .parenthesis false))
  | some previous =>
    if previous.kind = .opening then
      throw (.one (Span.through previous.span token.span) .emptyGroup)
    else missingRight previous

def step (state : State) (token : Token Kind) : Checked State :=
  match token.kind, state.awaited with
  | .closing, .operand => misplacedClosing state token
  | .closing, .operator => do
    match ← settleGroup state.pending state.operands with
    | some (pending, operands) => pure ⟨operands, pending, .operator, some token⟩
    | none => throw (.one token.span (.unclosed .parenthesis false))
  | .operator op, .operator => do
    let (pending, operands) ← settleFor op state.pending state.operands
    pure ⟨operands, .operator op token.span :: pending, .operand, some token⟩
  | .number, .operator | .name, .operator | .opening, .operator => missingOperator state token
  | _, _ => reply (state.step token)

/-- The result after the last token. `nothing` is the result where there was none. -/
def finish (nothing : Checked Expr) (state : State) : Checked Expr :=
  match state.awaited, state.previous with
  | .operator, _ => settleAll state.pending state.operands
  | .operand, some previous =>
    if previous.kind = .opening then throw (.one previous.span (.unclosed .parenthesis true))
    else missingRight previous
  | .operand, none => nothing

/-- Split tokens at the parenthesis that closes a group, given how many groups are open, this one
included. -/
def splitClosing : Nat → List (Token Kind) →
    Except Fault (Option (List (Token Kind) × Token Kind × List (Token Kind)))
  | _, [] => .ok none
  | depth, token :: rest =>
    let deeper (depth : Nat) := (splitClosing depth rest).map (Option.map (prepend [token]))
    match token.kind, depth with
    | .opening, _ => deeper (depth + 1)
    | .closing, 0 => .error .depthBelowZero
    | .closing, 1 => .ok (some ([], token, rest))
    | .closing, outer + 2 => deeper (outer + 1)
    | _, _ => deeper depth

theorem splitClosing_eq (depth : Nat) (tokens : List (Token Kind)) :
    splitClosing (depth + 1) tokens = .ok (Arith.splitClosing depth tokens) := by
  induction tokens generalizing depth with
  | nil => rfl
  | cons token rest ih =>
    cases kind : token.kind with
    | opening =>
      rw [splitClosing_opening kind]
      simp only [splitClosing, kind, ih, Except.map]
    | closing =>
      cases depth with
      | zero =>
        rw [splitClosing_end kind]
        simp only [splitClosing, kind]
      | succ depth =>
        rw [splitClosing_closing kind]
        simp only [splitClosing, kind, ih, Except.map]
    | number | name | operator | symbol =>
      rw [splitClosing_other (by simp [kind]) (by simp [kind])]
      simp only [splitClosing, kind, ih, Except.map]

theorem length_of_splitClosing {inner after : List (Token Kind)} {closing : Token Kind}
    (h : splitClosing 1 tokens = .ok (some (inner, closing, after))) :
    inner.length + 1 + after.length = tokens.length := by
  rw [splitClosing_eq] at h
  exact Arith.length_of_splitClosing (Except.ok.inj h)

/-- Read tokens from a state on, checking the count of the operands before every token. The
argument of a call is never empty. -/
def parseFrom (nothing : Checked Expr) (state : State) (tokens : List (Token Kind)) :
    Checked Expr :=
  if state.Balanced then
    match tokens with
    | [] => finish nothing state
    | token :: rest =>
      match hc : callHead? state (token :: rest) with
      | some (f, opening, inside) =>
        match hs : splitClosing 1 inside with
        | .error f => fault f
        | .ok none => throw (.one opening.span (.unclosed .parenthesis true))
        | .ok (some (inner, closing, after)) =>
          have := length_of_callHead? hc
          have := length_of_splitClosing hs
          if inner.isEmpty then throw (.one (Span.through opening.span closing.span) .emptyGroup)
          else do
            let arg ← parseFrom (fault .emptyArgument) State.initial inner
            let call := Expr.call f arg (Span.through token.span closing.span)
            parseFrom nothing (state.push call closing) after
      | none => do
        let state ← step state token
        parseFrom nothing state rest
  else fault .unbalanced
termination_by tokens.length
decreasing_by all_goals simp_all only [List.length_cons]; omega

def ofTokens (stop : Span) (tokens : List (Token Kind)) : Except Fault (Except Diagnostic Expr) :=
  (parseFrom (throw (.one stop .unexpectedEnd)) State.initial tokens).run

section Settling

variable {op incoming : Operator} {span : Span}

theorem combine_bind {next : List Expr → Checked β} {f : List Expr → Except Diagnostic β}
    (h : 2 ≤ operands.length)
    (hnext : ∀ settled, settled.length + 1 = operands.length → next settled = reply (f settled)) :
    combine op span operands >>= next = reply (Arith.combine op span operands >>= f) := by
  match operands with
  | [] | [_] => simp at h
  | _ :: _ :: _ => exact hnext _ rfl

theorem settleFor_eq (h : operators pending < operands.length) :
    settleFor incoming pending operands = reply (Arith.settleFor incoming pending operands) := by
  induction pending generalizing operands with
  | nil => rfl
  | cons item pending ih =>
    cases item with
    | opening span => rfl
    | operator op span =>
      rw [operators_operator] at h
      rw [settleFor, Arith.settleFor]
      split
      · exact combine_bind (by omega) fun settled hlength => ih (by omega)
      · rfl

theorem settleGroup_eq (h : operators pending < operands.length) :
    settleGroup pending operands = reply (Arith.settleGroup pending operands) := by
  induction pending generalizing operands with
  | nil => rfl
  | cons item pending ih =>
    cases item with
    | opening span => rfl
    | operator op span =>
      rw [operators_operator] at h
      rw [settleGroup, Arith.settleGroup]
      exact combine_bind (by omega) fun settled hlength => ih (by omega)

theorem settleAll_eq (h : operands.length = operators pending + 1) :
    settleAll pending operands = reply (Arith.settleAll stop pending operands) := by
  induction pending generalizing operands with
  | nil =>
    obtain ⟨operand, rfl⟩ := List.length_eq_one_iff.mp h
    rfl
  | cons item pending ih =>
    cases item with
    | opening span => rfl
    | operator op span =>
      rw [operators_operator] at h
      rw [settleAll, Arith.settleAll]
      exact combine_bind (by omega) fun settled hlength => ih (by omega)

end Settling

end Checked

/-- The invariant of a run for its assertions: the stacks are made of the tokens read so far, and
the token just read is the last of them. -/
structure Sound (state : State) (tokens : List (Token Kind)) : Prop where
  reached : Reached state tokens
  previous : state.previous = tokens.getLast?

namespace Sound

theorem initial : Sound State.initial [] := ⟨.initial, rfl⟩

theorem step (h : Sound state tokens) (hs : state.step token = .ok next) :
    Sound next (tokens ++ [token]) where
  reached := h.reached.step hs
  previous := by rw [Read.previous_of_step hs, List.getLast?_concat]

theorem call {name opening closing : Token Kind} {inner : List (Token Kind)} {f : Builtin}
    {arg : Expr} (h : Sound state tokens) (awaits : state.awaited = .operand)
    (kind : name.kind = .name) (known : Builtin.ofName? name.text = some f)
    (opens : opening.kind = .opening) (closes : closing.kind = .closing)
    (inside : Derives .expression inner arg) :
    Sound (state.push (.call f arg (Span.through name.span closing.span)) closing)
      (tokens ++ name :: opening :: (inner ++ [closing])) where
  reached := h.reached.push awaits (.call kind known opens closes inside)
  previous := by
    have hlast : tokens ++ name :: opening :: (inner ++ [closing]) =
        (tokens ++ name :: opening :: inner) ++ [closing] := by simp
    rw [hlast, List.getLast?_concat]
    rfl

theorem kind_of_previous (h : Sound state tokens) (awaits : state.awaited = .operand)
    (previous : state.previous = some token) :
    token.kind = .opening ∨ ∃ op, token.kind = .operator op := by
  obtain ⟨reached, last⟩ := h
  rw [last] at previous
  rw [Reached, awaits] at reached
  exact reached.kind_of_getLast? previous

theorem missingRight_eq (h : ∃ op, token.kind = .operator op) :
    (Checked.missingRight token : Checked α) = Checked.reply (.error (missingRight token)) := by
  obtain ⟨op, kind⟩ := h
  simp only [Checked.missingRight, missingRight, kind]
  rfl

theorem missingOperator_eq (h : Reached state tokens) (awaits : state.awaited = .operator) :
    (Checked.missingOperator state token : Checked α) =
      Checked.reply (.error (missingOperator state token)) := by
  obtain ⟨operand, below, hoperands⟩ :=
    List.exists_cons_of_length_eq_add_one (h.length_eq awaits)
  rw [Checked.missingOperator, missingOperator, hoperands]
  rfl

theorem missingRight_or_eq (h : Sound state tokens) (awaits : state.awaited = .operand)
    (previous : state.previous = some token) (d : Diagnostic) :
    (if token.kind = .opening then throw d else Checked.missingRight token : Checked α) =
      Checked.reply (.error (if token.kind = .opening then d else missingRight token)) := by
  rcases h.kind_of_previous awaits previous with opens | operates
  · rw [if_pos opens, if_pos opens]
    rfl
  · have hne : token.kind ≠ .opening := by
      obtain ⟨op, kind⟩ := operates
      simp [kind]
    rw [if_neg hne, if_neg hne]
    exact missingRight_eq operates

theorem misplacedClosing_eq (h : Sound state tokens) (awaits : state.awaited = .operand) :
    (Checked.misplacedClosing state token : Checked α) =
      Checked.reply (.error (misplacedClosing state token)) := by
  rw [Checked.misplacedClosing, misplacedClosing]
  cases previous : state.previous with
  | none => rfl
  | some last => exact h.missingRight_or_eq awaits previous _

theorem step_eq (h : Sound state tokens) (token : Token Kind) :
    Checked.step state token = Checked.reply (state.step token) := by
  cases awaits : state.awaited with
  | operand =>
    cases kind : token.kind with
    | closing =>
      simp only [Checked.step, State.step, kind, awaits]
      exact h.misplacedClosing_eq awaits
    | number | name | opening | operator | symbol => simp only [Checked.step, kind, awaits]
  | operator =>
    have hlength := h.reached.length_eq awaits
    have hroom : operators state.pending < state.operands.length := by omega
    cases kind : token.kind with
    | closing =>
      simp only [Checked.step, State.step, kind, awaits, Checked.settleGroup_eq hroom]
      exact Checked.reply_bind fun found _ => by cases found <;> rfl
    | operator op =>
      simp only [Checked.step, State.step, kind, awaits, Checked.settleFor_eq hroom]
      exact Checked.reply_bind fun found _ => rfl
    | number | name | opening =>
      simp only [Checked.step, State.step, kind, awaits]
      exact missingOperator_eq h.reached awaits
    | symbol => simp only [Checked.step, kind, awaits]

theorem finish_eq (h : Sound state tokens) {nothing : Checked Expr}
    (hnothing : tokens = [] → nothing = Checked.reply (.error (.one stop .unexpectedEnd))) :
    Checked.finish nothing state = Checked.reply (state.finish stop) := by
  rw [Checked.finish, State.finish]
  cases awaits : state.awaited with
  | operator => exact Checked.settleAll_eq (h.reached.length_eq awaits)
  | operand =>
    cases previous : state.previous with
    | none =>
      rw [h.previous, List.getLast?_eq_none_iff] at previous
      exact hnothing previous
    | some last =>
      dsimp only
      rw [← apply_ite Except.error]
      exact h.missingRight_or_eq awaits previous _

/-- A run from a state with the invariant passes all assertions. -/
theorem parseFrom_eq (h : Sound state tokens) {nothing : Checked Expr}
    (hnothing : tokens ++ more = [] →
      nothing = Checked.reply (.error (.one stop .unexpectedEnd))) :
    Checked.parseFrom nothing state more = Checked.reply (parseFrom stop state more) := by
  induction hn : more.length using Nat.strongRecOn
    generalizing state stop tokens more nothing with
  | _ n ih =>
    subst hn
    rw [Checked.parseFrom.eq_def, if_pos h.reached.balanced]
    cases more with
    | nil =>
      rw [parseFrom_nil]
      exact h.finish_eq (by simpa using hnothing)
    | cons token rest =>
      dsimp only
      split
      · next f opening inside hc =>
        obtain ⟨ha, kind, known, opens, rfl⟩ := callHead?_eq_some.mp hc
        rw [parseFrom_call hc]
        split
        · next hs => simp [Checked.splitClosing_eq] at hs
        · next hs =>
          rw [Checked.splitClosing_eq] at hs
          rw [Except.ok.inj hs]
          rfl
        · next inner closing after hs =>
          rw [Checked.splitClosing_eq] at hs
          have hsplit := Except.ok.inj hs
          obtain ⟨rfl, closes⟩ := eq_of_splitClosing hsplit
          rw [hsplit]
          dsimp only
          split
          · rfl
          · next hempty =>
            have hinner : Checked.parseFrom (Checked.fault .emptyArgument) .initial inner =
                Checked.reply (parseFrom (Span.point closing.span.start) .initial inner) :=
              ih inner.length (by simp; omega) initial
                (fun hnil => absurd (by simpa using hnil) hempty) rfl
            rw [hinner]
            refine Checked.reply_bind fun arg harg => ?_
            have hcall := h.call ha kind known opens closes (Reached.initial.derives harg)
            exact ih after.length (by simp; omega) hcall (by simp) rfl
      · next hc =>
        rw [parseFrom_step hc, h.step_eq]
        exact Checked.reply_bind fun next hs =>
          ih rest.length (Nat.lt_succ_self _) (h.step hs) (by simp) rfl

end Sound

/-- Reading with all assertions has no fault and the same outcome, whatever the tokens. -/
theorem checked_ofTokens (stop : Span) (tokens : List (Token Kind)) :
    Checked.ofTokens stop tokens = .ok (ofTokens stop tokens) :=
  congrArg ExceptT.run (Sound.initial.parseFrom_eq fun _ => rfl)

end Calculator.Arith
