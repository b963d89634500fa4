import Calculator.Proofs.Arith.Grouping
import Calculator.Proofs.Text.Regions

/-!
Where arithmetic is wrong. An expression stands where its tokens stand, so that an operator stands
between its operands, and an operand on the stack before every token that is still to be read. What
a run has to remember for its errors beyond the stacks is that the token just read is one of them.
-/

set_option autoImplicit false
set_option relaxedAutoImplicit false

namespace Calculator.Arith

variable {edge : Nat → Prop} {stop : Nat} {token previous : Token Kind}
  {tokens rest : List (Token Kind)} {state : State}

/-- Every part of an expression is a region of the input, and every operator stands between its
operands. -/
def Expr.InPlace (edge : Nat → Prop) (stop : Nat) : Expr → Prop
  | .literal _ span => span.Fits edge stop
  | .binary _ opSpan lhs rhs span =>
    span.Fits edge stop ∧ InOrder edge stop [lhs.span, opSpan, rhs.span] ∧
      lhs.InPlace edge stop ∧ rhs.InPlace edge stop
  | .call _ arg span => span.Fits edge stop ∧ arg.InPlace edge stop

/-- An expression stands where its tokens stand, whatever is around them. -/
def Stands (edge : Nat → Prop) (stop : Nat) (tokens : List (Token Kind)) (e : Expr) : Prop :=
  ∀ before after : List Span, InOrder edge stop (before ++ (Tokens.spans tokens ++ after)) →
    InOrder edge stop (before ++ e.span :: after)

namespace Stands

variable {before after : List Span} {ls rs : List (Token Kind)} {e l r : Expr}

theorem fits (h : Stands edge stop tokens e) (hspans : InOrder edge stop (Tokens.spans tokens)) :
    e.span.Fits edge stop := by
  have hstands : InOrder edge stop ([] ++ e.span :: []) := h [] [] (by simpa using hspans)
  exact hstands.head

theorem operands (hl : Stands edge stop ls l) (hr : Stands edge stop rs r)
    (h : InOrder edge stop (before ++ (Tokens.spans (ls ++ token :: rs) ++ after))) :
    InOrder edge stop (before ++ l.span :: token.span :: r.span :: after) := by
  have hleft : InOrder edge stop
      (before ++ l.span :: (token.span :: (Tokens.spans rs ++ after))) :=
    hl _ _ (by simpa using h)
  have hright : InOrder edge stop
      ((before ++ [l.span, token.span]) ++ r.span :: after) :=
    hr _ _ (by simpa using hleft)
  simpa using hright

theorem join (op : Operator) (hl : Stands edge stop ls l) (hr : Stands edge stop rs r) :
    Stands edge stop (ls ++ token :: rs) (.join op token.span l r) := by
  intro before after h
  have hoperands : InOrder edge stop
      (before ++ l.span :: ([token.span] ++ r.span :: after)) := hl.operands hr h
  exact hoperands.through

theorem join_inPlace (op : Operator) (hl : Stands edge stop ls l) (hr : Stands edge stop rs r)
    (hspans : InOrder edge stop (Tokens.spans (ls ++ token :: rs))) (lhs : l.InPlace edge stop)
    (rhs : r.InPlace edge stop) : (Expr.join op token.span l r).InPlace edge stop := by
  have hoperands : InOrder edge stop ([] ++ l.span :: token.span :: r.span :: []) :=
    hl.operands hr (by simpa using hspans)
  exact ⟨(hl.join op hr).fits hspans, hoperands, lhs, rhs⟩

end Stands

namespace Derives

variable {p : Phrase} {e : Expr}

theorem stands (h : Derives p tokens e) : Stands edge stop tokens e := by
  induction h with
  | number => exact fun before after h => h
  | @call name opening closing inner f arg =>
    intro before after h
    have hspans : InOrder edge stop
        (before ++ name.span :: (Tokens.spans (opening :: inner) ++ closing.span :: after)) := by
      simpa using h
    exact hspans.through
  | @group opening closing inner e _ _ _ ih =>
    intro before after h
    have hinner : InOrder edge stop
        ((before ++ [opening.span]) ++ e.span :: (closing.span :: after)) :=
      ih _ _ (by simpa using h)
    exact hinner.sublist (by simp)
  | atom _ ih | power _ ih | term _ ih => exact ih
  | raised _ _ _ ihl ihr | scaled _ _ _ _ ihl ihr | shifted _ _ _ _ ihl ihr => exact ihl.join _ ihr

theorem inPlace (h : Derives p tokens e) (hspans : InOrder edge stop (Tokens.spans tokens)) :
    e.InPlace edge stop := by
  induction h with
  | number => exact hspans.head
  | call kind known opens closes inside ih =>
    have hinner := InOrder.part hspans.tail.tail (List.sublist_append_left _ _)
    exact ⟨(Derives.call kind known opens closes inside).stands.fits hspans, ih hinner⟩
  | group _ _ _ ih => exact ih (InOrder.part hspans.tail (List.sublist_append_left _ _))
  | atom _ ih | power _ ih | term _ ih => exact ih hspans
  | raised lhs _ rhs ihl ihr | scaled lhs _ _ rhs ihl ihr | shifted lhs _ _ rhs ihl ihr =>
    have hleft := ihl (hspans.part (by simp))
    have hright := ihr (hspans.part (by simp))
    exact lhs.stands.join_inPlace _ rhs.stands hspans hleft hright

end Derives

theorem Expr.eval_located {e : Expr} (h : e.InPlace edge stop) :
    Located edge stop (fun _ => True) e.eval := by
  induction e with
  | literal value span => exact .ok trivial
  | call f arg span ih => exact (ih h.2).bind fun a _ _ => .ok trivial
  | binary op opSpan lhs rhs span ihl ihr =>
    obtain ⟨-, hoperands, hl, hr⟩ := h
    refine (ihl hl).bind fun a _ _ => ?_
    refine (ihr hr).bind fun b _ _ => ?_
    cases op.checked? a b with
    | some value => exact .ok trivial
    | none => exact .error (.two hoperands.tail rfl)

theorem missingRight_placed (h : token.span.Fits edge stop) :
    (missingRight token).Placed edge stop := by
  rw [missingRight]
  cases token.kind with
  | operator op => exact .one h rfl
  | number | name | opening | closing | symbol => exact .one h rfl

theorem missingLeft_placed (op : Operator) (h : token.span.Fits edge stop) :
    (missingLeft op token).Placed edge stop := by
  cases op with
  | add | sub | mul | div | pow => exact .one h rfl

theorem nameAlone_placed (h : token.span.Fits edge stop) : (nameAlone token).Placed edge stop := by
  rw [nameAlone]
  cases Builtin.ofName? token.text with
  | none => exact .one h rfl
  | some f => exact .one h rfl

/-- The invariant of a run for its errors: the stacks are made of the tokens read so far, and the
token just read is one of them. -/
structure Read (state : State) (tokens : List (Token Kind)) : Prop where
  reached : Reached state tokens
  previous : ∀ token ∈ state.previous, token ∈ tokens

namespace Read

theorem initial : Read State.initial [] where
  reached := .initial
  previous token h := by cases h

theorem previous_of_step {next : State} (hs : state.step token = .ok next) :
    next.previous = some token := by
  obtain ⟨operands, pending, awaited, previous⟩ := state
  cases awaited with
  | operand =>
    cases kind : token.kind with
    | number =>
      cases read : Number.read? token.lexeme with
      | none => simp [State.step, kind, read] at hs
      | some value =>
        simp only [State.step, kind, read, Except.ok.injEq] at hs
        exact hs ▸ rfl
    | opening =>
      simp only [State.step, kind, Except.ok.injEq] at hs
      exact hs ▸ rfl
    | name | closing | operator | symbol => simp [State.step, kind] at hs
  | operator =>
    cases kind : token.kind with
    | closing =>
      simp only [State.step, kind] at hs
      obtain ⟨found, -, hs⟩ := bind_eq_ok_iff.mp hs
      cases found with
      | none => cases hs
      | some found => exact Except.ok.inj hs ▸ rfl
    | operator op =>
      simp only [State.step, kind] at hs
      obtain ⟨settled, -, hs⟩ := bind_eq_ok_iff.mp hs
      exact Except.ok.inj hs ▸ rfl
    | number | name | opening | symbol => simp [State.step, kind] at hs

theorem step {next : State} (h : Read state tokens) (hs : state.step token = .ok next) :
    Read next (tokens ++ [token]) where
  reached := h.reached.step hs
  previous last hlast := by
    rw [previous_of_step hs] at hlast
    exact List.mem_append_right _ (List.mem_singleton.mpr (Option.some.inj hlast).symm)

theorem call {name opening closing : Token Kind} {inner : List (Token Kind)} {f : Builtin}
    {arg : Expr} (h : Read state tokens) (awaits : state.awaited = .operand)
    (kind : name.kind = .name) (known : Builtin.ofName? name.text = some f)
    (opens : opening.kind = .opening) (closes : closing.kind = .closing)
    (inside : Derives .expression inner arg) :
    Read (state.push (.call f arg (Span.through name.span closing.span)) closing)
      (tokens ++ name :: opening :: (inner ++ [closing])) where
  reached := h.reached.push awaits (.call kind known opens closes inside)
  previous last hlast := by
    obtain rfl : closing = last := Option.some.inj hlast
    simp

end Read

section Step

variable (hspans : InOrder edge stop (Tokens.spans (tokens ++ token :: rest)))
include hspans

theorem next_fits : token.span.Fits edge stop := hspans.fits _ (by simp)

theorem front_inOrder : InOrder edge token.span.start (Tokens.spans tokens) := by
  have hsplit : InOrder edge stop (Tokens.spans tokens ++ token.span :: Tokens.spans rest) := by
    simpa using hspans
  exact hsplit.front

theorem read_before_next (hmem : previous ∈ tokens) :
    InOrder edge stop [previous.span, token.span] := by
  have hread : [previous].Sublist tokens := List.singleton_sublist.mpr hmem
  have hnext : [token].Sublist (token :: rest) := List.singleton_sublist.mpr List.mem_cons_self
  exact InOrder.part hspans (hread.append hnext)

theorem top_before_next {p : Phrase} {pending : List Pending} {operands : List Expr}
    (h : Topped p pending operands tokens) :
    ∃ e below, operands = e :: below ∧ InOrder edge stop [e.span, token.span] := by
  cases h with
  | @intro below read top e _ phrase _ =>
    have hstands : InOrder edge stop
        (Tokens.spans read ++ e.span :: (token.span :: Tokens.spans rest)) :=
      phrase.stands _ _ (by simpa using hspans)
    exact ⟨e, below, rfl, hstands.sublist (by simp)⟩

theorem missingOperator_placed (h : Reached state tokens) (awaits : state.awaited = .operator) :
    (missingOperator state token).Placed edge stop := by
  obtain ⟨operands, pending, awaited, previous⟩ := state
  cases awaits
  obtain ⟨e, below, htop, hpair⟩ := top_before_next hspans h
  cases htop
  exact .two hpair rfl

theorem misplacedClosing_placed (h : Read state tokens) :
    (misplacedClosing state token).Placed edge stop := by
  rw [misplacedClosing]
  cases hprevious : state.previous with
  | none => exact .one (next_fits hspans) rfl
  | some previous =>
    have hpair := read_before_next hspans (h.previous previous hprevious)
    dsimp only
    split
    · exact .one hpair.joined rfl
    · exact missingRight_placed hpair.head

theorem step_located (h : Read state tokens) :
    Located edge stop (fun next => Read next (tokens ++ [token])) (state.step token) := by
  have hnext := next_fits hspans
  cases hs : state.step token with
  | ok next => exact .ok (h.step hs)
  | error d =>
    refine .error ?_
    have hreached := h.reached
    have hclosing := misplacedClosing_placed hspans h
    have hoperator := missingOperator_placed hspans h.reached
    obtain ⟨operands, pending, awaited, previous⟩ := state
    cases awaited with
    | operand =>
      cases kind : token.kind with
      | number =>
        cases read : Number.read? token.lexeme with
        | none =>
          simp only [State.step, kind, read] at hs
          exact Except.error.inj hs ▸ .one hnext rfl
        | some value => simp [State.step, kind, read] at hs
      | name =>
        simp only [State.step, kind] at hs
        exact Except.error.inj hs ▸ nameAlone_placed hnext
      | opening => simp [State.step, kind] at hs
      | closing =>
        simp only [State.step, kind] at hs
        exact Except.error.inj hs ▸ hclosing
      | operator op =>
        simp only [State.step, kind] at hs
        exact Except.error.inj hs ▸ missingLeft_placed op hnext
      | symbol =>
        simp only [State.step, kind] at hs
        exact Except.error.inj hs ▸ .one hnext rfl
    | operator =>
      cases kind : token.kind with
      | closing =>
        rcases Topped.close hreached kind with hg | ⟨kept, settled, hg, -⟩
        · simp only [State.step, kind, hg, bind, Except.bind] at hs
          exact Except.error.inj hs ▸ .one hnext rfl
        · simp [State.step, kind, hg, bind, Except.bind] at hs
      | operator op =>
        obtain ⟨kept, settled, hf, -⟩ := Topped.push hreached (Phrase.rank_le_atom _) kind
        simp [State.step, kind, hf, bind, Except.bind] at hs
      | symbol =>
        simp only [State.step, kind] at hs
        exact Except.error.inj hs ▸ .one hnext rfl
      | number | name | opening =>
        simp only [State.step, kind] at hs
        exact Except.error.inj hs ▸ hoperator rfl

end Step

theorem group_inOrder {opening closing : Token Kind} {inner after : List (Token Kind)}
    (hspans : InOrder edge stop
      (Tokens.spans (tokens ++ token :: opening :: (inner ++ closing :: after)))) :
    closing.span.Fits edge stop ∧ (Span.through opening.span closing.span).Fits edge stop ∧
      InOrder edge closing.span.start (Tokens.spans inner) := by
  have hgroup : InOrder edge stop (Tokens.spans ((opening :: inner) ++ closing :: after)) := by
    have hsuffix : ((opening :: inner) ++ closing :: after).Sublist
        (tokens ++ token :: opening :: (inner ++ closing :: after)) :=
      ((List.Sublist.refl _).cons token).trans (List.sublist_append_right tokens _)
    exact hspans.part hsuffix
  have hwhole : InOrder edge stop [opening.span, closing.span] :=
    read_before_next hgroup List.mem_cons_self
  exact ⟨next_fits hgroup, hwhole.joined, InOrder.tail (front_inOrder hgroup)⟩

theorem settleAll_located {p : Phrase} {pending : List Pending} {operands : List Expr}
    (place : Span)
    (hspans : InOrder edge stop (Tokens.spans tokens)) (h : Topped p pending operands tokens) :
    Located edge stop (fun _ => True) (settleAll place pending operands) := by
  induction pending generalizing p operands with
  | nil =>
    obtain ⟨-, -, -⟩ := h
    exact .ok trivial
  | cons item pending ih =>
    cases item with
    | opening span =>
      obtain ⟨below, -, -⟩ := h
      cases below with
      | opening => exact .error (.one (hspans.fits _ (by simp)) rfl)
    | operator op span =>
      obtain ⟨settled, hc, hs⟩ := h.combine
      simp only [settleAll, hc]
      exact ih hs

theorem finish_located (hstop : edge stop) (hspans : InOrder edge stop (Tokens.spans tokens))
    (h : Read state tokens) :
    Located edge stop (fun _ => True) (state.finish (Span.point stop)) := by
  have hreached := h.reached
  have hprevious := h.previous
  obtain ⟨operands, pending, awaited, previous⟩ := state
  cases awaited with
  | operator => exact settleAll_located _ hspans hreached
  | operand =>
    cases previous with
    | none => exact .error (.one (.point hstop) rfl)
    | some previous =>
      have hfits : previous.span.Fits edge stop :=
        hspans.fits _ (List.mem_map_of_mem (hprevious previous rfl))
      simp only [State.finish]
      split
      · exact .error (.one hfits rfl)
      · exact .error (missingRight_placed hfits)

/-- The errors of a run from a state with the invariant are at regions in order. -/
theorem parseFrom_located {more : List (Token Kind)} (hstop : edge stop) (h : Read state tokens)
    (hspans : InOrder edge stop (Tokens.spans (tokens ++ more))) :
    Located edge stop (fun _ => True) (parseFrom (Span.point stop) state more) := by
  induction hn : more.length using Nat.strongRecOn generalizing state stop tokens more with
  | _ n ih =>
    subst hn
    cases more with
    | nil =>
      rw [parseFrom_nil]
      exact finish_located hstop (by simpa using hspans) h
    | cons token rest =>
      cases hc : callHead? state (token :: rest) with
      | none =>
        rw [parseFrom_step hc]
        refine (step_located hspans h).bind fun next _ hnext => ?_
        exact ih rest.length (Nat.lt_succ_self _) hstop hnext (by simpa using hspans) rfl
      | some found =>
        obtain ⟨f, opening, inside⟩ := found
        obtain ⟨ha, kind, known, opens, rfl⟩ := callHead?_eq_some.mp hc
        rw [parseFrom_call hc]
        cases hsplit : splitClosing 0 inside with
        | none => exact .error (.one (hspans.fits _ (by simp)) rfl)
        | some found =>
          obtain ⟨inner, closing, after⟩ := found
          obtain ⟨rfl, closes⟩ := eq_of_splitClosing hsplit
          obtain ⟨hclosing, hgroup, hinner⟩ := group_inOrder hspans
          dsimp only
          split
          · exact .error (.one hgroup rfl)
          · -- An argument is read as a text of its own that ends at the closing parenthesis.
            have hread := ih inner.length (by simp; omega) hclosing.start Read.initial hinner rfl
            have hle : closing.span.start ≤ stop := Nat.le_trans hclosing.proper hclosing.within
            refine (hread.widen hle).bind fun arg harg _ => ?_
            have hcall : Read
                (state.push (.call f arg (Span.through token.span closing.span)) closing)
                (tokens ++ token :: opening :: (inner ++ [closing])) :=
              h.call ha kind known opens closes (Reached.initial.derives harg)
            exact ih after.length (by simp; omega) hstop hcall (by simpa using hspans) rfl

theorem parse_located (input : String) :
    Located (Boundary input) input.utf8ByteSize (Expr.InPlace (Boundary input) input.utf8ByteSize)
      (parse input) := by
  have hstop := Source.boundary_stop input
  have hspans := Source.scan_inOrder lexicon input
  have hread : Located (Boundary input) (Source.strip input).stop
      (fun _ => True) (parse input) := by
    rw [parse, ofSource]
    split
    · exact .error (.one (.point hstop) rfl)
    · exact parseFrom_located hstop Read.initial hspans
  rw [← Source.strip_stop]
  cases hparse : parse input with
  | error d =>
    rw [hparse] at hread
    exact .error hread.placed
  | ok e => exact .ok ((ofSource_eq_ok_iff_derives.mp hparse).inPlace hspans)

end Calculator.Arith
