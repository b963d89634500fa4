import Calculator.Proofs.Arith.Reading
import Calculator.Proofs.Arith.Scanning
import Calculator.Proofs.Text.Brackets

/-!
Unclosed parentheses in arithmetic. The parentheses that are open stand on the stack of what is
pending, the innermost first; every token that is read changes both stacks alike. The argument of a
call is looked for by counting parentheses, which finds the partner of the opening one: where there
is none it stays unpaired to the end, and what stands before a partner has no unpaired parenthesis.
-/

set_option autoImplicit false
set_option relaxedAutoImplicit false

namespace Calculator.Arith

open BracketAt (Balanced inTokens ofSide unpairedFrom)

def side? : Kind → Option (Delimiter × Bool)
  | .opening => some (.parenthesis, true)
  | .closing => some (.parenthesis, false)
  | _ => none

abbrev openAt (span : Span) : BracketAt := ofSide span (.parenthesis, true)

variable {stop : Span} {token : Token Kind} {tokens rest inner : List (Token Kind)}
  {state next : State} {pending : List Pending} {operands : List Expr} {opened : List BracketAt}

theorem side?_opening (kind : token.kind = .opening) :
    side? token.kind = some (.parenthesis, true) := kind ▸ rfl

theorem side?_closing (kind : token.kind = .closing) :
    side? token.kind = some (.parenthesis, false) := kind ▸ rfl

theorem side?_eq_none (opening : token.kind ≠ .opening) (closing : token.kind ≠ .closing) :
    side? token.kind = none := by
  cases hkind : token.kind with
  | opening => exact absurd hkind opening
  | closing => exact absurd hkind closing
  | number | name | operator | symbol => rfl

theorem unpairedFrom_openAt (span last : Span) (more : List BracketAt) :
    unpairedFrom (openAt span :: opened) (ofSide last (.parenthesis, false) :: more) =
      unpairedFrom opened more :=
  BracketAt.unpairedFrom_closing rfl rfl

theorem delimits : lexicon.Delimits side? [.parenthesis] where
  symbol := rfl
  entry := by
    refine forall_entries (fun letters h => ?_) (fun letters h => ?_) fun entry hmem letters h => ?_
    · exact .inr ⟨rfl, fun c hc => BracketAt.sideOf?_eq_none _ (.inr (h.2 c hc))⟩
    · exact .inr ⟨rfl, fun c hc => BracketAt.sideOf?_eq_none _ (.inl (h.2 c hc))⟩
    · have hwords : ∀ entry ∈ lexicon.words,
          SpellsSide [.parenthesis] entry.1 (side? entry.2) := by decide
      exact h.2 ▸ hwords entry hmem
  known c hc := by
    rcases BracketAt.eq_of_sideOf? hc with ⟨-, rfl | rfl⟩ | ⟨hbrace, -⟩
    · exact ⟨(.single '(', .opening), by simp [lexicon], Pattern.matches_single _⟩
    · exact ⟨(.single ')', .closing), by simp [lexicon], Pattern.matches_single _⟩
    · simp at hbrace

theorem mem_unpairedFrom_of_splitClosing_eq_none {depth : Nat} {bracket : BracketAt}
    (h : splitClosing depth tokens = none) (front : List BracketAt) (length : front.length = depth)
    (parentheses : ∀ inside ∈ front, inside.delimiter = .parenthesis) :
    bracket ∈ unpairedFrom (front ++ bracket :: opened) (inTokens side? tokens) := by
  induction tokens generalizing depth front with
  | nil => exact List.mem_append_right _ List.mem_cons_self
  | cons token rest ih =>
    by_cases opening : token.kind = .opening
    · rw [splitClosing_opening opening, Option.map_eq_none_iff] at h
      rw [BracketAt.inTokens_some (side?_opening opening), BracketAt.unpairedFrom_opening rfl]
      exact ih h (openAt token.span :: front) (congrArg Nat.succ length)
        (List.forall_mem_cons.mpr ⟨rfl, parentheses⟩)
    by_cases closing : token.kind = .closing
    · rw [BracketAt.inTokens_some (side?_closing closing)]
      cases front with
      | nil =>
        subst length
        simp [splitClosing_end closing] at h
      | cons inside front =>
        subst length
        rw [List.length_cons, splitClosing_closing closing, Option.map_eq_none_iff] at h
        obtain ⟨hinside, hfront⟩ := List.forall_mem_cons.mp parentheses
        rw [List.cons_append, BracketAt.unpairedFrom_closing rfl hinside]
        exact ih h front rfl hfront
    · rw [splitClosing_other opening closing, Option.map_eq_none_iff] at h
      rw [BracketAt.inTokens_none (side?_eq_none opening closing)]
      exact ih h front length parentheses

theorem unpairedFrom_of_splitClosing {depth : Nat} {closing : Token Kind}
    {after : List (Token Kind)}
    (h : splitClosing depth tokens = some (inner, closing, after)) (front : List BracketAt)
    (length : front.length = depth)
    (parentheses : ∀ inside ∈ front, inside.delimiter = .parenthesis) (more : List BracketAt) :
    unpairedFrom (front ++ opened) (inTokens side? inner ++ more) = unpairedFrom opened more := by
  induction tokens generalizing depth inner front with
  | nil => simp [splitClosing] at h
  | cons token rest ih =>
    have deeper {inside : Nat}
        (h : (splitClosing inside rest).map (prepend [token]) = some (inner, closing, after)) :
        ∃ left, inner = token :: left ∧ splitClosing inside rest = some (left, closing, after) := by
      obtain ⟨⟨left, close, behind⟩, hrest, hfound⟩ := Option.map_eq_some_iff.mp h
      simp only [prepend, Prod.mk.injEq] at hfound
      obtain ⟨rfl, rfl, rfl⟩ := hfound
      exact ⟨left, rfl, hrest⟩
    by_cases opening : token.kind = .opening
    · rw [splitClosing_opening opening] at h
      obtain ⟨left, rfl, hrest⟩ := deeper h
      rw [BracketAt.inTokens_some (side?_opening opening), List.cons_append,
        BracketAt.unpairedFrom_opening rfl]
      exact ih hrest (openAt token.span :: front) (congrArg Nat.succ length)
        (List.forall_mem_cons.mpr ⟨rfl, parentheses⟩)
    by_cases closes : token.kind = .closing
    · cases front with
      | nil =>
        subst length
        rw [List.length_nil, splitClosing_end closes] at h
        cases h
        rfl
      | cons inside front =>
        subst length
        rw [List.length_cons, splitClosing_closing closes] at h
        obtain ⟨left, rfl, hrest⟩ := deeper h
        obtain ⟨hinside, hfront⟩ := List.forall_mem_cons.mp parentheses
        rw [BracketAt.inTokens_some (side?_closing closes), List.cons_append, List.cons_append,
          BracketAt.unpairedFrom_closing rfl hinside]
        exact ih hrest front rfl hfront
    · rw [splitClosing_other opening closes] at h
      obtain ⟨left, rfl, hrest⟩ := deeper h
      rw [BracketAt.inTokens_none (side?_eq_none opening closes)]
      exact ih hrest front length parentheses

section Argument

variable {inside after : List (Token Kind)} {closing : Token Kind}

theorem unpairedFrom_argument (h : splitClosing 0 inside = some (inner, closing, after)) :
    unpairedFrom [] (inTokens side? inner) = [] := by
  have hnone : unpairedFrom ([] ++ []) (inTokens side? inner ++ []) = [] :=
    unpairedFrom_of_splitClosing h [] rfl (List.forall_mem_nil _) []
  rwa [List.append_nil, List.append_nil] at hnone

theorem blames_after_argument {α : Type} {x : Except Diagnostic α} {span : Span}
    (h : splitClosing 0 inside = some (inner, closing, after))
    (hafter : BlamesUnpaired side? opened after x) :
    BlamesUnpaired side? (openAt span :: opened) inside x := by
  have hpart : unpairedFrom ([] ++ openAt span :: opened) _ = _ :=
    unpairedFrom_of_splitClosing h [] rfl (List.forall_mem_nil _)
      (ofSide closing.span (.parenthesis, false) :: inTokens side? after)
  obtain ⟨rfl, closes⟩ := eq_of_splitClosing h
  rw [List.nil_append, unpairedFrom_openAt] at hpart
  rwa [BlamesUnpaired, BracketAt.inTokens_append, BracketAt.inTokens_some (side?_closing closes),
    hpart]

end Argument

def openings (pending : List Pending) : List BracketAt :=
  pending.filterMap fun item =>
    match item with
    | .operator _ _ => none
    | .opening span => some (openAt span)

theorem openings_settleFor {incoming : Operator} {settled : List Pending × List Expr}
    (h : settleFor incoming pending operands = .ok settled) :
    openings settled.1 = openings pending := by
  induction pending generalizing operands with
  | nil =>
    cases h
    rfl
  | cons item pending ih =>
    cases item with
    | opening span =>
      cases h
      rfl
    | operator op span =>
      rw [settleFor] at h
      split at h
      · obtain ⟨combined, -, hrest⟩ := bind_eq_ok_iff.mp h
        exact ih hrest
      · cases h
        rfl

theorem openings_settleGroup {settled : List Pending × List Expr}
    (h : settleGroup pending operands = .ok (some settled)) :
    ∃ span, openings pending = openAt span :: openings settled.1 := by
  induction pending generalizing operands with
  | nil => cases h
  | cons item pending ih =>
    cases item with
    | opening span =>
      cases h
      exact ⟨span, rfl⟩
    | operator op span =>
      obtain ⟨combined, -, hrest⟩ := bind_eq_ok_iff.mp h
      exact ih hrest

theorem openings_eq_nil_of_settleGroup (h : settleGroup pending operands = .ok none) :
    openings pending = [] := by
  induction pending generalizing operands with
  | nil => rfl
  | cons item pending ih =>
    cases item with
    | opening span => cases h
    | operator op span =>
      obtain ⟨combined, -, hrest⟩ := bind_eq_ok_iff.mp h
      exact ih hrest

theorem combine_blames {op : Operator} {span : Span} {brackets : List BracketAt} :
    UnclosedAmong brackets (combine op span operands) := by
  rw [combine.eq_def]
  split
  · exact .ok _
  · exact .error rfl

theorem settleFor_blames {incoming : Operator} {brackets : List BracketAt} :
    UnclosedAmong brackets (settleFor incoming pending operands) := by
  induction pending generalizing operands with
  | nil => exact .ok _
  | cons item pending ih =>
    cases item with
    | opening span => exact .ok _
    | operator op span =>
      rw [settleFor]
      split
      · exact combine_blames.bind fun _ _ => ih
      · exact .ok _

theorem settleGroup_blames {brackets : List BracketAt} :
    UnclosedAmong brackets (settleGroup pending operands) := by
  induction pending generalizing operands with
  | nil => exact .ok _
  | cons item pending ih =>
    cases item with
    | opening span => exact .ok _
    | operator op span => exact combine_blames.bind fun _ _ => ih

theorem settleAll_blames : UnclosedAmong (openings pending) (settleAll stop pending operands) := by
  induction pending generalizing operands with
  | nil =>
    cases operands with
    | nil => exact .error rfl
    | cons operand operands => exact .ok _
  | cons item pending ih =>
    cases item with
    | opening span => exact UnclosedAmong.about (@List.mem_cons_self _ (openAt span) _)
    | operator op span => exact combine_blames.bind fun _ _ => ih

/-- What the token just read says about the parentheses that are open: none is open before the first
token, and one that was just opened is the innermost. -/
structure Tracks (state : State) : Prop where
  start : state.previous = none → openings state.pending = []
  innermost : ∀ token, state.previous = some token → token.kind = .opening →
    ∃ outer, openings state.pending = openAt token.span :: outer

namespace Tracks

theorem initial : Tracks State.initial where
  start _ := rfl
  innermost _ hprevious := by cases hprevious

theorem of_previous (previous : state.previous = some token) (kind : token.kind ≠ .opening) :
    Tracks state := by
  refine ⟨fun hnone => ?_, fun other hother opens => ?_⟩
  · rw [previous] at hnone
    cases hnone
  · rw [previous] at hother
    cases hother
    exact absurd opens kind

theorem step_blames (h : Tracks state) :
    BlamesUnpaired side? (openings state.pending) (token :: rest) (state.step token) := by
  rw [State.step]
  split
  · split
    · exact UnclosedAmong.ok _
    · exact UnclosedAmong.error rfl
  · rw [nameAlone]
    split <;> exact UnclosedAmong.error rfl
  · exact UnclosedAmong.ok _
  · next closes _ =>
    rw [misplacedClosing]
    split
    · next hnone =>
      rw [h.start hnone]
      exact .unopened (side?_closing closes)
    · split
      · exact UnclosedAmong.error rfl
      · rw [missingRight]
        split <;> exact UnclosedAmong.error rfl
  · next closes _ =>
    refine settleGroup_blames.bind fun settled? hsettled => ?_
    cases settled? with
    | some settled => exact UnclosedAmong.ok _
    | none =>
      rw [openings_eq_nil_of_settleGroup hsettled]
      exact BlamesUnpaired.unopened (side?_closing closes)
  · rw [missingLeft.eq_def]
    split <;> exact UnclosedAmong.error rfl
  · exact settleFor_blames.bind fun _ _ => .ok _
  · exact UnclosedAmong.error rfl
  · rw [missingOperator]
    split <;> exact UnclosedAmong.error rfl

theorem of_step (hstep : state.step token = .ok next) :
    Tracks next ∧ ∀ more, unpairedFrom (openings state.pending) (inTokens side? [token] ++ more) =
      unpairedFrom (openings next.pending) more := by
  rw [State.step] at hstep
  split at hstep
  · next kind _ =>
    split at hstep
    · cases hstep
      exact ⟨.of_previous rfl (by simp [kind]), fun more => by
        rw [BracketAt.inTokens_none (kind ▸ rfl)]; rfl⟩
    · cases hstep
  · cases hstep
  · next opens _ =>
    cases hstep
    refine ⟨⟨fun hnone => ?_, ?_⟩, fun more => ?_⟩
    · cases hnone
    · rintro _ ⟨⟩ -
      exact ⟨openings state.pending, rfl⟩
    · rw [BracketAt.inTokens_some (side?_opening opens), List.cons_append,
        BracketAt.unpairedFrom_opening rfl]
      rfl
  · cases hstep
  · next closes _ =>
    obtain ⟨settled?, hsettled, hnext⟩ := bind_eq_ok_iff.mp hstep
    cases settled? with
    | none => cases hnext
    | some settled =>
      cases hnext
      obtain ⟨span, hopenings⟩ := openings_settleGroup hsettled
      refine ⟨.of_previous rfl (by simp [closes]), fun more => ?_⟩
      rw [hopenings, BracketAt.inTokens_some (side?_closing closes), List.cons_append,
        unpairedFrom_openAt]
      rfl
  · cases hstep
  · next kind _ =>
    obtain ⟨settled, hsettled, hnext⟩ := bind_eq_ok_iff.mp hstep
    cases hnext
    refine ⟨.of_previous rfl (by simp [kind]), fun more => ?_⟩
    rw [BracketAt.inTokens_none (kind ▸ rfl), ← openings_settleFor hsettled]
    rfl
  · cases hstep
  · cases hstep

theorem finish_blames (h : Tracks state) :
    BlamesUnpaired side? (openings state.pending) [] (state.finish stop) := by
  rw [State.finish]
  split
  · exact settleAll_blames
  · next previous _ hprevious =>
    split
    · next opens =>
      obtain ⟨outer, houter⟩ := h.innermost previous hprevious opens
      rw [houter]
      exact .unclosed
    · rw [missingRight]
      split <;> exact UnclosedAmong.error rfl
  · exact UnclosedAmong.error rfl

theorem parseFrom_blames {stop : Span} {state : State} (h : Tracks state)
    (tokens : List (Token Kind)) :
    BlamesUnpaired side? (openings state.pending) tokens (parseFrom stop state tokens) := by
  match tokens with
  | [] =>
    rw [parseFrom_nil]
    exact h.finish_blames
  | token :: rest =>
    cases hc : callHead? state (token :: rest) with
    | none =>
      rw [parseFrom_step hc]
      refine h.step_blames.bind fun next hnext => ?_
      obtain ⟨tracks, hsame⟩ := of_step hnext
      have hrest : BlamesUnpaired side? (openings next.pending) rest (parseFrom stop next rest) :=
        tracks.parseFrom_blames rest
      rw [← List.singleton_append, BracketAt.inTokens_append, hsame]
      exact hrest
    | some call =>
      obtain ⟨f, opening, inside⟩ := call
      obtain ⟨-, name, -, opens, rfl⟩ := callHead?_eq_some.mp hc
      rw [parseFrom_call hc]
      refine BlamesUnpaired.skip (.opening (side?_opening opens) ?_) (name ▸ rfl)
      cases hs : splitClosing 0 inside with
      | none =>
        -- No token behind the opening parenthesis closes it.
        have hmem : openAt opening.span ∈ unpairedFrom
            ([] ++ openAt opening.span :: openings state.pending) (inTokens side? inside) :=
          mem_unpairedFrom_of_splitClosing_eq_none hs [] rfl (List.forall_mem_nil _)
        exact UnclosedAmong.about hmem
      | some found =>
        obtain ⟨inner, closing, after⟩ := found
        have hlength := length_of_splitClosing hs
        have hclosing : closing.kind ≠ .opening := by simp [(eq_of_splitClosing hs).2]
        simp only
        split
        · exact UnclosedAmong.error rfl
        · refine UnclosedAmong.bind ?_ fun arg _ => ?_
          · -- No parenthesis of the argument is unpaired, so no error in it is about one.
            have hargument : BlamesUnpaired side? [] inner
                (parseFrom (Span.point closing.span.start) State.initial inner) :=
              initial.parseFrom_blames inner
            rw [BlamesUnpaired, unpairedFrom_argument hs] at hargument
            exact hargument.mono (List.forall_mem_nil _)
          · refine blames_after_argument hs ?_
            exact (of_previous rfl hclosing).parseFrom_blames after
termination_by tokens.length
decreasing_by all_goals simp_all only [List.length_cons]; omega

end Tracks

theorem ofSource_unclosed (source : Source) :
    UnclosedAmong (BracketAt.unpaired (BracketAt.inText [.parenthesis] source.glyphs))
      (ofSource source) := by
  rw [ofSource]
  split
  · exact .error rfl
  · rw [← delimits.inTokens_scanFrom]
    exact Tracks.initial.parseFrom_blames (lexicon.scan source)

end Calculator.Arith
