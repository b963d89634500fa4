import Calculator.Proofs.Session.Effects

/-!
Graphing and the settings for graphs. A setting made before a graph is part of the settings the
graph is made with; one made afterwards goes through the graph's own setters, and through those of
the settings for graphs to come. Both ways lead to the same graph, whichever graph there was
before, and what can fail depends on the lines alone.
-/

set_option autoImplicit false
set_option relaxedAutoImplicit false

namespace Calculator

def Topic.isSetting : Topic → Bool
  | .range _ | .derivative => true
  | _ => false

namespace Session

def graphing (session : Session) (f : RealFunction Float) : Session :=
  { session with graph := some (.ofFunction f session.settings) }

variable {session : Session} {expression setting : String}

theorem adjust_graphing (session : Session) (change : GraphSettings → GraphSettings)
    (f : RealFunction Float) :
    (session.graphing f).adjust change = (session.adjust change).graphing f := rfl

theorem command_setting {text : List Char} (h : (Topic.ofCommand (commandName text)).isSetting) :
    (∃ failure, ∀ session : Session, session.command text = .error failure) ∨
    ∃ change, ∀ session : Session, session.command text =
      .ok ((session.adjust change).redescribe, session.adjust change) := by
  unfold Topic.ofCommand at h
  unfold command
  dsimp only
  rw [← commandName]
  generalize commandName text = name at h ⊢
  split at h <;> try contradiction
  · simp only [setRange_eq]
    cases rangeArgument .x (String.ofList text) ((Text.words text).drop 1) with
    | error failure => exact .inl ⟨failure, fun _ => rfl⟩
    | ok range => exact .inr ⟨_, fun _ => rfl⟩
  · simp only [setRange_eq]
    cases rangeArgument .y (String.ofList text) ((Text.words text).drop 1) with
    | error failure => exact .inl ⟨failure, fun _ => rfl⟩
    | ok range => exact .inr ⟨_, fun _ => rfl⟩
  · simp only [setShowDerivative_eq]
    cases switchArgument ((Text.words text).drop 1)[0]? with
    | error failure => exact .inl ⟨failure, fun _ => rfl⟩
    | ok shown => exact .inr ⟨_, fun _ => rfl⟩

theorem setting_cases (h : (session.topic setting).isSetting) :
    (∃ failure, ∀ session : Session, session.handle setting = (.error failure, session)) ∨
    ∃ change, ∀ session : Session, session.handle setting =
      (.ok (session.adjust change).redescribe, session.adjust change) := by
  rcases line_cases setting with hblank | ⟨text, hcommand⟩ | ⟨text, hexpression⟩
  · rw [(hblank session).1] at h
    cases h
  · rw [(hcommand session).1] at h
    rcases command_setting h with ⟨failure, hfails⟩ | ⟨change, hsets⟩
    · exact .inl ⟨failure, fun session => by rw [(hcommand session).2, hfails]; rfl⟩
    · exact .inr ⟨change, fun session => by rw [(hcommand session).2, hsets]; rfl⟩
  · rw [(hexpression session).1] at h
    cases h

theorem graphing_cases (h : session.topic expression = .expression .graph) :
    session.mode = .graph ∧
    ((∃ failure, ∀ session : Session, session.mode = .graph →
      session.handle expression = (.error failure, session)) ∨
    ∃ f, ∀ session : Session, session.mode = .graph →
      session.handle expression =
        (.ok (session.graphing f).redescribe, session.graphing f)) := by
  rcases line_cases expression with hblank | ⟨text, hcommand⟩ | ⟨text, hexpression⟩
  · rw [(hblank session).1] at h
    cases h
  · rw [(hcommand session).1] at h
    unfold Topic.ofCommand at h
    split at h <;> cases h
  · rw [(hexpression session).1] at h
    refine ⟨by simpa using h, ?_⟩
    have hgraph (session : Session) (hmode : session.mode = .graph) :
        session.handle expression = session.evaluateGraph text := by
      rw [(hexpression session).2, evaluate, hmode]
    cases hparse : RealFunction.parse RealFunction.defaultMaxPower (String.ofList text) with
    | error diagnostic =>
      refine .inl ⟨.expression (String.ofList text) diagnostic, fun session hmode => ?_⟩
      rw [hgraph session hmode, evaluateGraph, hparse]
    | ok f =>
      refine .inr ⟨f, fun session hmode => ?_⟩
      rw [hgraph session hmode, evaluateGraph, hparse]
      rfl

/-- An expression that is graphed and a setting for graphs can be handled in either order: the
session ends in the same state, each of the two lines succeeds in both orders or in neither, and if
both succeed, the line that is handled second has the same reply. -/
theorem graph_settings_commute (hexpression : session.topic expression = .expression .graph)
    (hsetting : (session.topic setting).isSetting) :
    ((session.handle expression).2.handle setting).2 =
      ((session.handle setting).2.handle expression).2 ∧
    ((session.handle expression).2.handle setting).1.isOk = (session.handle setting).1.isOk ∧
    ((session.handle setting).2.handle expression).1.isOk = (session.handle expression).1.isOk ∧
    ((session.handle expression).1.isOk → (session.handle setting).1.isOk →
      ((session.handle expression).2.handle setting).1 =
        ((session.handle setting).2.handle expression).1) := by
  obtain ⟨hmode, hgraph⟩ := graphing_cases hexpression
  rcases hgraph with ⟨failure, hfails⟩ | ⟨f, hgraphs⟩ <;>
    rcases setting_cases hsetting with ⟨refusal, hrefuses⟩ | ⟨change, hsets⟩
  · simp [hfails session hmode, hrefuses, Except.isOk, Except.toBool]
  · simp [hfails session hmode, hsets, hfails (session.adjust change) hmode, Except.isOk,
      Except.toBool]
  · simp [hgraphs session hmode, hrefuses, Except.isOk, Except.toBool]
  · simp [hgraphs session hmode, hsets, hgraphs (session.adjust change) hmode, adjust_graphing,
      Except.isOk, Except.toBool]

theorem derivative_commutes_with_identity :
    let session := (initial.handle ":mode graph").2
    ((session.handle "x").2.handle ":derivative on").2 =
      ((session.handle ":derivative on").2.handle "x").2 ∧
    ((session.handle "x").2.handle ":derivative on").1.isOk ∧
    ((session.handle "x").2.handle ":derivative on").1 =
      ((session.handle ":derivative on").2.handle "x").1 := by
  intro session
  have hsession : session = { initial with mode := .graph } := rfl
  have hexpression : session.topic "x" = .expression .graph := by decide +kernel
  have hsetting : (session.topic ":derivative on").isSetting := by decide +kernel
  have hgraphed : (session.handle "x").1.isOk := by
    have htrim : Text.trim "x".toList = ['x'] := by decide +kernel
    have htokens : Formula.lexicon.scan (Formula.sourceOf "x") = [⟨.variable, ['x'], ⟨0, 1⟩⟩] := by
      decide +kernel
    have derived : Formula.Derives (.function RealFunction.defaultMaxPower) .expression
        [⟨.variable, ['x'], ⟨0, 1⟩⟩] .identity := .term (.unary (.power (.primary (.x rfl))))
    obtain ⟨f, hf, hread⟩ := derived.ofTokens
    have hparse : RealFunction.parse RealFunction.defaultMaxPower "x" = .ok .identity := by
      rw [RealFunction.parse, Formula.parse, Formula.ofSource, if_neg (by decide +kernel), htokens,
        hread, Except.map, Formula.compile_eq_fold, hf]
    rw [handle_expression htrim (by decide), hsession, evaluate, evaluateGraph]
    simp [hparse, Except.isOk, Except.toBool]
  have hset : (session.handle ":derivative on").1.isOk := by decide +kernel
  obtain ⟨hstate, hsucceeds, -, hreply⟩ := graph_settings_commute hexpression hsetting
  exact ⟨hstate, hsucceeds.trans hset, hreply hgraphed hset⟩

end Session

end Calculator
