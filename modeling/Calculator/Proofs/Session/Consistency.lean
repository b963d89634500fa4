import Calculator.Proofs.Formula.Derivation
import Calculator.Proofs.Outcome
import Calculator.Session.Transcript

/-!
A session keeps the settings for graphs twice: those for the graphs to come, and those of the graph
it has. No line makes them differ, whatever lines were handled before and whether or not they
failed, and so a range that the one accepts is never refused by the other.
-/

set_option autoImplicit false
set_option relaxedAutoImplicit false

namespace Calculator

theorem Range.ofBounds_eq_ok_iff {axis : Axis} {min max : Float} {range : Range} :
    Range.ofBounds axis min max = .ok range ↔ range = ⟨min, max⟩ ∧ range.usable := by
  rw [Range.ofBounds]
  split
  · next usable =>
    constructor
    · rintro ⟨⟩
      exact ⟨rfl, usable⟩
    · rintro ⟨rfl, -⟩
      rfl
  · next unusable =>
    constructor
    · rintro ⟨⟩
    · rintro ⟨rfl, usable⟩
      exact absurd usable unusable

/-- A region both of whose axes can be shown. -/
structure Viewport.Usable (viewport : Viewport) : Prop where
  x : viewport.x.usable
  y : viewport.y.usable

theorem Viewport.Usable.setRange {viewport next : Viewport} (h : viewport.Usable) {axis : Axis}
    {min max : Float} (hset : viewport.setRange axis min max = .ok next) : next.Usable := by
  rw [Viewport.setRange] at hset
  obtain ⟨range, hrange, hnext⟩ := bind_eq_ok_iff.mp hset
  have usable : range.usable := (Range.ofBounds_eq_ok_iff.mp hrange).2
  cases axis with
  | x =>
    cases hnext
    exact ⟨usable, h.y⟩
  | y =>
    cases hnext
    exact ⟨h.x, usable⟩

theorem GraphSettings.setRange_eq_ok_iff {settings next : GraphSettings} {axis : Axis}
    {min max : Float} :
    settings.setRange axis min max = .ok next ↔
      ∃ viewport, settings.viewport.setRange axis min max = .ok viewport ∧
        next = { settings with viewport } := by
  rw [GraphSettings.setRange, bind_eq_ok_iff]
  constructor
  · rintro ⟨viewport, hset, ⟨⟩⟩
    exact ⟨viewport, hset, rfl⟩
  · rintro ⟨viewport, hset, rfl⟩
    exact ⟨viewport, hset, rfl⟩

theorem Graph.setRange_of_settings {graph : Graph} {settings : GraphSettings} {axis : Axis}
    {min max : Float} (h : graph.settings.setRange axis min max = .ok settings) :
    graph.setRange axis min max = .ok { graph with settings } := by
  rw [Graph.setRange, h]
  rfl

namespace Session

variable {session next : Session}

theorem handle_expression {line : String} {c : Char} {text : List Char}
    (htrim : Text.trim line.toList = c :: text) (hc : c ≠ ':') :
    session.handle line = session.evaluate (c :: text) := by
  rw [handle, htrim]
  split
  · next hnil => cases hnil
  · next hcolon =>
    cases hcolon
    exact absurd rfl hc
  · rfl

theorem evaluateGraph_ok {line : List Char} {f : RealFunction Float}
    (h : RealFunction.parse RealFunction.defaultMaxPower (String.ofList line) = .ok f) :
    (session.evaluateGraph line).2 =
      { session with graph := some (.ofFunction f session.settings) } := by
  rw [evaluateGraph, h]

theorem setRange_eq_ok {axis : Axis} {source : String} {arguments : List (List Char)}
    {reply : Option String} (h : session.setRange axis source arguments = .ok (reply, next)) :
    ∃ min max settings, numberArgument arguments[0]? = .ok min ∧
      numberArgument arguments[1]? = .ok max ∧
      session.settings.setRange axis min max = .ok settings ∧
      next = { session with
        settings
        graph := session.graph.map fun graph =>
          (graph.setRange axis min max).toOption.getD graph } := by
  rw [setRange] at h
  obtain ⟨min, hmin, h⟩ := bind_eq_ok_iff.mp h
  obtain ⟨max, hmax, h⟩ := bind_eq_ok_iff.mp h
  cases hset : session.settings.setRange axis min max with
  | error diagnostic =>
    rw [hset] at h
    cases h
  | ok settings =>
    rw [hset] at h
    cases h
    exact ⟨min, max, settings, hmin, hmax, hset, rfl⟩

theorem setShowDerivative_eq_ok {arguments : List (List Char)} {reply : Option String}
    (h : session.setShowDerivative arguments = .ok (reply, next)) :
    ∃ shown, switchArgument arguments[0]? = .ok shown ∧
      next = { session with
        settings := { session.settings with showDerivative := shown }
        graph := session.graph.map fun graph => graph.setShowDerivative shown } := by
  rw [setShowDerivative] at h
  obtain ⟨shown, hshown, h⟩ := bind_eq_ok_iff.mp h
  cases h
  exact ⟨shown, hshown, rfl⟩

theorem command_eq_ok {text : List Char} {reply : Option String}
    (h : session.command text = .ok (reply, next)) :
    (∃ mode, next = { session with mode }) ∨
      (∃ axis source arguments, session.setRange axis source arguments = .ok (reply, next)) ∨
      (∃ arguments, session.setShowDerivative arguments = .ok (reply, next)) ∨ next = session := by
  simp only [command] at h
  split at h
  · obtain ⟨mode, -, h⟩ := bind_eq_ok_iff.mp h
    cases h
    exact .inl ⟨mode, rfl⟩
  · exact .inr (.inl ⟨.x, _, _, h⟩)
  · exact .inr (.inl ⟨.y, _, _, h⟩)
  · exact .inr (.inr (.inl ⟨_, h⟩))
  · obtain ⟨shown, -, h⟩ := bind_eq_ok_iff.mp h
    cases h
    exact .inr (.inr (.inr rfl))
  · cases h
    exact .inr (.inr (.inr rfl))
  · cases h

/-- The previous result is finite, both axes can be shown, and the graph has the settings for
graphs to come and the derivative of its own function. -/
structure Consistent (session : Session) : Prop where
  answer : ∀ value ∈ session.answer, value.isFinite
  viewport : session.settings.viewport.Usable
  settings : ∀ graph ∈ session.graph, graph.settings = session.settings
  derivative : ∀ graph ∈ session.graph, graph.derivative = graph.function.derivative

theorem initial_consistent : initial.Consistent where
  answer := by simp [initial]
  viewport := ⟨by decide +kernel, by decide +kernel⟩
  settings := by simp [initial]
  derivative := by simp [initial]

namespace Consistent

theorem evaluateArith (h : session.Consistent) (line : List Char) :
    (session.evaluateArith line).2.Consistent := by
  rw [Session.evaluateArith]
  split
  · exact h
  · next value _ =>
    by_cases hfinite : value.isFinite
    · rw [if_pos hfinite]
      exact { h with answer := by rintro _ ⟨⟩; exact hfinite }
    · rw [if_neg hfinite]
      exact h

theorem evaluateComplex (h : session.Consistent) (line : List Char) :
    (session.evaluateComplex line).2.Consistent := by
  rw [Session.evaluateComplex]
  split
  · exact h
  · exact h

theorem evaluateGraph (h : session.Consistent) (line : List Char) :
    (session.evaluateGraph line).2.Consistent := by
  rw [Session.evaluateGraph]
  split
  · exact h
  · exact { h with
      settings := by rintro _ ⟨⟩; rfl
      derivative := by rintro _ ⟨⟩; rfl }

theorem evaluate (h : session.Consistent) (line : List Char) :
    (session.evaluate line).2.Consistent := by
  rw [Session.evaluate]
  cases session.mode with
  | arith => exact h.evaluateArith line
  | complex => exact h.evaluateComplex line
  | graph => exact h.evaluateGraph line

/-- The graph there is takes every range that the settings for graphs to come take, and then has
the same settings again. -/
theorem graph_setRange (h : session.Consistent) {axis : Axis} {min max : Float}
    {settings : GraphSettings} (hset : session.settings.setRange axis min max = .ok settings)
    {graph : Graph} (hgraph : graph ∈ session.graph) :
    graph.setRange axis min max = .ok { graph with settings } :=
  Graph.setRange_of_settings (h.settings graph hgraph ▸ hset)

theorem withSettings (h : session.Consistent) {settings : GraphSettings} {change : Graph → Graph}
    (viewport : settings.viewport.Usable)
    (hchange : ∀ graph ∈ session.graph, change graph = { graph with settings }) :
    { session with settings, graph := session.graph.map change }.Consistent := by
  refine { answer := h.answer, viewport, settings := ?_, derivative := ?_ }
  · intro changed hmem
    obtain ⟨graph, hgraph, rfl⟩ := Option.map_eq_some_iff.mp hmem
    rw [hchange graph hgraph]
  · intro changed hmem
    obtain ⟨graph, hgraph, rfl⟩ := Option.map_eq_some_iff.mp hmem
    rw [hchange graph hgraph]
    exact h.derivative graph hgraph

theorem setRange (h : session.Consistent) {axis : Axis} {source : String}
    {arguments : List (List Char)} {reply : Option String}
    (hrange : session.setRange axis source arguments = .ok (reply, next)) : next.Consistent := by
  obtain ⟨min, max, settings, -, -, hset, rfl⟩ := setRange_eq_ok hrange
  refine h.withSettings ?_ fun graph hgraph => ?_
  · obtain ⟨viewport, hviewport, rfl⟩ := GraphSettings.setRange_eq_ok_iff.mp hset
    exact h.viewport.setRange hviewport
  · rw [h.graph_setRange hset hgraph]
    rfl

theorem setShowDerivative (h : session.Consistent) {arguments : List (List Char)}
    {reply : Option String} (hshown : session.setShowDerivative arguments = .ok (reply, next)) :
    next.Consistent := by
  obtain ⟨shown, -, rfl⟩ := setShowDerivative_eq_ok hshown
  refine h.withSettings h.viewport fun graph hgraph => ?_
  rw [Graph.setShowDerivative, h.settings graph hgraph]

theorem command (h : session.Consistent) {text : List Char} {reply : Option String}
    (hcommand : session.command text = .ok (reply, next)) : next.Consistent := by
  obtain ⟨mode, rfl⟩ | ⟨axis, source, arguments, hset⟩ | ⟨arguments, hset⟩ | rfl :=
    command_eq_ok hcommand
  · exact { h with }
  · exact h.setRange hset
  · exact h.setShowDerivative hset
  · exact h

theorem handle (h : session.Consistent) (line : String) : (session.handle line).2.Consistent := by
  rw [Session.handle]
  split
  · exact h
  · split
    · next hcommand => exact h.command hcommand
    · exact h
  · exact h.evaluate _

theorem run (h : session.Consistent) (lines : List String) :
    (session.run lines).2.Consistent := by
  induction lines generalizing session with
  | nil => exact h
  | cons line rest ih => exact ih (h.handle line)

end Consistent

/-- Every session that lines lead to is consistent, and setting a range in it never leaves a graph
behind: the graph takes the range that the settings took. -/
theorem run_initial_consistent (lines : List String) :
    (initial.run lines).2.Consistent ∧
      ∀ (axis : Axis) (source : String) (arguments : List (List Char)) (reply : Option String)
        (next : Session) (graph : Graph),
        (initial.run lines).2.setRange axis source arguments = .ok (reply, next) →
        (initial.run lines).2.graph = some graph →
        ∃ min max changed, numberArgument arguments[0]? = .ok min ∧
          numberArgument arguments[1]? = .ok max ∧
          graph.setRange axis min max = .ok changed ∧ next.graph = some changed := by
  have consistent : (initial.run lines).2.Consistent := initial_consistent.run lines
  refine ⟨consistent, fun axis source arguments reply next graph hrange hgraph => ?_⟩
  obtain ⟨min, max, settings, hmin, hmax, hset, rfl⟩ := setRange_eq_ok hrange
  have hchanged : graph.setRange axis min max = .ok { graph with settings } :=
    consistent.graph_setRange hset hgraph
  refine ⟨min, max, { graph with settings }, hmin, hmax, hchanged, ?_⟩
  simp [hgraph, hchanged, Except.toOption]

theorem graph_setRange_of_identity :
    ∃ graph reply next changed, (initial.run [":mode graph", "x"]).2.graph = some graph ∧
      (initial.run [":mode graph", "x"]).2.setRange .x "x 0 1" [['0'], ['1']] = .ok (reply, next) ∧
      graph.setRange .x 0 1 = .ok changed ∧ next.graph = some changed := by
  have hparse : RealFunction.parse RealFunction.defaultMaxPower "x" = .ok .identity := by
    have htokens : Formula.lexicon.scan (Formula.sourceOf "x") = [⟨.variable, ['x'], ⟨0, 1⟩⟩] := by
      decide +kernel
    have derived : Formula.Derives (.function RealFunction.defaultMaxPower) .expression
        [⟨.variable, ['x'], ⟨0, 1⟩⟩] .identity := .term (.unary (.power (.primary (.x rfl))))
    obtain ⟨f, hf, hread⟩ := derived.ofTokens
    rw [RealFunction.parse, Formula.parse, Formula.ofSource, if_neg (by decide +kernel), htokens,
      hread, Except.map, Formula.compile_eq_fold, hf]
  have hsession : (initial.run [":mode graph", "x"]).2 =
      { initial with mode := .graph, graph := some (.ofFunction .identity .standard) } := by
    have hmode : (initial.handle ":mode graph").2 = { initial with mode := .graph } := rfl
    have hx : ({ initial with mode := .graph }.handle "x").2 =
        { initial with mode := .graph, graph := some (.ofFunction .identity .standard) } := by
      have htrim : Text.trim "x".toList = ['x'] := by decide +kernel
      rw [handle_expression htrim (by decide)]
      exact evaluateGraph_ok hparse
    simp only [run, hmode, hx]
  have hzero : numberArgument (some ['0']) = .ok 0 := by decide +kernel
  have hone : numberArgument (some ['1']) = .ok 1 := by decide +kernel
  obtain ⟨graph, hgraph⟩ : ∃ graph, (initial.run [":mode graph", "x"]).2.graph = some graph :=
    ⟨_, by rw [hsession]⟩
  obtain ⟨⟨reply, next⟩, hrange⟩ :
      ∃ result, (initial.run [":mode graph", "x"]).2.setRange .x "x 0 1" [['0'], ['1']] =
        .ok result := by
    have hset : GraphSettings.standard.setRange .x 0 1 =
      .ok ⟨⟨⟨0, 1⟩, Viewport.standard.y⟩, 512, false⟩ := by decide +kernel
    rw [hsession, setRange, List.getElem?_cons_zero, List.getElem?_cons_succ,
      List.getElem?_cons_zero, hzero, hone]
    simp only [bind, Except.bind, initial, hset]
    exact ⟨_, rfl⟩
  obtain ⟨min, max, changed, hmin, hmax, hchanged, hnext⟩ :=
    (run_initial_consistent [":mode graph", "x"]).2 _ _ _ _ _ _ hrange hgraph
  cases hzero.symm.trans hmin
  cases hone.symm.trans hmax
  exact ⟨graph, reply, next, changed, hgraph, hrange, hchanged, hnext⟩

end Session

end Calculator
