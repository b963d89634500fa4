import Calculator.Proofs.Session.Effects

/-!
Calls that change how a graph is shown, one after the other. Each axis, and the switch for the
derivative, holds what the last call that was not refused has set there. So it does not matter how
calls for different ones are interleaved, nor whether any were refused in between.

`Graph.setRange` gives the next graph, so a call that is refused cannot leave anything behind in it.
`Assigning.change` assigns one bound after the other instead; `Assigning.runFrom_change` says that
it comes to the same.
-/

set_option autoImplicit false
set_option relaxedAutoImplicit false

namespace Calculator

def Viewport.range (viewport : Viewport) : Axis → Range
  | .x => viewport.x
  | .y => viewport.y

theorem getLastD_filterMap_cons {α β : Type} (f : α → Option β) (a : α) (rest : List α)
    (initial : β) : ((a :: rest).filterMap f).getLastD initial =
      (rest.filterMap f).getLastD ((f a).getD initial) := by
  cases h : f a with
  | none => rw [List.filterMap_cons_none h, Option.getD_none]
  | some b => rw [List.filterMap_cons_some h, List.getLastD_cons, Option.getD_some]

namespace Graph

inductive Change where
  | range (axis : Axis) (min max : Float)
  | derivative (shown : Bool)
deriving DecidableEq

/-- The range that a call sets on an axis, if it is about that axis and not refused. -/
def Change.range? (axis : Axis) : Change → Option Range
  | .range other min max => if other = axis then (Range.ofBounds other min max).toOption else none
  | .derivative _ => none

/-- Whether the derivative is plotted from a call on, if the call is about that. -/
def Change.shown? : Change → Option Bool
  | .range _ _ _ => none
  | .derivative shown => some shown

/-- What a call makes of a graph, unless it is refused. -/
def change (graph : Graph) : Change → Except Diagnostic Graph
  | .range axis min max => graph.setRange axis min max
  | .derivative shown => .ok (graph.setShowDerivative shown)

def after (graph : Graph) (change : Change) : Graph := (graph.change change).toOption.getD graph

def afterAll (graph : Graph) (changes : List Change) : Graph := changes.foldl after graph

variable {graph : Graph} {settings : GraphSettings}

def showing (graph : Graph) (x y : Range) (shown : Bool) : Graph :=
  { graph with settings := ⟨⟨x, y⟩, graph.settings.samples, shown⟩ }

theorem after_eq (graph : Graph) (change : Change) : graph.after change =
    graph.showing ((change.range? .x).getD graph.settings.viewport.x)
      ((change.range? .y).getD graph.settings.viewport.y)
      (change.shown?.getD graph.settings.showDerivative) := by
  cases change with
  | derivative shown => rfl
  | range axis min max =>
    rw [after, Graph.change, setRange_eq]
    cases axis with
    | x | y =>
      simp only [Change.range?]
      cases Range.ofBounds _ min max <;> rfl

/-- Calls leave behind what each of the three was set to last. -/
theorem afterAll_eq (graph : Graph) (changes : List Change) : graph.afterAll changes =
    graph.showing ((changes.filterMap (·.range? .x)).getLastD graph.settings.viewport.x)
      ((changes.filterMap (·.range? .y)).getLastD graph.settings.viewport.y)
      ((changes.filterMap (·.shown?)).getLastD graph.settings.showDerivative) := by
  induction changes generalizing graph with
  | nil => rfl
  | cons change rest ih =>
    have hstep : graph.afterAll (change :: rest) = (graph.after change).afterAll rest := rfl
    rw [hstep, ih, after_eq, getLastD_filterMap_cons, getLastD_filterMap_cons,
      getLastD_filterMap_cons]
    rfl

theorem change_refused_iff (graph : Graph) (change : Change) :
    (∃ diagnostic, graph.change change = .error diagnostic) ↔
      (∀ axis, change.range? axis = none) ∧ change.shown? = none := by
  cases change with
  | derivative shown => simp [Graph.change, Change.shown?]
  | range axis min max =>
    rw [Graph.change, setRange_eq]
    cases h : Range.ofBounds axis min max with
    | error diagnostic => simp [Except.map, Except.toOption, Change.range?, Change.shown?, h]
    | ok range =>
      constructor
      · rintro ⟨diagnostic, ⟨⟩⟩
      · rintro ⟨hnone, -⟩
        have hset := hnone axis
        simp [Change.range?, h, Except.toOption] at hset

theorem Change.usable_of_range? {axis : Axis} {change : Change} {range : Range}
    (h : change.range? axis = some range) : range.usable := by
  cases change with
  | derivative shown => cases h
  | range other min max =>
    obtain ⟨-, hrange⟩ := Option.ite_none_right_eq_some.mp h
    cases hbounds : Range.ofBounds other min max with
    | error diagnostic =>
      rw [hbounds] at hrange
      cases hrange
    | ok accepted =>
      rw [hbounds] at hrange
      cases hrange
      exact (Range.ofBounds_eq_ok_iff.mp hbounds).2

theorem usable_after (h : graph.settings.viewport.Usable) (change : Change) :
    (graph.after change).settings.viewport.Usable := by
  have hset {axis : Axis} {before : Range} (usable : before.usable) :
      ((change.range? axis).getD before).usable := by
    cases hrange : change.range? axis with
    | none => exact usable
    | some range => exact Change.usable_of_range? hrange
  rw [after_eq]
  exact ⟨hset h.x, hset h.y⟩

theorem usable_afterAll (h : graph.settings.viewport.Usable) (changes : List Change) :
    (graph.afterAll changes).settings.viewport.Usable := by
  induction changes generalizing graph with
  | nil => exact h
  | cons change rest ih => exact ih (usable_after h change)

def adjustRange (graph : Graph) (axis : Axis) (adjust : Range → Range) : Graph :=
  { graph with
    settings := graph.settings.withRange axis (adjust (graph.settings.viewport.range axis)) }

/-- A call that assigns piece by piece: what was assigned before a failure stays assigned. -/
abbrev Assigning := ExceptT Diagnostic (StateM Graph)

namespace Assigning

/-- Check the bounds, then assign the lower and after it the upper one. -/
def setRange (axis : Axis) (min max : Float) : Assigning Unit := do
  let _ ← Range.ofBounds axis min max
  modify fun graph => graph.adjustRange axis fun range => { range with min }
  modify fun graph => graph.adjustRange axis fun range => { range with max }

def setShowDerivative (shown : Bool) : Assigning Unit :=
  modify fun graph => graph.setShowDerivative shown

def change : Change → Assigning Unit
  | .range axis min max => setRange axis min max
  | .derivative shown => setShowDerivative shown

def runFrom (graph : Graph) (call : Assigning Unit) : Except Diagnostic Unit × Graph :=
  StateT.run (ExceptT.run call) graph

theorem runFrom_change (graph : Graph) (change : Change) :
    runFrom graph (Assigning.change change) =
      ((graph.change change).map fun _ => (), graph.after change) := by
  cases change with
  | derivative shown => rfl
  | range axis min max =>
    rw [after, Graph.change, setRange_eq, Assigning.change, setRange]
    cases hrange : Range.ofBounds axis min max with
    | error diagnostic => rfl
    | ok range =>
      obtain ⟨rfl, -⟩ := Range.ofBounds_eq_ok_iff.mp hrange
      cases axis <;> rfl

def runAll (graph : Graph) (changes : List Change) : Graph :=
  changes.foldl (fun graph change => (runFrom graph (Assigning.change change)).2) graph

theorem runAll_eq (graph : Graph) (changes : List Change) :
    runAll graph changes = graph.afterAll changes := by
  have hstep : (fun graph change => (runFrom graph (Assigning.change change)).2) = after := by
    funext graph change
    rw [runFrom_change]
  rw [runAll, hstep, afterAll]

end Assigning

/-- What calls leave of a function and its settings: each axis and the switch hold what was set
last, and nothing else is changed. -/
structure HoldsLast (graph : Graph) (f : RealFunction Float) (settings : GraphSettings)
    (changes : List Change) : Prop where
  function : graph.function = f
  derivative : graph.derivative = f.derivative
  samples : graph.settings.samples = settings.samples
  range (axis : Axis) : graph.settings.viewport.range axis =
    (changes.filterMap (·.range? axis)).getLastD (settings.viewport.range axis)
  shown : graph.settings.showDerivative =
    (changes.filterMap (·.shown?)).getLastD settings.showDerivative
  usable : graph.settings.viewport.Usable

theorem holdsLast_afterAll (usable : settings.viewport.Usable) (f : RealFunction Float)
    (changes : List Change) :
    ((ofFunction f settings).afterAll changes).HoldsLast f settings changes := by
  have hkept : ((ofFunction f settings).afterAll changes).settings.viewport.Usable :=
    usable_afterAll usable changes
  rw [afterAll_eq] at hkept ⊢
  exact ⟨rfl, rfl, rfl, fun axis => by cases axis <;> rfl, rfl, hkept⟩

/-- Whatever calls there are, each axis and the switch hold what was set last and not refused, and
nothing else is changed. Calls that set the same ranges on each axis, and the switch to the same,
lead to the same graph however they are interleaved and whichever are refused in between. All this
is so as well if the bounds are assigned one after the other. -/
theorem afterAll_ofFunction (usable : settings.viewport.Usable) (f : RealFunction Float)
    (changes : List Change) :
    ((ofFunction f settings).afterAll changes).HoldsLast f settings changes ∧
      (∀ others : List Change,
        (∀ axis, others.filterMap (·.range? axis) = changes.filterMap (·.range? axis)) →
        others.filterMap (·.shown?) = changes.filterMap (·.shown?) →
          (ofFunction f settings).afterAll others = (ofFunction f settings).afterAll changes) ∧
      (∀ (graph : Graph) (change : Change),
        (∃ diagnostic, graph.change change = .error diagnostic) ↔
          (∀ axis, change.range? axis = none) ∧ change.shown? = none) ∧
      Assigning.runAll (ofFunction f settings) changes =
        (ofFunction f settings).afterAll changes := by
  refine ⟨holdsLast_afterAll usable f changes, fun others hranges hshown => ?_,
    change_refused_iff, Assigning.runAll_eq _ changes⟩
  rw [afterAll_eq, afterAll_eq, hranges, hranges, hshown]

theorem afterAll_of_identity :
    let graph := ofFunction .identity .standard
    let changes : List Change :=
      [.range .x 0 5, .range .y 1 1, .derivative true, .range .x 3 2, .range .y 0 1]
    (graph.afterAll changes).settings.viewport.range .x = ⟨0, 5⟩ ∧
      (graph.afterAll changes).settings.viewport.range .y = ⟨0, 1⟩ ∧
      graph.afterAll [.range .y 0 1, .derivative true, .range .x 0 5] =
        graph.afterAll changes := by
  intro graph changes
  have husable : GraphSettings.standard.viewport.Usable := ⟨by decide +kernel, by decide +kernel⟩
  obtain ⟨hlast, hsame, -, -⟩ := afterAll_ofFunction husable .identity changes
  have hx := hlast.range .x
  have hy := hlast.range .y
  refine ⟨hx.trans (by decide +kernel), hy.trans (by decide +kernel), hsame _ ?_ ?_⟩
  · intro axis
    cases axis <;> decide +kernel
  · decide +kernel

end Graph

end Calculator
