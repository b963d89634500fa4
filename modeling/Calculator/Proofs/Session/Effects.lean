import Calculator.Proofs.Session.Consistency

/-!
What a line is about, and what handling it may change. A line that fails changes nothing, and one
that succeeds changes nothing but what it is about: a range is set on one axis, for the graphs to
come and for the graph there is, and everything else stays as it was. This holds of any state, also
of one that no lines lead to.

`Session.handle` takes a state and gives the next one, so a failure cannot leave anything behind in
it. `Handling.line` assigns piece by piece instead, in the order in which the checks and the
assignments stand, and what was assigned before a failure stays; `Handling.runFrom_line` says that
it comes to the same.
-/

set_option autoImplicit false
set_option relaxedAutoImplicit false

namespace Calculator

def Viewport.withRange (viewport : Viewport) : Axis → Range → Viewport
  | .x, range => { viewport with x := range }
  | .y, range => { viewport with y := range }

def GraphSettings.withRange (settings : GraphSettings) (axis : Axis) (range : Range) :
    GraphSettings :=
  { settings with viewport := settings.viewport.withRange axis range }

def GraphSettings.withDerivative (settings : GraphSettings) (shown : Bool) : GraphSettings :=
  { settings with showDerivative := shown }

theorem GraphSettings.setRange_eq (settings : GraphSettings) (axis : Axis) (min max : Float) :
    settings.setRange axis min max =
      (Range.ofBounds axis min max).map (settings.withRange axis) := by
  rw [GraphSettings.setRange, Viewport.setRange]
  cases Range.ofBounds axis min max with
  | error diagnostic => rfl
  | ok range => cases axis <;> rfl

theorem Graph.setRange_eq (graph : Graph) (axis : Axis) (min max : Float) :
    graph.setRange axis min max =
      (Range.ofBounds axis min max).map fun range =>
        { graph with settings := graph.settings.withRange axis range } := by
  rw [Graph.setRange, GraphSettings.setRange_eq]
  cases Range.ofBounds axis min max <;> rfl

namespace Session

def adjust (session : Session) (change : GraphSettings → GraphSettings) : Session :=
  { session with
    settings := change session.settings
    graph := session.graph.map fun graph => { graph with settings := change graph.settings } }

def rangeArgument (axis : Axis) (source : String) (arguments : List (List Char)) :
    Except Failure Range := do
  let min ← numberArgument arguments[0]?
  let max ← numberArgument arguments[1]?
  (Range.ofBounds axis min max).mapError (.expression source)

variable {session next : Session}

/-- Setting a range is reading it and adjusting the settings; what is read does not depend on the
session. -/
theorem setRange_eq (session : Session) (axis : Axis) (source : String)
    (arguments : List (List Char)) :
    session.setRange axis source arguments =
      (rangeArgument axis source arguments).map fun range =>
        let next := session.adjust (·.withRange axis range)
        (next.redescribe, next) := by
  rw [setRange, rangeArgument]
  cases numberArgument arguments[0]? with
  | error failure => rfl
  | ok min =>
    cases numberArgument arguments[1]? with
    | error failure => rfl
    | ok max =>
      simp only [bind, Except.bind, GraphSettings.setRange_eq, Graph.setRange_eq]
      cases Range.ofBounds axis min max <;> rfl

theorem setShowDerivative_eq (session : Session) (arguments : List (List Char)) :
    session.setShowDerivative arguments =
      (switchArgument arguments[0]?).map fun shown =>
        let next := session.adjust (·.withDerivative shown)
        (next.redescribe, next) := by
  rw [setShowDerivative]
  cases switchArgument arguments[0]? <;> rfl

theorem usable_of_rangeArgument {axis : Axis} {source : String} {arguments : List (List Char)}
    {range : Range} (h : rangeArgument axis source arguments = .ok range) : range.usable := by
  obtain ⟨min, -, h⟩ := bind_eq_ok_iff.mp h
  obtain ⟨max, -, h⟩ := bind_eq_ok_iff.mp h
  cases hrange : Range.ofBounds axis min max with
  | error diagnostic =>
    rw [hrange] at h
    cases h
  | ok range' =>
    rw [hrange] at h
    cases h
    exact (Range.ofBounds_eq_ok_iff.mp hrange).2

end Session

/-- What a line is about: nothing, an expression in one of the modes, or one of the commands. -/
inductive Topic where
  | blank
  | expression (mode : Mode)
  | mode | range (axis : Axis) | derivative | place | help | unknown
deriving DecidableEq

def Topic.ofCommand : String → Topic
  | "mode" => .mode
  | "x" => .range .x
  | "y" => .range .y
  | "derivative" => .derivative
  | "at" => .place
  | "help" => .help
  | _ => .unknown

namespace Session

def commandName (text : List Char) : String := String.ofList ((Text.words text).head?.getD [])

def topic (session : Session) (line : String) : Topic :=
  match Text.trim line.toList with
  | [] => .blank
  | ':' :: text => .ofCommand (commandName text)
  | _ => .expression session.mode

end Session

/-- What a line that succeeds may change: what it is about. An expression in arithmetic replaces the
previous result by the value it replies, if that is finite; a blank line has no reply. -/
def Topic.Changes (session : Session) (reply : Option String) (next : Session) : Topic → Prop
  | .expression .arith => ∃ value, reply = some (Number.plain value) ∧
      next = if value.isFinite then { session with answer := some value } else session
  | .expression .graph => ∃ graph, next = { session with graph := some graph }
  | .mode => ∃ mode, next = { session with mode }
  | .range axis => ∃ range, range.usable ∧ next = session.adjust (·.withRange axis range)
  | .derivative => ∃ shown, next = session.adjust (·.withDerivative shown)
  | .blank => reply = none ∧ next = session
  | .expression .complex | .place | .help => next = session
  | .unknown => False

/-- What a line may do to a session: change what it is about, or fail and change nothing. -/
def Topic.Allows (topic : Topic) (session : Session) : Reply × Session → Prop
  | (.error _, next) => next = session
  | (.ok reply, next) => topic.Changes session reply next

namespace Session

variable {session : Session}

theorem evaluate_allowed (session : Session) (line : List Char) :
    (Topic.expression session.mode).Allows session (session.evaluate line) := by
  rw [evaluate]
  cases session.mode with
  | arith =>
    dsimp only
    rw [evaluateArith]
    split
    · exact rfl
    · exact ⟨_, rfl, rfl⟩
  | complex =>
    dsimp only
    rw [evaluateComplex]
    split <;> exact rfl
  | graph =>
    dsimp only
    rw [evaluateGraph]
    split
    · exact rfl
    · exact ⟨_, rfl⟩

theorem command_changes {text : List Char} {reply : Option String} {next : Session}
    (h : session.command text = .ok (reply, next)) :
    (Topic.ofCommand (commandName text)).Changes session reply next := by
  unfold command at h
  dsimp only at h
  rw [← commandName] at h
  generalize commandName text = name at h ⊢
  split at h
  · obtain ⟨mode, -, h⟩ := bind_eq_ok_iff.mp h
    cases h
    exact ⟨mode, rfl⟩
  · rw [setRange_eq] at h
    obtain ⟨range, hrange, h⟩ := map_eq_ok_iff.mp h
    cases h
    exact ⟨range, usable_of_rangeArgument hrange, rfl⟩
  · rw [setRange_eq] at h
    obtain ⟨range, hrange, h⟩ := map_eq_ok_iff.mp h
    cases h
    exact ⟨range, usable_of_rangeArgument hrange, rfl⟩
  · rw [setShowDerivative_eq] at h
    obtain ⟨shown, -, h⟩ := map_eq_ok_iff.mp h
    cases h
    exact ⟨shown, rfl⟩
  · obtain ⟨value, -, h⟩ := bind_eq_ok_iff.mp h
    cases h
    exact rfl
  · cases h
    exact rfl
  · cases h

/-- What a command leaves behind: its reply and the next session, or its failure and the session as
it was. -/
def afterCommand (session : Session) : Except Failure (Option String × Session) → Reply × Session
  | .ok (reply, next) => (.ok reply, next)
  | .error failure => (.error failure, session)

theorem handle_command {line : String} {text : List Char}
    (htrim : Text.trim line.toList = ':' :: text) :
    session.handle line = session.afterCommand (session.command text) := by
  rw [handle, htrim]
  rfl

theorem line_cases (line : String) :
    (∀ session : Session, session.topic line = .blank ∧ session.handle line = (.ok none, session)) ∨
    (∃ text, ∀ session : Session, session.topic line = .ofCommand (commandName text) ∧
      session.handle line = session.afterCommand (session.command text)) ∨
    ∃ text, ∀ session : Session, session.topic line = .expression session.mode ∧
      session.handle line = session.evaluate text := by
  cases htrim : Text.trim line.toList with
  | nil =>
    left
    intro session
    rw [topic, handle, htrim]
    exact ⟨rfl, rfl⟩
  | cons c text =>
    right
    by_cases hc : c = ':'
    · subst hc
      left
      refine ⟨text, fun session => ⟨?_, handle_command htrim⟩⟩
      rw [topic, htrim]
      rfl
    · right
      refine ⟨c :: text, fun session => ⟨?_, handle_expression htrim hc⟩⟩
      rw [topic, htrim]
      split
      · next hnil => cases hnil
      · next hcolon =>
        cases hcolon
        exact absurd rfl hc
      · rfl

theorem handle_allowed (session : Session) (line : String) :
    (session.topic line).Allows session (session.handle line) := by
  rcases line_cases line with hblank | ⟨text, hcommand⟩ | ⟨text, hexpression⟩
  · rw [(hblank session).1, (hblank session).2]
    exact ⟨rfl, rfl⟩
  · rw [(hcommand session).1, (hcommand session).2]
    cases houtcome : session.command text with
    | error failure => exact rfl
    | ok outcome => exact command_changes houtcome
  · rw [(hexpression session).1, (hexpression session).2]
    exact evaluate_allowed session text

end Session

/-- Handling that assigns piece by piece: what was assigned before a failure stays assigned. -/
abbrev Handling := ExceptT Failure (StateM Session)

namespace Handling

def evaluateArith (line : List Char) : Handling (Option String) := do
  let session ← get
  let source := String.ofList (Keypad.assemble line (session.answer.map .ofFloat))
  match Arith.parse source >>= Arith.Expr.eval with
  | .error diagnostic => throw (.expression source diagnostic)
  | .ok value =>
    if value.isFinite then
      modify fun session => { session with answer := some value }
    return some (Number.plain value)

def evaluateComplex (line : List Char) : Handling (Option String) := do
  let source := String.ofList line
  match Complex.parse source with
  | .error diagnostic => throw (.expression source diagnostic)
  | .ok z => return some z.render

def evaluateGraph (line : List Char) : Handling (Option String) := do
  let source := String.ofList line
  match RealFunction.parse RealFunction.defaultMaxPower source with
  | .error diagnostic => throw (.expression source diagnostic)
  | .ok f =>
    let session ← get
    let graph := Graph.ofFunction f session.settings
    let output := Session.describeGraph graph
    set { session with graph := some graph }
    return some output

def evaluate (line : List Char) : Handling (Option String) := do
  match (← get).mode with
  | .arith => evaluateArith line
  | .complex => evaluateComplex line
  | .graph => evaluateGraph line

/-- Set the range of one axis, for the graphs to come and then for the graph there is, which checks
the range once more and stays as it is if it refuses it. -/
def setRange (axis : Axis) (source : String) (arguments : List (List Char)) :
    Handling (Option String) := do
  let min ← Session.numberArgument arguments[0]?
  let max ← Session.numberArgument arguments[1]?
  let session ← get
  match session.settings.setRange axis min max with
  | .error diagnostic => throw (.expression source diagnostic)
  | .ok settings =>
    set { session with settings }
    modify fun session => { session with
      graph := session.graph.map fun graph => (graph.setRange axis min max).toOption.getD graph }
    return (← get).redescribe

def setShowDerivative (arguments : List (List Char)) : Handling (Option String) := do
  let shown ← Session.switchArgument arguments[0]?
  modify fun session => { session with settings := session.settings.withDerivative shown }
  modify fun session => { session with
    graph := session.graph.map fun graph => graph.setShowDerivative shown }
  return (← get).redescribe

def command (text : List Char) : Handling (Option String) :=
  let words := Text.words text
  let name := String.ofList (words.head?.getD [])
  let arguments := words.drop 1
  match name with
  | "mode" => do
    let mode ← Session.modeArgument arguments[0]?
    modify fun session => { session with mode }
    return none
  | "x" => setRange .x (String.ofList text) arguments
  | "y" => setRange .y (String.ofList text) arguments
  | "derivative" => setShowDerivative arguments
  | "at" => do
    let session ← get
    session.evaluateAt arguments
  | "help" => return some Session.helpText
  | _ => throw (.command ("unknown command " ++ ticked (":" ++ name)))

def line (text : String) : Handling (Option String) :=
  match Text.trim text.toList with
  | [] => pure none
  | ':' :: text => command text
  | text => evaluate text

/-- What is replied, and the session there is in the end, whether or not the handling fails. -/
def runFrom {α : Type} (session : Session) (handling : Handling α) : Except Failure α × Session :=
  StateT.run (ExceptT.run handling) session

variable {session : Session}

theorem runFrom_get_bind {α : Type} (next : Session → Handling α) :
    runFrom session (get >>= next) = runFrom session (next session) := rfl

theorem runFrom_ok_bind {α β : Type} (value : α) (next : α → Handling β) :
    runFrom session (liftM (Except.ok value : Except Failure α) >>= next) =
      runFrom session (next value) := rfl

theorem runFrom_evaluateArith (text : List Char) :
    runFrom session (evaluateArith text) = session.evaluateArith text := by
  rw [Session.evaluateArith, evaluateArith, runFrom_get_bind]
  dsimp only
  generalize Arith.parse _ >>= Arith.Expr.eval = outcome
  cases outcome with
  | error diagnostic => rfl
  | ok value =>
    dsimp only
    split <;> rfl

theorem runFrom_evaluateComplex (text : List Char) :
    runFrom session (evaluateComplex text) = session.evaluateComplex text := by
  rw [Session.evaluateComplex, evaluateComplex]
  generalize Complex.parse _ = outcome
  cases outcome <;> rfl

theorem runFrom_evaluateGraph (text : List Char) :
    runFrom session (evaluateGraph text) = session.evaluateGraph text := by
  rw [Session.evaluateGraph, evaluateGraph]
  generalize RealFunction.parse _ _ = outcome
  cases outcome <;> rfl

theorem runFrom_evaluate (text : List Char) :
    runFrom session (evaluate text) = session.evaluate text := by
  rw [Session.evaluate, evaluate, runFrom_get_bind]
  cases session.mode with
  | arith => exact runFrom_evaluateArith text
  | complex => exact runFrom_evaluateComplex text
  | graph => exact runFrom_evaluateGraph text

theorem runFrom_setRange (axis : Axis) (source : String) (arguments : List (List Char)) :
    runFrom session (setRange axis source arguments) =
      session.afterCommand (session.setRange axis source arguments) := by
  rw [Session.setRange, setRange]
  cases Session.numberArgument arguments[0]? with
  | error failure => rfl
  | ok min =>
    cases Session.numberArgument arguments[1]? with
    | error failure => rfl
    | ok max =>
      rw [runFrom_ok_bind, runFrom_ok_bind, runFrom_get_bind]
      simp only [bind, Except.bind]
      cases session.settings.setRange axis min max <;> rfl

theorem runFrom_setShowDerivative (arguments : List (List Char)) :
    runFrom session (setShowDerivative arguments) =
      session.afterCommand (session.setShowDerivative arguments) := by
  rw [Session.setShowDerivative, setShowDerivative]
  cases Session.switchArgument arguments[0]? <;> rfl

theorem runFrom_evaluateAt (arguments : List (List Char)) :
    runFrom session (get >>= fun session => session.evaluateAt arguments) =
      session.afterCommand (session.evaluateAt arguments >>= fun reply =>
        pure (reply, session)) := by
  rw [runFrom_get_bind]
  cases session.evaluateAt arguments <;> rfl

theorem runFrom_command (text : List Char) :
    runFrom session (command text) = session.afterCommand (session.command text) := by
  unfold command Session.command
  dsimp only
  generalize String.ofList ((Text.words text).head?.getD []) = name
  -- Both tables of commands go by the name, so the cases are those of the name.
  by_cases mode : name = "mode"
  · subst mode
    cases Session.modeArgument ((Text.words text).drop 1)[0]? <;> rfl
  by_cases x : name = "x"
  · subst x
    exact runFrom_setRange _ _ _
  by_cases y : name = "y"
  · subst y
    exact runFrom_setRange _ _ _
  by_cases derivative : name = "derivative"
  · subst derivative
    exact runFrom_setShowDerivative _
  by_cases value : name = "at"
  · subst value
    exact runFrom_evaluateAt _
  by_cases help : name = "help"
  · subst help
    rfl
  · simp only
    rfl

/-- Assigning piece by piece comes to the same: no check that can fail stands behind an
assignment. -/
theorem runFrom_line (session : Session) (text : String) :
    runFrom session (line text) = session.handle text := by
  cases htrim : Text.trim text.toList with
  | nil =>
    rw [line, Session.handle, htrim]
    rfl
  | cons c rest =>
    by_cases hc : c = ':'
    · subst hc
      rw [line, htrim, Session.handle_command htrim]
      exact runFrom_command rest
    · rw [Session.handle_expression htrim hc, ← runFrom_evaluate, line, htrim]
      split
      · next hnil => cases hnil
      · next hcolon =>
        cases hcolon
        exact absurd rfl hc
      · rfl

end Handling

end Calculator
