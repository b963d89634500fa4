import Calculator.Arith.Parser
import Calculator.Complex.Parser
import Calculator.Graph.Basic
import Calculator.Report
import Calculator.Session.Keypad
import Calculator.Text.Blank

/-!
Interactive sessions. A line is a command if it starts with a colon, and otherwise an expression
in the current mode; handling it gives a reply and the next state. A line that fails changes
nothing.
-/

set_option autoImplicit false
set_option relaxedAutoImplicit false

namespace Calculator

inductive Mode where
  | arith | complex | graph
deriving DecidableEq

def Mode.name : Mode → String
  | .arith => "arith"
  | .complex => "complex"
  | .graph => "graph"

def Mode.ofName? (name : String) : Option Mode :=
  [Mode.arith, .complex, .graph].find? fun mode => mode.name = name

/-- Why a line fails: an expression without a value, with the text that was read, or a command
that makes no sense. -/
inductive Failure where
  | expression (source : String) (diagnostic : Diagnostic)
  | command (message : String)
deriving DecidableEq

abbrev Reply := Except Failure (Option String)

/-- The state of a session: the mode, the last finite result of arithmetic, the settings for
graphs, and the last graph. -/
structure Session where
  mode : Mode
  answer : Option Float
  settings : GraphSettings
  graph : Option Graph

namespace Session

def initial : Session := ⟨.arith, none, GraphSettings.standard, none⟩

def prompt (session : Session) : String := session.mode.name ++ "> "

def helpText : String :=
  "commands:\n" ++
  "  :mode arith|complex|graph   switch the grammar used for input\n" ++
  "  :x <min> <max>              set the x-range of the graph\n" ++
  "  :y <min> <max>              set the y-range of the graph\n" ++
  "  :derivative on|off          plot the derivative alongside the function\n" ++
  "  :at <x>                     evaluate the graphed function and its derivative at x\n" ++
  "  :help                       show this message"

def describeCurve (name : String) (f : RealFunction Float) : String :=
  match f with
  | .exact p => name ++ " = " ++ p.render
  | .numeric _ => name ++ " is evaluated numerically"

def describeGraph (graph : Graph) : String :=
  let plot := graph.plot
  let range := graph.settings.viewport.x
  let shown :=
    match plot.derivative? with
    | none => []
    | some points => ["plotted " ++ toString points.length ++ " points of f'"]
  "\n".intercalate <|
    [describeCurve "f(x)" graph.function,
      describeCurve "f'(x)" graph.derivative,
      "plotted " ++ toString plot.function.length ++ " points of f for x in ["
        ++ Number.plain range.min ++ ", " ++ Number.plain range.max ++ "]"] ++ shown

/-- Evaluate a line of arithmetic. A finite value becomes the previous result. -/
def evaluateArith (session : Session) (line : List Char) : Reply × Session :=
  let source := String.ofList (Keypad.assemble line (session.answer.map .ofFloat))
  match Arith.parse source >>= Arith.Expr.eval with
  | .error diagnostic => (.error (.expression source diagnostic), session)
  | .ok value =>
    let next := if value.isFinite then { session with answer := some value } else session
    (.ok (some (Number.plain value)), next)

def evaluateComplex (session : Session) (line : List Char) : Reply × Session :=
  let source := String.ofList line
  match Complex.parse source with
  | .error diagnostic => (.error (.expression source diagnostic), session)
  | .ok z => (.ok (some z.render), session)

def evaluateGraph (session : Session) (line : List Char) : Reply × Session :=
  let source := String.ofList line
  match RealFunction.parse RealFunction.defaultMaxPower source with
  | .error diagnostic => (.error (.expression source diagnostic), session)
  | .ok f =>
    let graph := Graph.ofFunction f session.settings
    (.ok (some (describeGraph graph)), { session with graph := some graph })

def evaluate (session : Session) (line : List Char) : Reply × Session :=
  match session.mode with
  | .arith => session.evaluateArith line
  | .complex => session.evaluateComplex line
  | .graph => session.evaluateGraph line

def numberArgument (argument : Option (List Char)) : Except Failure Float :=
  match argument with
  | none => .error (.command "missing number")
  | some text =>
    match Number.read? text with
    | some value => .ok value
    | none => .error (.command (ticked (String.ofList text) ++ " is not a number"))

def modeArgument (argument : Option (List Char)) : Except Failure Mode :=
  match argument with
  | none => .error (.command "missing mode")
  | some text =>
    match Mode.ofName? (String.ofList text) with
    | some mode => .ok mode
    | none => .error (.command ("unknown mode " ++ ticked (String.ofList text)))

def switchArgument (argument : Option (List Char)) : Except Failure Bool :=
  match argument.map String.ofList with
  | some "on" => .ok true
  | some "off" => .ok false
  | _ => .error (.command "expected `on` or `off`")

def redescribe (session : Session) : Option String := session.graph.map describeGraph

/-- Set the range of one axis, for the graph there is and for those to come. `source` is the text
of the command. -/
def setRange (session : Session) (axis : Axis) (source : String)
    (arguments : List (List Char)) : Except Failure (Option String × Session) := do
  let min ← numberArgument arguments[0]?
  let max ← numberArgument arguments[1]?
  match session.settings.setRange axis min max with
  | .error diagnostic => .error (.expression source diagnostic)
  | .ok settings =>
    let graph := session.graph.map fun graph => (graph.setRange axis min max).toOption.getD graph
    let next := { session with settings, graph }
    return (next.redescribe, next)

def setShowDerivative (session : Session) (arguments : List (List Char)) :
    Except Failure (Option String × Session) := do
  let shown ← switchArgument arguments[0]?
  let next := { session with
    settings := { session.settings with showDerivative := shown }
    graph := session.graph.map fun graph => graph.setShowDerivative shown }
  return (next.redescribe, next)

/-- The values of the graphed function and of its derivative at one place. -/
def evaluateAt (session : Session) (arguments : List (List Char)) :
    Except Failure (Option String) := do
  let x ← numberArgument arguments[0]?
  match session.graph with
  | none => .error (.command "nothing is graphed")
  | some graph =>
    let place := "(" ++ Number.plain x ++ ") = "
    return some <|
      "f" ++ place ++ Number.plain (graph.function.eval x) ++ "\n" ++
      "f'" ++ place ++ Number.plain (graph.derivative.eval x)

/-- Run a command, given its text without the colon. -/
def command (session : Session) (text : List Char) : Except Failure (Option String × Session) :=
  let words := Text.words text
  let name := String.ofList (words.head?.getD [])
  let arguments := words.drop 1
  match name with
  | "mode" => do
    let mode ← modeArgument arguments[0]?
    return (none, { session with mode })
  | "x" => session.setRange .x (String.ofList text) arguments
  | "y" => session.setRange .y (String.ofList text) arguments
  | "derivative" => session.setShowDerivative arguments
  | "at" => do
    let reply ← session.evaluateAt arguments
    return (reply, session)
  | "help" => .ok (some helpText, session)
  | _ => .error (.command ("unknown command " ++ ticked (":" ++ name)))

def handle (session : Session) (line : String) : Reply × Session :=
  match Text.trim line.toList with
  | [] => (.ok none, session)
  | ':' :: text =>
    match session.command text with
    | .ok (reply, next) => (.ok reply, next)
    | .error failure => (.error failure, session)
  | text => session.evaluate text

end Session

end Calculator
