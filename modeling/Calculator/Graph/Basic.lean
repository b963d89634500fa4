import Calculator.Formula.Parser
import Calculator.Graph.Sample

/-!
Graphs: a function of `x`, its derivative, and how to show them. The derivative is computed once,
when the graph is made, and is there whether or not it is shown.
-/

set_option autoImplicit false
set_option relaxedAutoImplicit false

namespace Calculator

/-- How a graph is shown: the visible region, the number of places each curve is sampled at, and
whether the derivative is plotted. -/
structure GraphSettings where
  viewport : Viewport
  samples : Nat
  showDerivative : Bool
deriving DecidableEq

def GraphSettings.standard : GraphSettings := ⟨Viewport.standard, 512, false⟩

def GraphSettings.setRange (settings : GraphSettings) (axis : Axis) (min max : Float) :
    Except Diagnostic GraphSettings := do
  let viewport ← settings.viewport.setRange axis min max
  return { settings with viewport }

inductive Curve where
  | function | derivative
deriving DecidableEq

structure Plot where
  function : List Point
  derivative? : Option (List Point)

structure Graph where
  function : RealFunction Float
  derivative : RealFunction Float
  settings : GraphSettings

namespace Graph

def ofFunction (function : RealFunction Float) (settings : GraphSettings) : Graph :=
  ⟨function, function.derivative, settings⟩

/-- The graph of a formula, with the standard settings. -/
def parse (input : String) : Except Diagnostic Graph :=
  (RealFunction.parse RealFunction.defaultMaxPower input).map fun f =>
    ofFunction f GraphSettings.standard

def curve (graph : Graph) : Curve → RealFunction Float
  | .function => graph.function
  | .derivative => graph.derivative

def setRange (graph : Graph) (axis : Axis) (min max : Float) : Except Diagnostic Graph := do
  let settings ← graph.settings.setRange axis min max
  return { graph with settings }

def setShowDerivative (graph : Graph) (shown : Bool) : Graph :=
  { graph with settings := { graph.settings with showDerivative := shown } }

def sample (graph : Graph) (curve : Curve) (count : Nat) : List Point :=
  (graph.curve curve).sample graph.settings.viewport.x count

/-- The points of the function, and those of the derivative if it is shown. -/
def plot (graph : Graph) : Plot where
  function := graph.sample .function graph.settings.samples
  derivative? :=
    if graph.settings.showDerivative then some (graph.sample .derivative graph.settings.samples)
    else none

def creationLog (graph : Graph) : Log.Entry :=
  let form :=
    match graph.derivative with
    | .exact _ => "exact"
    | .numeric _ => "numeric"
  ⟨.debug, "created graph with " ++ form ++ " derivative"⟩

end Graph

end Calculator
