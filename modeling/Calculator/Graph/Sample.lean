import Calculator.Graph.Viewport
import Calculator.Log
import Calculator.RealFunction

/-!
Sampling a function at evenly spaced places. Points that are not finite leave a gap.
-/

set_option autoImplicit false
set_option relaxedAutoImplicit false

namespace Calculator

structure Point where
  x : Float
  y : Float
deriving DecidableEq

namespace Point

def isFinite (point : Point) : Bool := point.x.isFinite && point.y.isFinite

end Point

namespace Range

/-- The distance between neighbours of the given number of places, the bounds included. -/
def spacing (range : Range) (count : Nat) : Float :=
  if 1 < count then (range.max - range.min) / Float.ofNat (count - 1) else 0

/-- The place with the given index, counted from the lower bound. -/
def place (range : Range) (count index : Nat) : Float :=
  range.min + range.spacing count * Float.ofNat index

end Range

def RealFunction.pointAt (f : RealFunction Float) (x : Float) : Point := ⟨x, f.eval x⟩

/-- The finite points of a function at evenly spaced places, in the order of the places. -/
def RealFunction.sample (f : RealFunction Float) (range : Range) (count : Nat) : List Point :=
  ((List.range count).map fun index => f.pointAt (range.place count index)).filter Point.isFinite

def sampleLog (count : Nat) (points : List Point) : Log.Entry :=
  ⟨.trace, "kept " ++ toString points.length ++ " of " ++ toString count ++ " samples"⟩

end Calculator
