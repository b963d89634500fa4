import Calculator.Diagnostic

/-!
The visible region of a graph: one range for each axis. A range is accepted if both bounds are
finite and the first is less than the second; setting one axis leaves the other alone.
-/

set_option autoImplicit false
set_option relaxedAutoImplicit false

namespace Calculator

structure Range where
  min : Float
  max : Float
deriving DecidableEq

namespace Range

def usable (range : Range) : Bool :=
  range.min.isFinite && range.max.isFinite && range.min < range.max

def ofBounds (axis : Axis) (min max : Float) : Except Diagnostic Range :=
  let range : Range := ⟨min, max⟩
  if range.usable then .ok range else .error ⟨.invalidRange axis min max, []⟩

end Range

structure Viewport where
  x : Range
  y : Range
deriving DecidableEq

namespace Viewport

def standard : Viewport := ⟨⟨-10, 10⟩, ⟨-10, 10⟩⟩

/-- The region with the given bounds, the x-axis being checked first. -/
def ofBounds (xMin xMax yMin yMax : Float) : Except Diagnostic Viewport := do
  let x ← Range.ofBounds .x xMin xMax
  let y ← Range.ofBounds .y yMin yMax
  return ⟨x, y⟩

def setRange (viewport : Viewport) (axis : Axis) (min max : Float) :
    Except Diagnostic Viewport := do
  let range ← Range.ofBounds axis min max
  match axis with
  | .x => return { viewport with x := range }
  | .y => return { viewport with y := range }

end Viewport

end Calculator
