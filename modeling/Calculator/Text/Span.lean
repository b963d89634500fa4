/-!
Regions of a text, as half-open ranges of byte offsets.
-/

set_option autoImplicit false
set_option relaxedAutoImplicit false

namespace Calculator

/-- The bytes from `start` up to, and not including, `stop`. -/
structure Span where
  start : Nat
  stop : Nat
deriving DecidableEq

namespace Span

def point (offset : Nat) : Span := ⟨offset, offset⟩

/-- The span from the start of one span to the end of another. -/
def through (first last : Span) : Span := ⟨first.start, last.stop⟩

end Span

end Calculator
