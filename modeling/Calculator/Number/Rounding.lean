/-!
Rounding of a quotient of two natural numbers to a natural number, and integer square roots.
These are the only places where a digit is dropped: every number text and every conversion in the
library goes through one of them.
-/

set_option autoImplicit false
set_option relaxedAutoImplicit false

namespace Calculator.Rounding

/-- The natural number nearest to the quotient, an exact half going to the even neighbour. -/
def halfEven (num den : Nat) : Nat :=
  let quotient := num / den
  let twice := 2 * (num % den)
  if den < twice then quotient + 1
  else if twice = den then quotient + quotient % 2
  else quotient

/-- The natural number nearest to the quotient, an exact half going up. -/
def halfUp (num den : Nat) : Nat := (2 * num + den) / (2 * den)

/-- The largest natural number whose square is at most the argument. -/
def floorSqrt (n : Nat) : Nat :=
  if n < 2 then n
  else
    let root := 2 * floorSqrt (n / 4)
    if (root + 1) * (root + 1) ≤ n then root + 1 else root
termination_by n
decreasing_by omega

end Calculator.Rounding
