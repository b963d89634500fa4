/-!
The binary operators that every grammar shares, with the way they group.
-/

set_option autoImplicit false
set_option relaxedAutoImplicit false

namespace Calculator

inductive Operator where
  | add | sub | mul | div | pow
deriving DecidableEq

/-- Which operand a chain of one operator groups with: `a - b - c` is `(a - b) - c`, and
`a ^ b ^ c` is `a ^ (b ^ c)`. -/
inductive Associativity where
  | left | right
deriving DecidableEq

namespace Operator

/-- The operators, in the order of their precedence. -/
def all : List Operator := [.add, .sub, .mul, .div, .pow]

def symbol : Operator → Char
  | .add => '+'
  | .sub => '-'
  | .mul => '*'
  | .div => '/'
  | .pow => '^'

def ofSymbol? (c : Char) : Option Operator := all.find? fun op => op.symbol = c

def precedence : Operator → Nat
  | .add | .sub => 2
  | .mul | .div => 3
  | .pow => 4

def associativity : Operator → Associativity
  | .pow => .right
  | .add | .sub | .mul | .div => .left

end Operator

end Calculator
