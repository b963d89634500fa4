import Calculator.Text.EditDistance

/-!
The functions that an expression can call by name. All of them take one argument; angles are in
radians.
-/

set_option autoImplicit false
set_option relaxedAutoImplicit false

namespace Calculator

inductive Builtin where
  | sine | cosine | tangent
  | arcsine | arccosine | arctangent
  | squareRoot | naturalLog | commonLog | exponential
deriving DecidableEq

namespace Builtin

/-- Every name a function can be called by, in the order suggestions are given. The common
logarithm has two names. -/
def names : List (String × Builtin) := [
  ("sin", .sine), ("cos", .cosine), ("tan", .tangent),
  ("arcsin", .arcsine), ("arccos", .arccosine), ("arctan", .arctangent),
  ("sqrt", .squareRoot), ("ln", .naturalLog), ("lg", .commonLog), ("log", .commonLog),
  ("exp", .exponential)]

/-- The function with the given name, in exactly this spelling. -/
def ofName? (name : String) : Option Builtin :=
  (names.find? fun entry => entry.1 = name).map Prod.snd

def name : Builtin → String
  | .sine => "sin"
  | .cosine => "cos"
  | .tangent => "tan"
  | .arcsine => "arcsin"
  | .arccosine => "arccos"
  | .arctangent => "arctan"
  | .squareRoot => "sqrt"
  | .naturalLog => "ln"
  | .commonLog => "log"
  | .exponential => "exp"

/-- The names at most one edit away from the given one. -/
def similarNames (name : String) : List String :=
  (names.map Prod.fst).filter fun known =>
    Text.editDistance known.toList name.toList < 2

end Builtin

end Calculator
