import Calculator.Builtin
import Calculator.Diagnostic
import Calculator.Operator
import Calculator.Text.Reading

/-!
The tokens of formulas in `x`: numbers, the variable, Euler's number, function names, operators,
parentheses and braces.
-/

set_option autoImplicit false
set_option relaxedAutoImplicit false

namespace Calculator.Formula

inductive Kind where
  | number | variable | euler
  | function (f : Builtin)
  | operator (op : Operator)
  | opening (delimiter : Delimiter)
  | closing (delimiter : Delimiter)
  | symbol
deriving DecidableEq

/-- Whether a factor can start with a token of this kind. Right after a factor, such a token
multiplies it. -/
def Kind.startsFactor : Kind → Bool
  | .number | .variable | .euler | .function _ | .opening _ => true
  | .operator _ | .closing _ | .symbol => false

/-- The patterns of the tokens. The names of the functions are fixed words, so that `sinx` is a
function and the variable. -/
def lexicon : Lexicon Kind where
  entries := [
    (.numeral, .number),
    (.single 'x', .variable), (.single 'X', .variable),
    (.single 'e', .euler),
    (.single '+', .operator .add), (.single '-', .operator .sub),
    (.single '*', .operator .mul), (.single '/', .operator .div),
    (.single '^', .operator .pow),
    (.single '(', .opening .parenthesis), (.single ')', .closing .parenthesis),
    (.single '\x7b', .opening .brace), (.single '\x7d', .closing .brace)]
    ++ Builtin.names.map fun entry => (.word entry.1.toList, .function entry.2)
  symbol := .symbol

end Calculator.Formula
