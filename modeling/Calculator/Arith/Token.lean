import Calculator.Operator
import Calculator.Text.Reading

/-!
The tokens of arithmetic: numbers, names, operators and parentheses.
-/

set_option autoImplicit false
set_option relaxedAutoImplicit false

namespace Calculator.Arith

inductive Kind where
  | number | name
  | operator (op : Operator)
  | opening | closing
  | symbol
deriving DecidableEq

/-- The patterns of the tokens. A run of letters is one name, known or not. -/
def lexicon : Lexicon Kind where
  entries := [
    (.numeral, .number),
    (.run Char.isAlpha, .name),
    (.single '+', .operator .add), (.single '-', .operator .sub),
    (.single '*', .operator .mul), (.single '/', .operator .div),
    (.single '^', .operator .pow),
    (.single '(', .opening), (.single ')', .closing)]
  symbol := .symbol

end Calculator.Arith
