import Calculator.Complex.Basic
import Calculator.Operator
import Calculator.Text.Reading

/-!
The tokens of complex arithmetic: numbers, the imaginary unit, two functions, operators and
parentheses.
-/

set_option autoImplicit false
set_option relaxedAutoImplicit false

namespace Calculator.Complex

inductive Kind where
  | number | unit | conj | abs
  | operator (op : Operator)
  | opening | closing
  | symbol
deriving DecidableEq

/-- The patterns of the tokens. There is no power. -/
def lexicon : Lexicon Kind where
  entries := [
    (.numeral, .number),
    (.single 'i', .unit),
    (.word ['c', 'o', 'n', 'j'], .conj), (.word ['a', 'b', 's'], .abs),
    (.single '+', .operator .add), (.single '-', .operator .sub),
    (.single '*', .operator .mul), (.single '/', .operator .div),
    (.single '(', .opening), (.single ')', .closing)]
  symbol := .symbol

/-- A value, and the offset where its text ends. -/
structure Ended where
  value : Complex
  stop : Nat

end Calculator.Complex
