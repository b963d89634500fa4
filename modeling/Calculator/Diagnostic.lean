import Calculator.Text.Span

/-!
What can go wrong with an input, as causes. A diagnostic is a cause with the regions of the input
it concerns; the wording is left to the report.
-/

set_option autoImplicit false
set_option relaxedAutoImplicit false

namespace Calculator

inductive Delimiter where
  | parenthesis | brace
deriving DecidableEq

/-- What a parser was ready to accept. -/
inductive Expectation where
  | complexFactor
  | functionFactor
  | opening (delimiter : Delimiter)
  | closing (delimiter : Delimiter)
deriving DecidableEq

inductive Axis where
  | x | y
deriving DecidableEq

inductive Cause where
  | emptyExpression
  | unexpectedEnd
  | expectedEnd
  | unexpectedToken (expected : Expectation) (found : String)
  | unexpectedCharacter (found : String)
  | invalidNumber (lexeme : String)
  | unknownFunction (name : String) (suggestions : List String)
  | missingArgument (name : String)
  | unclosed (delimiter : Delimiter) (opening : Bool)
  | emptyGroup
  | missingOperand (symbol : Char)
  | missingOperator
  | unsupportedSign (sign : Char)
  | divisionByZero
  | invalidRange (axis : Axis) (min max : Float)
deriving DecidableEq

/-- Malformed input, or well-formed input without a value. -/
inductive Category where
  | syntactic | arithmetic
deriving DecidableEq

structure Diagnostic where
  cause : Cause
  spans : List Span
deriving DecidableEq

def Cause.category : Cause → Category
  | .divisionByZero => .arithmetic
  | _ => .syntactic

namespace Diagnostic

def one (span : Span) (cause : Cause) : Diagnostic := ⟨cause, [span]⟩

def two (first second : Span) (cause : Cause) : Diagnostic := ⟨cause, [first, second]⟩

def category (d : Diagnostic) : Category := d.cause.category

end Diagnostic

instance decidableEqExcept {ε α : Type} [DecidableEq ε] [DecidableEq α] :
    DecidableEq (Except ε α)
  | .ok a, .ok b => decidable_of_iff (a = b) (by simp)
  | .error d, .error e => decidable_of_iff (d = e) (by simp)
  | .ok _, .error _ => isFalse (by simp)
  | .error _, .ok _ => isFalse (by simp)

end Calculator
