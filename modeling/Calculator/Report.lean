import Calculator.Diagnostic
import Calculator.Number.Notation
import Calculator.Text.Quoted

/-!
The wording of diagnostics. A report has a title, one label for each region, and sometimes a hint;
a summary is one line with the category, the first region, and the cause with its fields.
-/

set_option autoImplicit false
set_option relaxedAutoImplicit false

namespace Calculator

def Axis.letter : Axis → Char
  | .x => 'x'
  | .y => 'y'

def Delimiter.noun : Delimiter → String
  | .parenthesis => "parenthesis"
  | .brace => "brace"

def Delimiter.opener : Delimiter → Char
  | .parenthesis => '('
  | .brace => '\x7b'

def Delimiter.closer : Delimiter → Char
  | .parenthesis => ')'
  | .brace => '\x7d'

def ticked (text : String) : String := "`" ++ text ++ "`"

def Expectation.describe : Expectation → String
  | .complexFactor => "a number, `(`, `conj` or `abs`"
  | .functionFactor => "a number, `x`, `e`, a function, `(` or `\x7b`"
  | .opening delimiter => ticked (String.singleton delimiter.opener)
  | .closing delimiter => ticked (String.singleton delimiter.closer)

def fieldList (name : String) (fields : List (String × String)) : String :=
  match fields with
  | [] => name
  | _ =>
    let written := fields.map fun field => field.1 ++ ": " ++ field.2
    name ++ " \x7b " ++ ", ".intercalate written ++ " \x7d"

def quotedChar (c : Char) : String := "'" ++ String.singleton c ++ "'"

def quotedList (texts : List String) : String :=
  "[" ++ ", ".intercalate (texts.map Text.quoted) ++ "]"

namespace Cause

def kind : Cause → String
  | .emptyExpression => "EmptyExpression"
  | .unexpectedEnd => "UnexpectedEof"
  | .expectedEnd => "ExpectedEof"
  | .unexpectedToken .. => "UnexpectedToken"
  | .unexpectedCharacter _ => "UnexpectedCharacter"
  | .invalidNumber _ => "InvalidNumber"
  | .unknownFunction .. => "UnknownFunction"
  | .missingArgument _ => "MissingArgumentList"
  | .unclosed .parenthesis _ => "UnclosedParenthesis"
  | .unclosed .brace _ => "UnclosedBrace"
  | .emptyGroup => "EmptyParenthesis"
  | .missingOperand _ => "MissingOperand"
  | .missingOperator => "MissingOperator"
  | .unsupportedSign _ => "UnsupportedUnarySign"
  | .divisionByZero => "DivisionByZero"
  | .invalidRange .. => "InvalidRange"

def fields : Cause → List (String × String)
  | .unexpectedToken expected found =>
    [("expected", Text.quoted expected.describe), ("found", Text.quoted found)]
  | .unexpectedCharacter found => [("ch", Text.quoted found)]
  | .invalidNumber lexeme => [("lexeme", Text.quoted lexeme)]
  | .unknownFunction name suggestions =>
    [("name", Text.quoted name), ("suggestions", quotedList suggestions)]
  | .missingArgument name => [("name", Text.quoted name)]
  | .unclosed _ opening => [("opening", if opening then "true" else "false")]
  | .missingOperand symbol => [("op", quotedChar symbol)]
  | .unsupportedSign sign => [("sign", quotedChar sign)]
  | .invalidRange axis min max =>
    [("axis", quotedChar axis.letter), ("min", Number.marked min), ("max", Number.marked max)]
  | _ => []

def title : Cause → String
  | .emptyExpression => "empty expression"
  | .unexpectedEnd => "unexpected end of input"
  | .expectedEnd => "expected end of input"
  | .unexpectedToken .. => "unexpected token"
  | .unexpectedCharacter found => "unexpected character " ++ ticked found
  | .invalidNumber lexeme => "invalid number " ++ ticked lexeme
  | .unknownFunction name _ => "unknown function " ++ ticked name
  | .missingArgument name => "missing argument for " ++ ticked name
  | .unclosed delimiter _ => "unclosed " ++ delimiter.noun
  | .emptyGroup => "missing expression inside parenthesis"
  | .missingOperand symbol => "missing operand for " ++ ticked (String.singleton symbol)
  | .missingOperator => "missing operator"
  | .unsupportedSign sign =>
    ticked (String.singleton sign) ++ " cannot be used as a sign here"
  | .divisionByZero => "division by zero"
  | .invalidRange axis min max =>
    "invalid " ++ String.singleton axis.letter ++ "-range " ++ ticked (Number.plain min)
      ++ " to " ++ ticked (Number.plain max)

/-- The labels of the regions a cause concerns, one for each. -/
def labels : Cause → List String
  | .emptyExpression => ["add an expression here"]
  | .unexpectedEnd => ["you might need to add another expression here"]
  | .expectedEnd => ["I could not understand the remaining expression here"]
  | .unexpectedToken expected _ => ["expected " ++ expected.describe]
  | .unexpectedCharacter _ => ["this character is not allowed here"]
  | .invalidNumber _ => ["this number"]
  | .unknownFunction .. => ["this function"]
  | .missingArgument _ => ["this function"]
  | .unclosed delimiter _ => ["this " ++ delimiter.noun ++ " is not closed"]
  | .emptyGroup => ["add an expression here"]
  | .missingOperand _ => ["this operator needs an expression on both sides"]
  | .missingOperator => ["this expression", "is not connected to this one"]
  | .unsupportedSign _ => ["this operator has nothing on its left"]
  | .divisionByZero => ["this division", "this expression evaluates to zero"]
  | .invalidRange .. => ["this range"]

def help? : Cause → Option String
  | .unexpectedToken _ found => some ("found " ++ ticked found)
  | .invalidNumber _ =>
    some "numbers may contain at most one decimal point, and at least one digit"
  | .unknownFunction _ [] => some "see the documentation for a list of available functions"
  | .unknownFunction _ suggestions =>
    some ("did you mean: " ++ ", ".intercalate (suggestions.map ticked))
  | .missingArgument name =>
    some ("write the argument in parentheses, such as " ++ ticked (name ++ "(x)"))
  | .unclosed delimiter true =>
    some ("add a closing " ++ delimiter.noun ++ " " ++ ticked (String.singleton delimiter.closer)
      ++ " somewhere after this")
  | .unclosed delimiter false =>
    some ("add an opening " ++ delimiter.noun ++ " " ++ ticked (String.singleton delimiter.opener)
      ++ " somewhere before this")
  | .missingOperator => some "add an operator such as `*` between them"
  | .unsupportedSign _ => some "subtract from zero instead, such as `0 - x`"
  | .divisionByZero => some "the divisor must not be exactly zero"
  | .invalidRange .. => some "the range must satisfy min < max, with both bounds finite"
  | _ => none

end Cause

def Category.word : Category → String
  | .syntactic => "syntax"
  | .arithmetic => "arithmetic"

structure Report where
  title : String
  labels : List String
  help? : Option String

namespace Diagnostic

/-- The report of a diagnostic. A region without a label, or a label without a region, is left
out. -/
def report (d : Diagnostic) : Report :=
  ⟨d.cause.title, d.cause.labels.take d.spans.length, d.cause.help?⟩

def summary (d : Diagnostic) : String :=
  let place :=
    match d.spans with
    | [] => ""
    | span :: _ => " at " ++ toString span.start ++ ".." ++ toString span.stop
  d.category.word ++ " error" ++ place ++ ": " ++ fieldList d.cause.kind d.cause.fields

end Diagnostic

end Calculator
