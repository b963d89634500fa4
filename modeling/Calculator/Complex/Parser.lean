import Calculator.Complex.Literal
import Calculator.Diagnostic
import Calculator.Log

/-!
Complex arithmetic, evaluated while it is read:

    Expression := Term (('+' | '-') Term)*
    Term       := Factor (('*' | '/') Factor)*
    Factor     := ('conj' | 'abs')? '(' Expression ')' | Literal

Every function here reads one of these from the front of the tokens, or one of the repetitions,
given the value of what stands before it. A division fails as soon as its divisor is read.
-/

set_option autoImplicit false
set_option relaxedAutoImplicit false

namespace Calculator.Complex

def notAFactor (token : Token Kind) : Diagnostic :=
  match token.kind with
  | .number => .one token.span (.invalidNumber token.text)
  | .symbol => .one token.span (.unexpectedCharacter token.text)
  | _ => .one token.span (.unexpectedToken .complexFactor token.text)

def notClosed (opening : Token Kind) : List (Token Kind) → Diagnostic
  | [] => .one opening.span (.unclosed .parenthesis true)
  | token :: _ => .one token.span (.unexpectedToken (.closing .parenthesis) token.text)

def trailing (stop : Nat) (token : Token Kind) : Diagnostic :=
  match token.kind with
  | .closing => .one token.span (.unclosed .parenthesis false)
  | .symbol => .one token.span (.unexpectedCharacter token.text)
  | _ => .one ⟨token.span.start, stop⟩ .expectedEnd

/-- Divide, given the spans of the operator and of the divisor. -/
def divide (operator divisor : Span) (z w : Complex) : Except Diagnostic Complex :=
  match z.div? w with
  | some quotient => .ok quotient
  | none => .error (.two operator divisor .divisionByZero)

mutual

/-- A sum of terms. `stop` is the end of the input. -/
def expression (stop : Nat) (tokens : List (Token Kind)) :
    Except Diagnostic (Reading Kind Ended tokens.length) := do
  let first ← term stop tokens
  have := first.within
  let sum ← expressionTail stop first.value first.rest
  return first.resume sum
termination_by (tokens.length, 4)

def expressionTail (stop : Nat) (sum : Ended) (tokens : List (Token Kind)) :
    Except Diagnostic (Reading Kind Ended (tokens.length + 1)) :=
  match tokens with
  | [] => return .stay sum []
  | token :: rest =>
    match token.kind with
    | .operator .add => do
      let next ← term stop rest
      have := next.within
      let all ← expressionTail stop ⟨sum.value + next.value.value, next.value.stop⟩ next.rest
      return (next.resume all).skip.skip
    | .operator .sub => do
      let next ← term stop rest
      have := next.within
      let all ← expressionTail stop ⟨sum.value - next.value.value, next.value.stop⟩ next.rest
      return (next.resume all).skip.skip
    | _ => return .stay sum (token :: rest)
termination_by (tokens.length, 3)

def term (stop : Nat) (tokens : List (Token Kind)) :
    Except Diagnostic (Reading Kind Ended tokens.length) := do
  let first ← factor stop tokens
  have := first.within
  let product ← termTail stop first.value first.rest
  return first.resume product
termination_by (tokens.length, 3)

def termTail (stop : Nat) (product : Ended) (tokens : List (Token Kind)) :
    Except Diagnostic (Reading Kind Ended (tokens.length + 1)) :=
  match tokens with
  | [] => return .stay product []
  | token :: rest =>
    match token.kind with
    | .operator .mul => do
      let next ← factor stop rest
      have := next.within
      let all ← termTail stop ⟨product.value * next.value.value, next.value.stop⟩ next.rest
      return (next.resume all).skip.skip
    | .operator .div => do
      let next ← factor stop rest
      have := next.within
      let divisor := Span.mk (frontSpan stop rest).start next.value.stop
      let quotient ← divide token.span divisor product.value next.value.value
      let all ← termTail stop ⟨quotient, next.value.stop⟩ next.rest
      return (next.resume all).skip.skip
    | _ => return .stay product (token :: rest)
termination_by (tokens.length, 2)

def factor (stop : Nat) (tokens : List (Token Kind)) :
    Except Diagnostic (Reading Kind Ended tokens.length) :=
  match tokens with
  | [] => throw (.one (Span.point stop) .unexpectedEnd)
  | token :: rest =>
    match token.kind with
    | .conj => do
      let arg ← argument stop token rest
      return (arg.map fun z => ⟨z.value.conj, z.stop⟩).skip
    | .abs => do
      let arg ← argument stop token rest
      return (arg.map fun z => ⟨real z.value.abs, z.stop⟩).skip
    | .opening => do
      let inner ← group stop token rest
      return inner.skip
    | _ =>
      match literal (token :: rest) with
      | some reading => return reading
      | none => throw (notAFactor token)
termination_by (tokens.length, 2)

def argument (stop : Nat) (name : Token Kind) (tokens : List (Token Kind)) :
    Except Diagnostic (Reading Kind Ended tokens.length) :=
  match tokens with
  | [] => throw (.one name.span (.missingArgument name.text))
  | opening :: rest =>
    if opening.kind = .opening then do
      let inner ← group stop opening rest
      return inner.skip
    else throw (.one name.span (.missingArgument name.text))
termination_by (tokens.length, 1)

def group (stop : Nat) (opening : Token Kind) (tokens : List (Token Kind)) :
    Except Diagnostic (Reading Kind Ended tokens.length) :=
  match tokens with
  | [] => throw (.one (Span.point stop) .unexpectedEnd)
  | first :: rest =>
    if first.kind = .closing then throw (.one (Span.through opening.span first.span) .emptyGroup)
    else do
      let inner ← expression stop (first :: rest)
      match h : inner.rest with
      | [] => throw (notClosed opening [])
      | closing :: after =>
        if closing.kind = .closing then
          return inner.take ⟨inner.value.value, closing.span.stop⟩ h
        else throw (notClosed opening (closing :: after))
termination_by (tokens.length, 5)

end

def ofTokens (stop : Nat) (tokens : List (Token Kind)) : Except Diagnostic Complex := do
  let reading ← expression stop tokens
  match reading.rest with
  | [] => return reading.value.value
  | token :: _ => throw (trailing stop token)

def ofSource (source : Source) : Except Diagnostic Complex :=
  if source.isEmpty then .error (.one source.endSpan .emptyExpression)
  else ofTokens source.stop (lexicon.scan source)

def parse (input : String) : Except Diagnostic Complex := ofSource (Source.strip input)

def log (input : String) : List Log.Entry :=
  let source := Source.strip input
  if source.isEmpty then []
  else
    ⟨.debug, "parsing complex expression `" ++ source.text ++ "`"⟩ ::
      match ofSource source with
      | .ok z => [⟨.trace, "complex expression evaluated to " ++ z.render⟩]
      | .error _ => []

end Calculator.Complex
