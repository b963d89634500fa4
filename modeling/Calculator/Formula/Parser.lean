import Calculator.Formula.Basic
import Calculator.Formula.Token
import Calculator.Number.Reader

/-!
Reading formulas in `x`:

    Expression := Term (('+' | '-') Term)*
    Term       := Unary (('*' | '/') Unary | Power)*
    Unary      := ('+' | '-') Unary | Power
    Power      := Primary ('^' Unary)?
    Primary    := Function '(' Expression ')' | '(' Expression ')' | '{' Expression '}'
                | Number | 'x' | 'e'

Every function here reads one of these from the front of the tokens, or one of the repetitions,
given the formula before it. The trace holds the powers that were read, base and exponent, in the
order in which they were complete.
-/

set_option autoImplicit false
set_option relaxedAutoImplicit false

namespace Calculator.Formula

abbrev Parse := Traced (Formula × Formula) Diagnostic

def refuse {α : Type} (span : Span) (cause : Cause) : Parse α := .fail (.one span cause)

def raise (base exponent : Formula) : Parse Formula := do
  .emit (base, exponent)
  return .binary .pow base exponent

def atom (token : Token Kind) : Except Diagnostic Formula :=
  match token.kind with
  | .number =>
    match Number.read? token.lexeme with
    | some value => .ok (.number value)
    | none => .error (.one token.span (.invalidNumber token.text))
  | .variable => .ok .variable
  | .euler => .ok (.number euler)
  | .symbol => .error (.one token.span (.unexpectedCharacter token.text))
  | _ => .error (.one token.span (.unexpectedToken .functionFactor token.text))

def notClosed (delimiter : Delimiter) (opening : Token Kind) : List (Token Kind) → Diagnostic
  | [] => .one opening.span (.unclosed delimiter true)
  | token :: _ => .one token.span (.unexpectedToken (.closing delimiter) token.text)

def trailing (stop : Nat) (token : Token Kind) : Diagnostic :=
  match token.kind with
  | .closing delimiter => .one token.span (.unclosed delimiter false)
  | .symbol => .one token.span (.unexpectedCharacter token.text)
  | _ => .one ⟨token.span.start, stop⟩ .expectedEnd

mutual

/-- A sum of terms. `stop` is the end of the input. -/
def expression (stop : Nat) (tokens : List (Token Kind)) :
    Parse (Reading Kind Formula tokens.length) := do
  let first ← term stop tokens
  have := first.within
  let sum ← expressionTail stop first.value first.rest
  return first.resume sum
termination_by (tokens.length, 6)

def expressionTail (stop : Nat) (sum : Formula) (tokens : List (Token Kind)) :
    Parse (Reading Kind Formula (tokens.length + 1)) :=
  match tokens with
  | [] => return .stay sum []
  | token :: rest =>
    match token.kind with
    | .operator .add => do
      let next ← term stop rest
      have := next.within
      let all ← expressionTail stop (.binary .add sum next.value) next.rest
      return (next.resume all).skip.skip
    | .operator .sub => do
      let next ← term stop rest
      have := next.within
      let all ← expressionTail stop (.binary .sub sum next.value) next.rest
      return (next.resume all).skip.skip
    | _ => return .stay sum (token :: rest)
termination_by (tokens.length, 5)

def term (stop : Nat) (tokens : List (Token Kind)) :
    Parse (Reading Kind Formula tokens.length) := do
  let first ← unary stop tokens
  have := first.within
  let product ← termTail stop first.value first.rest
  return first.resume product
termination_by (tokens.length, 5)

/-- The rest of a product. A factor without an operator before it is a power, as a sign there
would be an operator. -/
def termTail (stop : Nat) (product : Formula) (tokens : List (Token Kind)) :
    Parse (Reading Kind Formula (tokens.length + 1)) :=
  match tokens with
  | [] => return .stay product []
  | token :: rest =>
    match token.kind with
    | .operator .mul => do
      let next ← unary stop rest
      have := next.within
      let all ← termTail stop (.binary .mul product next.value) next.rest
      return (next.resume all).skip.skip
    | .operator .div => do
      let next ← unary stop rest
      have := next.within
      let all ← termTail stop (.binary .div product next.value) next.rest
      return (next.resume all).skip.skip
    | kind =>
      if kind.startsFactor then do
        let next ← power stop (token :: rest)
        have := next.within
        let all ← termTail stop (.binary .mul product next.value) next.rest
        return (next.resume all).skip
      else return .stay product (token :: rest)
termination_by (tokens.length, 4)

/-- A power, or a sign before one. A minus applies to the whole power. -/
def unary (stop : Nat) (tokens : List (Token Kind)) :
    Parse (Reading Kind Formula tokens.length) :=
  match tokens with
  | [] => power stop []
  | token :: rest =>
    match token.kind with
    | .operator .sub => do
      let operand ← unary stop rest
      return (operand.map .neg).skip
    | .operator .add => do
      let operand ← unary stop rest
      return operand.skip
    | _ => power stop (token :: rest)
termination_by (tokens.length, 4)

/-- A primary, raised to a power if one follows. The exponent may have a sign and a power of its
own. -/
def power (stop : Nat) (tokens : List (Token Kind)) :
    Parse (Reading Kind Formula tokens.length) := do
  let base ← primary stop tokens
  have := base.within
  match h : base.rest with
  | [] => return base
  | token :: _ =>
    if token.kind = .operator .pow then do
      let before := base.take base.value h
      have := before.within
      let exponent ← unary stop before.rest
      let raised ← raise base.value exponent.value
      return before.resume (exponent.map fun _ => raised).skip
    else return base
termination_by (tokens.length, 3)

def primary (stop : Nat) (tokens : List (Token Kind)) :
    Parse (Reading Kind Formula tokens.length) :=
  match tokens with
  | [] => refuse (Span.point stop) .unexpectedEnd
  | token :: rest =>
    match token.kind with
    | .function f => do
      let arg ← argument stop token rest
      return (arg.map (.call f)).skip
    | .opening delimiter => do
      let inner ← group stop delimiter token rest
      return inner.skip
    | _ =>
      match atom token with
      | .ok formula => return (Reading.stay formula rest)
      | .error diagnostic => .fail diagnostic
termination_by (tokens.length, 2)

def argument (stop : Nat) (name : Token Kind) (tokens : List (Token Kind)) :
    Parse (Reading Kind Formula tokens.length) :=
  match tokens with
  | [] => refuse name.span (.missingArgument name.text)
  | opening :: rest =>
    if opening.kind = .opening .parenthesis then do
      let inner ← group stop .parenthesis opening rest
      return inner.skip
    else refuse name.span (.missingArgument name.text)
termination_by (tokens.length, 1)

def group (stop : Nat) (delimiter : Delimiter) (opening : Token Kind)
    (tokens : List (Token Kind)) : Parse (Reading Kind Formula tokens.length) :=
  match tokens with
  | [] => refuse (Span.point stop) .unexpectedEnd
  | first :: rest =>
    if first.kind = .closing delimiter then
      refuse (Span.through opening.span first.span) .emptyGroup
    else do
      let inner ← expression stop (first :: rest)
      match h : inner.rest with
      | [] => .fail (notClosed delimiter opening [])
      | closing :: after =>
        if closing.kind = .closing delimiter then
          return inner.take inner.value h
        else .fail (notClosed delimiter opening (closing :: after))
termination_by (tokens.length, 7)

end

def ofTokens (stop : Nat) (tokens : List (Token Kind)) : Parse Formula := do
  let reading ← expression stop tokens
  match reading.rest with
  | [] => return reading.value
  | token :: _ => .fail (trailing stop token)

def ofSource (source : Source) : Parse Formula :=
  if source.isEmpty then refuse source.endSpan .emptyExpression
  else ofTokens source.stop (lexicon.scan source)

def sourceOf (input : String) : Source := (Source.strip input).withProducts

def parse (input : String) : Except Diagnostic Formula := (ofSource (sourceOf input)).outcome

end Calculator.Formula

namespace Calculator.RealFunction

def parse (maxPower : Nat) (input : String) : Except Diagnostic (RealFunction Float) :=
  (Formula.parse input).map (Formula.compile maxPower)

def log (maxPower : Nat) (input : String) : List Log.Entry :=
  let source := Formula.sourceOf input
  if source.isEmpty then []
  else
    let read := Formula.ofSource source
    let result :=
      match read.outcome with
      | .ok formula => [Formula.resultLog (formula.compile maxPower)]
      | .error _ => []
    ⟨.debug, "compiling function `" ++ source.text ++ "`"⟩ ::
      (read.trace.flatMap (Formula.powerLog maxPower) ++ result)

end Calculator.RealFunction
