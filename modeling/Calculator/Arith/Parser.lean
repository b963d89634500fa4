import Calculator.Arith.Expr
import Calculator.Arith.Token
import Calculator.Log
import Calculator.Number.Reader

/-!
Reading arithmetic. Operands and operators are kept on two stacks; an operator that comes in first
settles those before it that bind at least as tightly. There is no sign: a `+` or `-` needs an
operand on its left. The argument of a call is the run of tokens up to its closing parenthesis,
read on its own.
-/

set_option autoImplicit false
set_option relaxedAutoImplicit false

namespace Calculator.Arith

/-- What is waiting for an operand: an operator, or an open parenthesis. -/
inductive Pending where
  | operator (op : Operator) (span : Span)
  | opening (span : Span)
deriving DecidableEq

inductive Awaited where
  | operand | operator
deriving DecidableEq

/-- The state between two tokens: both stacks, topmost first, what may come next, and the token
just read. -/
structure State where
  operands : List Expr
  pending : List Pending
  awaited : Awaited
  previous : Option (Token Kind)

namespace State

def initial : State := ⟨[], [], .operand, none⟩

def push (state : State) (operand : Expr) (token : Token Kind) : State :=
  { state with operands := operand :: state.operands, awaited := .operator, previous := some token }

end State

def combine (op : Operator) (span : Span) : List Expr → Except Diagnostic (List Expr)
  | rhs :: lhs :: operands =>
    .ok (.binary op span lhs rhs (Span.through lhs.span rhs.span) :: operands)
  | _ => .error (.one span (.missingOperand op.symbol))

def bindsBefore (stacked incoming : Operator) : Bool :=
  incoming.precedence < stacked.precedence
    || (stacked.precedence = incoming.precedence && incoming.associativity = .left)

def settleFor (incoming : Operator) :
    List Pending → List Expr → Except Diagnostic (List Pending × List Expr)
  | .operator op span :: pending, operands =>
    if bindsBefore op incoming then do
      let operands ← combine op span operands
      settleFor incoming pending operands
    else .ok (.operator op span :: pending, operands)
  | pending, operands => .ok (pending, operands)

/-- Settle the operators down to the nearest open parenthesis and remove it. The result is `none`
if no parenthesis is open. -/
def settleGroup :
    List Pending → List Expr → Except Diagnostic (Option (List Pending × List Expr))
  | .operator op span :: pending, operands => do
    let operands ← combine op span operands
    settleGroup pending operands
  | .opening _ :: pending, operands => .ok (some (pending, operands))
  | [], _ => .ok none

def settleAll (stop : Span) : List Pending → List Expr → Except Diagnostic Expr
  | .operator op span :: pending, operands => do
    let operands ← combine op span operands
    settleAll stop pending operands
  | .opening span :: _, _ => .error (.one span (.unclosed .parenthesis true))
  | [], operand :: _ => .ok operand
  | [], [] => .error (.one stop .unexpectedEnd)

def missingOperator (state : State) (token : Token Kind) : Diagnostic :=
  match state.operands with
  | [] => .one token.span .missingOperator
  | operand :: _ => .two operand.span token.span .missingOperator

def missingRight (token : Token Kind) : Diagnostic :=
  match token.kind with
  | .operator op => .one token.span (.missingOperand op.symbol)
  | _ => .one token.span (.missingOperand '?')

def missingLeft (op : Operator) (token : Token Kind) : Diagnostic :=
  match op with
  | .add | .sub => .one token.span (.unsupportedSign op.symbol)
  | _ => .one token.span (.missingOperand op.symbol)

def misplacedClosing (state : State) (token : Token Kind) : Diagnostic :=
  match state.previous with
  | none => .one token.span (.unclosed .parenthesis false)
  | some previous =>
    if previous.kind = .opening then .one (Span.through previous.span token.span) .emptyGroup
    else missingRight previous

def nameAlone (token : Token Kind) : Diagnostic :=
  match Builtin.ofName? token.text with
  | none => .one token.span (.unknownFunction token.text (Builtin.similarNames token.text))
  | some _ => .one token.span (.missingArgument token.text)

def State.step (state : State) (token : Token Kind) : Except Diagnostic State :=
  match token.kind, state.awaited with
  | .number, .operand =>
    match Number.read? token.lexeme with
    | some value => .ok (state.push (.literal value token.span) token)
    | none => .error (.one token.span (.invalidNumber token.text))
  | .name, .operand => .error (nameAlone token)
  | .opening, .operand =>
    .ok { state with pending := .opening token.span :: state.pending, previous := some token }
  | .closing, .operand => .error (misplacedClosing state token)
  | .closing, .operator => do
    match ← settleGroup state.pending state.operands with
    | some (pending, operands) => .ok ⟨operands, pending, .operator, some token⟩
    | none => .error (.one token.span (.unclosed .parenthesis false))
  | .operator op, .operand => .error (missingLeft op token)
  | .operator op, .operator => do
    let (pending, operands) ← settleFor op state.pending state.operands
    .ok ⟨operands, .operator op token.span :: pending, .operand, some token⟩
  | .symbol, _ => .error (.one token.span (.unexpectedCharacter token.text))
  | _, .operator => .error (missingOperator state token)

/-- The result after the last token. `stop` is the place to report when there was none. -/
def State.finish (stop : Span) (state : State) : Except Diagnostic Expr :=
  match state.awaited, state.previous with
  | .operator, _ => settleAll stop state.pending state.operands
  | .operand, some previous =>
    if previous.kind = .opening then .error (.one previous.span (.unclosed .parenthesis true))
    else .error (missingRight previous)
  | .operand, none => .error (.one stop .unexpectedEnd)

/-- Split tokens at the parenthesis that closes a group, given how many groups are open inside
it: the tokens before it, the parenthesis, and the tokens after it. -/
def splitClosing : Nat → List (Token Kind) →
    Option (List (Token Kind) × Token Kind × List (Token Kind))
  | _, [] => none
  | depth, token :: rest =>
    let deeper (inside : Nat) :=
      (splitClosing inside rest).map fun (inner, close, after) => (token :: inner, close, after)
    match token.kind, depth with
    | .opening, _ => deeper (depth + 1)
    | .closing, 0 => some ([], token, rest)
    | .closing, outer + 1 => deeper outer
    | _, _ => deeper depth

theorem length_of_splitClosing {depth : Nat} {tokens inner after : List (Token Kind)}
    {close : Token Kind} (h : splitClosing depth tokens = some (inner, close, after)) :
    inner.length + 1 + after.length = tokens.length := by
  induction tokens generalizing depth inner with
  | nil => simp [splitClosing] at h
  | cons token rest ih =>
    have deeper : ∀ inside : Nat,
        (splitClosing inside rest).map
          (fun (inner, close, after) => (token :: inner, close, after))
            = some (inner, close, after) →
        inner.length + 1 + after.length = (token :: rest).length := by
      intro inside h
      obtain ⟨⟨i, c, a⟩, hs, he⟩ := Option.map_eq_some_iff.mp h
      simp only [Prod.mk.injEq] at he
      obtain ⟨rfl, rfl, rfl⟩ := he
      have := ih hs
      simp only [List.length_cons]
      omega
    unfold splitClosing at h
    split at h
    · exact deeper _ h
    · simp only [Option.some.injEq, Prod.mk.injEq] at h
      obtain ⟨rfl, rfl, rfl⟩ := h
      simp only [List.length_nil, List.length_cons]
      omega
    · exact deeper _ h
    · exact deeper _ h

/-- The function, the opening parenthesis and the tokens after it, where a call comes next. -/
def callHead? (state : State) :
    List (Token Kind) → Option (Builtin × Token Kind × List (Token Kind))
  | name :: opening :: rest =>
    if state.awaited = .operand && name.kind = .name && opening.kind = .opening then
      (Builtin.ofName? name.text).map fun f => (f, opening, rest)
    else none
  | _ => none

theorem length_of_callHead? {state : State} {tokens inside : List (Token Kind)} {f : Builtin}
    {opening : Token Kind} (h : callHead? state tokens = some (f, opening, inside)) :
    inside.length + 2 = tokens.length := by
  unfold callHead? at h
  split at h
  · split at h
    · obtain ⟨g, _, he⟩ := Option.map_eq_some_iff.mp h
      simp only [Prod.mk.injEq] at he
      obtain ⟨_, _, rfl⟩ := he
      rfl
    · simp at h
  · simp at h

/-- Read tokens from a state on. `stop` is the place to report when they end too early. -/
def parseFrom (stop : Span) (state : State) (tokens : List (Token Kind)) :
    Except Diagnostic Expr :=
  match tokens with
  | [] => state.finish stop
  | token :: rest =>
    match hc : callHead? state (token :: rest) with
    | some (f, opening, inside) =>
      match hs : splitClosing 0 inside with
      | none => .error (.one opening.span (.unclosed .parenthesis true))
      | some (inner, closing, after) =>
        have := length_of_callHead? hc
        have := length_of_splitClosing hs
        if inner.isEmpty then .error (.one (Span.through opening.span closing.span) .emptyGroup)
        else do
          let arg ← parseFrom (Span.point closing.span.start) State.initial inner
          let call := Expr.call f arg (Span.through token.span closing.span)
          parseFrom stop (state.push call closing) after
    | none => do
      let state ← state.step token
      parseFrom stop state rest
termination_by tokens.length
decreasing_by all_goals simp_all only [List.length_cons]; omega

def ofTokens (stop : Span) (tokens : List (Token Kind)) : Except Diagnostic Expr :=
  parseFrom stop State.initial tokens

def ofSource (source : Source) : Except Diagnostic Expr :=
  if source.isEmpty then .error (.one source.endSpan .emptyExpression)
  else ofTokens source.endSpan (lexicon.scan source)

def parse (input : String) : Except Diagnostic Expr := ofSource (Source.strip input)

def log (input : String) : List Log.Entry :=
  let source := Source.strip input
  if source.isEmpty then []
  else [⟨.debug, "parsing calculator expression `" ++ source.text ++ "`"⟩]

end Calculator.Arith
