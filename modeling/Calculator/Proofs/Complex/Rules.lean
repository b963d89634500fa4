import Calculator.Complex.Parser
import Calculator.Proofs.Outcome

/-!
Complex arithmetic with the rule for a literal as a parameter. The readers here are those of the
grammar, and only the rule is left open: with the program's own rule they are the program's
readers. What a reader finds does not depend on the bound on what it leaves, so each of them comes
with an equation between what it finds and what the readers it calls find.
-/

set_option autoImplicit false
set_option relaxedAutoImplicit false

namespace Calculator.Complex

abbrev Found := Except Diagnostic (Ended × List (Token Kind))

def found {bound : Nat} (reader : Except Diagnostic (Reading Kind Ended bound)) : Found :=
  reader.map fun reading => (reading.value, reading.rest)

section Found

variable {bound outer : Nat} {z : Ended} {rest : List (Token Kind)}

theorem length_lt_of_found {reader : Except Diagnostic (Reading Kind Ended bound)}
    (h : found reader = .ok (z, rest)) : rest.length < bound := by
  cases reader with
  | error d => cases h
  | ok reading =>
    cases h
    exact reading.within

theorem found_bind (reader : Except Diagnostic (Reading Kind Ended bound))
    (next : Reading Kind Ended bound → Except Diagnostic (Reading Kind Ended outer))
    (after : Ended × List (Token Kind) → Found)
    (h : ∀ reading, found (next reading) = after (reading.value, reading.rest)) :
    found (reader >>= next) = found reader >>= after := by
  cases reader with
  | error d => rfl
  | ok reading => exact h reading

theorem found_map (reader : Except Diagnostic (Reading Kind Ended bound))
    (next : Reading Kind Ended bound → Reading Kind Ended outer) (g : Ended → Ended)
    (h : ∀ reading, ((next reading).value, (next reading).rest) = (g reading.value, reading.rest)) :
    found (reader >>= fun reading => pure (next reading)) =
      found reader >>= fun read => .ok (g read.1, read.2) := by
  cases reader with
  | error d => rfl
  | ok reading => exact congrArg Except.ok (h reading)

theorem found_relay (reader : Except Diagnostic (Reading Kind Ended bound))
    (next : Reading Kind Ended bound → Reading Kind Ended outer)
    (h : ∀ reading, ((next reading).value, (next reading).rest) = (reading.value, reading.rest)) :
    found (reader >>= fun reading => pure (next reading)) = found reader := by
  cases reader with
  | error d => rfl
  | ok reading => exact congrArg Except.ok (h reading)

end Found

def divisorSpan (stop : Nat) (tokens : List (Token Kind)) (divisor : Ended) : Span :=
  ⟨(frontSpan stop tokens).start, divisor.stop⟩

def closingAfter (opening : Token Kind) (inner : Ended) : List (Token Kind) → Found
  | [] => .error (notClosed opening [])
  | token :: rest =>
    if token.kind = .closing then .ok (⟨inner.value, token.span.stop⟩, rest)
    else .error (notClosed opening (token :: rest))

def firstOf : List Rule → Rule
  | [], _ => none
  | rule :: rules, tokens => (rule tokens).or (firstOf rules tokens)

theorem firstOf_eq_literal : firstOf [imaginaryRule, realRule, twoPartRule] = literal := by
  funext tokens
  simp only [firstOf, Option.or_none, literal]

namespace Rule

variable (rule : Rule)

mutual

def expression (stop : Nat) (tokens : List (Token Kind)) :
    Except Diagnostic (Reading Kind Ended tokens.length) := do
  let first ← term stop tokens
  have := first.within
  let sum ← expressionTail stop first.value first.rest
  return first.resume sum
termination_by (tokens.length, 4)

def expressionTail (stop : Nat) (sum : Ended) (tokens : List (Token Kind)) :
    Except Diagnostic (Reading Kind Ended (tokens.length + 1)) :=
  match tokens with
  | [] => return .stay sum []
  | token :: rest =>
    match token.kind with
    | .operator .add => do
      let next ← term stop rest
      have := next.within
      let all ← expressionTail stop ⟨sum.value + next.value.value, next.value.stop⟩ next.rest
      return (next.resume all).skip.skip
    | .operator .sub => do
      let next ← term stop rest
      have := next.within
      let all ← expressionTail stop ⟨sum.value - next.value.value, next.value.stop⟩ next.rest
      return (next.resume all).skip.skip
    | _ => return .stay sum (token :: rest)
termination_by (tokens.length, 3)

def term (stop : Nat) (tokens : List (Token Kind)) :
    Except Diagnostic (Reading Kind Ended tokens.length) := do
  let first ← factor stop tokens
  have := first.within
  let product ← termTail stop first.value first.rest
  return first.resume product
termination_by (tokens.length, 3)

def termTail (stop : Nat) (product : Ended) (tokens : List (Token Kind)) :
    Except Diagnostic (Reading Kind Ended (tokens.length + 1)) :=
  match tokens with
  | [] => return .stay product []
  | token :: rest =>
    match token.kind with
    | .operator .mul => do
      let next ← factor stop rest
      have := next.within
      let all ← termTail stop ⟨product.value * next.value.value, next.value.stop⟩ next.rest
      return (next.resume all).skip.skip
    | .operator .div => do
      let next ← factor stop rest
      have := next.within
      let divisor := divisorSpan stop rest next.value
      let quotient ← divide token.span divisor product.value next.value.value
      let all ← termTail stop ⟨quotient, next.value.stop⟩ next.rest
      return (next.resume all).skip.skip
    | _ => return .stay product (token :: rest)
termination_by (tokens.length, 2)

def factor (stop : Nat) (tokens : List (Token Kind)) :
    Except Diagnostic (Reading Kind Ended tokens.length) :=
  match tokens with
  | [] => throw (.one (Span.point stop) .unexpectedEnd)
  | token :: rest =>
    match token.kind with
    | .conj => do
      let arg ← argument stop token rest
      return (arg.map fun z => ⟨z.value.conj, z.stop⟩).skip
    | .abs => do
      let arg ← argument stop token rest
      return (arg.map fun z => ⟨real z.value.abs, z.stop⟩).skip
    | .opening => do
      let inner ← group stop token rest
      return inner.skip
    | _ =>
      match rule (token :: rest) with
      | some reading => return reading
      | none => throw (notAFactor token)
termination_by (tokens.length, 2)

def argument (stop : Nat) (name : Token Kind) (tokens : List (Token Kind)) :
    Except Diagnostic (Reading Kind Ended tokens.length) :=
  match tokens with
  | [] => throw (.one name.span (.missingArgument name.text))
  | opening :: rest =>
    if opening.kind = .opening then do
      let inner ← group stop opening rest
      return inner.skip
    else throw (.one name.span (.missingArgument name.text))
termination_by (tokens.length, 1)

def group (stop : Nat) (opening : Token Kind) (tokens : List (Token Kind)) :
    Except Diagnostic (Reading Kind Ended tokens.length) :=
  match tokens with
  | [] => throw (.one (Span.point stop) .unexpectedEnd)
  | first :: rest =>
    if first.kind = .closing then throw (.one (Span.through opening.span first.span) .emptyGroup)
    else do
      let inner ← expression stop (first :: rest)
      match h : inner.rest with
      | [] => throw (notClosed opening [])
      | closing :: after =>
        if closing.kind = .closing then
          return inner.take ⟨inner.value.value, closing.span.stop⟩ h
        else throw (notClosed opening (closing :: after))
termination_by (tokens.length, 5)

end

def ofTokens (stop : Nat) (tokens : List (Token Kind)) : Except Diagnostic Complex := do
  let reading ← rule.expression stop tokens
  match reading.rest with
  | [] => return reading.value.value
  | token :: _ => throw (trailing stop token)

def parse (input : String) : Except Diagnostic Complex :=
  let source := Source.strip input
  if source.isEmpty then .error (.one source.endSpan .emptyExpression)
  else rule.ofTokens source.stop (lexicon.scan source)

section Equations

variable {stop : Nat} {sum product : Ended} {name token opening : Token Kind}
  {tokens rest : List (Token Kind)}

theorem found_expression : found (rule.expression stop tokens) =
    found (rule.term stop tokens) >>= fun read =>
      found (rule.expressionTail stop read.1 read.2) := by
  rw [expression]
  refine found_bind _ _ _ fun first => ?_
  exact found_relay _ _ fun _ => rfl

theorem found_expressionTail_nil : found (rule.expressionTail stop sum []) = .ok (sum, []) := by
  rw [expressionTail]
  rfl

theorem found_expressionTail_add (kind : token.kind = .operator .add) :
    found (rule.expressionTail stop sum (token :: rest)) =
      found (rule.term stop rest) >>= fun read =>
        found (rule.expressionTail stop ⟨sum.value + read.1.value, read.1.stop⟩ read.2) := by
  rw [expressionTail]
  simp only [kind]
  refine found_bind _ _ _ fun next => ?_
  exact found_relay _ _ fun _ => rfl

theorem found_expressionTail_sub (kind : token.kind = .operator .sub) :
    found (rule.expressionTail stop sum (token :: rest)) =
      found (rule.term stop rest) >>= fun read =>
        found (rule.expressionTail stop ⟨sum.value - read.1.value, read.1.stop⟩ read.2) := by
  rw [expressionTail]
  simp only [kind]
  refine found_bind _ _ _ fun next => ?_
  exact found_relay _ _ fun _ => rfl

theorem found_expressionTail_stay (add : token.kind ≠ .operator .add)
    (sub : token.kind ≠ .operator .sub) :
    found (rule.expressionTail stop sum (token :: rest)) = .ok (sum, token :: rest) := by
  rw [expressionTail]
  split
  · contradiction
  · contradiction
  · rfl

theorem found_term : found (rule.term stop tokens) =
    found (rule.factor stop tokens) >>= fun read => found (rule.termTail stop read.1 read.2) := by
  rw [term]
  refine found_bind _ _ _ fun first => ?_
  exact found_relay _ _ fun _ => rfl

theorem found_termTail_nil : found (rule.termTail stop product []) = .ok (product, []) := by
  rw [termTail]
  rfl

theorem found_termTail_mul (kind : token.kind = .operator .mul) :
    found (rule.termTail stop product (token :: rest)) =
      found (rule.factor stop rest) >>= fun read =>
        found (rule.termTail stop ⟨product.value * read.1.value, read.1.stop⟩ read.2) := by
  rw [termTail]
  simp only [kind]
  refine found_bind _ _ _ fun next => ?_
  exact found_relay _ _ fun _ => rfl

theorem found_termTail_div (kind : token.kind = .operator .div) :
    found (rule.termTail stop product (token :: rest)) =
      found (rule.factor stop rest) >>= fun read =>
        divide token.span (divisorSpan stop rest read.1) product.value read.1.value >>= fun z =>
          found (rule.termTail stop ⟨z, read.1.stop⟩ read.2) := by
  rw [termTail]
  simp only [kind]
  refine found_bind _ _ _ fun next => ?_
  cases divide token.span (divisorSpan stop rest next.value) product.value next.value.value with
  | error d => rfl
  | ok z => exact found_relay _ _ fun _ => rfl

theorem found_termTail_stay (mul : token.kind ≠ .operator .mul)
    (div : token.kind ≠ .operator .div) :
    found (rule.termTail stop product (token :: rest)) = .ok (product, token :: rest) := by
  rw [termTail]
  split
  · contradiction
  · contradiction
  · rfl

theorem found_factor_nil :
    found (rule.factor stop []) = .error (.one (Span.point stop) .unexpectedEnd) := by
  rw [factor]
  rfl

theorem found_factor_conj (kind : token.kind = .conj) :
    found (rule.factor stop (token :: rest)) =
      found (rule.argument stop token rest) >>= fun read =>
        .ok (⟨read.1.value.conj, read.1.stop⟩, read.2) := by
  rw [factor]
  simp only [kind]
  exact found_map _ _ (fun z => ⟨z.value.conj, z.stop⟩) fun _ => rfl

theorem found_factor_abs (kind : token.kind = .abs) :
    found (rule.factor stop (token :: rest)) =
      found (rule.argument stop token rest) >>= fun read =>
        .ok (⟨real read.1.value.abs, read.1.stop⟩, read.2) := by
  rw [factor]
  simp only [kind]
  exact found_map _ _ (fun z => ⟨real z.value.abs, z.stop⟩) fun _ => rfl

theorem found_factor_opening (kind : token.kind = .opening) :
    found (rule.factor stop (token :: rest)) = found (rule.group stop token rest) := by
  rw [factor]
  simp only [kind]
  exact found_relay _ _ fun _ => rfl

/-- What a rule makes of tokens, without the bound on what it leaves. -/
def taken (tokens : List (Token Kind)) : Option (Ended × List (Token Kind)) :=
  (rule tokens).map fun reading => (reading.value, reading.rest)

theorem found_factor_literal (conj : token.kind ≠ .conj) (abs : token.kind ≠ .abs)
    (opening : token.kind ≠ .opening) :
    found (rule.factor stop (token :: rest)) =
      match rule.taken (token :: rest) with
      | some read => .ok read
      | none => .error (notAFactor token) := by
  rw [factor]
  split
  · contradiction
  · contradiction
  · contradiction
  · rw [taken]
    cases rule (token :: rest) <;> rfl

theorem found_argument_open (kind : opening.kind = .opening) :
    found (rule.argument stop name (opening :: rest)) = found (rule.group stop opening rest) := by
  rw [argument, if_pos kind]
  exact found_relay _ _ fun _ => rfl

theorem found_argument_missing (h : ∀ opening ∈ tokens.head?, opening.kind ≠ .opening) :
    found (rule.argument stop name tokens) =
      .error (.one name.span (.missingArgument name.text)) := by
  rw [argument.eq_def]
  cases tokens with
  | nil => rfl
  | cons opening rest =>
    simp only [if_neg (h opening rfl)]
    rfl

theorem found_group_nil : found (rule.group stop opening []) =
    .error (.one (Span.point stop) .unexpectedEnd) := by
  rw [group]
  rfl

theorem found_group_empty (kind : token.kind = .closing) :
    found (rule.group stop opening (token :: rest)) =
      .error (.one (Span.through opening.span token.span) .emptyGroup) := by
  rw [group, if_pos kind]
  rfl

theorem found_group (kind : token.kind ≠ .closing) :
    found (rule.group stop opening (token :: rest)) =
      found (rule.expression stop (token :: rest)) >>= fun read =>
        closingAfter opening read.1 read.2 := by
  rw [group, if_neg kind]
  refine found_bind _ _ _ fun inner => ?_
  obtain ⟨inner, rest, within⟩ := inner
  cases rest with
  | nil => rfl
  | cons closing after =>
    simp only [closingAfter]
    split <;> rfl

theorem ofTokens_eq : rule.ofTokens stop tokens =
    found (rule.expression stop tokens) >>= fun read =>
      match read.2 with
      | [] => .ok read.1.value
      | token :: _ => .error (trailing stop token) := by
  rw [ofTokens, found]
  cases rule.expression stop tokens with
  | error d => rfl
  | ok reading =>
    obtain ⟨value, rest, within⟩ := reading
    cases rest <;> rfl

end Equations

/-! With its own rule the readers are those of the program. -/

mutual

theorem expression_literal (stop : Nat) (tokens : List (Token Kind)) :
    Rule.expression literal stop tokens = Complex.expression stop tokens := by
  rw [Rule.expression, Complex.expression, term_literal]
  refine bind_congr fun first => ?_
  have := first.within
  rw [expressionTail_literal]
termination_by (tokens.length, 4)

theorem expressionTail_literal (stop : Nat) (sum : Ended) (tokens : List (Token Kind)) :
    Rule.expressionTail literal stop sum tokens = Complex.expressionTail stop sum tokens := by
  rw [Rule.expressionTail.eq_def, Complex.expressionTail.eq_def]
  cases tokens with
  | nil => rfl
  | cons token rest =>
    simp only
    rewrite [term_literal]
    obtain ⟨kind, lexeme, span⟩ := token
    cases kind with
    | operator op =>
      cases op with
      | add | sub =>
        refine bind_congr fun next => ?_
        have := next.within
        rw [expressionTail_literal]
      | mul | div | pow => rfl
    | number | unit | conj | abs | opening | closing | symbol => rfl
termination_by (tokens.length, 3)

theorem term_literal (stop : Nat) (tokens : List (Token Kind)) :
    Rule.term literal stop tokens = Complex.term stop tokens := by
  rw [Rule.term, Complex.term, factor_literal]
  refine bind_congr fun first => ?_
  have := first.within
  rw [termTail_literal]
termination_by (tokens.length, 3)

theorem termTail_literal (stop : Nat) (product : Ended) (tokens : List (Token Kind)) :
    Rule.termTail literal stop product tokens = Complex.termTail stop product tokens := by
  rw [Rule.termTail.eq_def, Complex.termTail.eq_def]
  cases tokens with
  | nil => rfl
  | cons token rest =>
    simp only
    rewrite [factor_literal]
    obtain ⟨kind, lexeme, span⟩ := token
    cases kind with
    | operator op =>
      cases op with
      | mul =>
        refine bind_congr fun next => ?_
        have := next.within
        rw [termTail_literal]
      | div =>
        refine bind_congr fun next => bind_congr fun quotient => ?_
        have := next.within
        rw [termTail_literal]
      | add | sub | pow => rfl
    | number | unit | conj | abs | opening | closing | symbol => rfl
termination_by (tokens.length, 2)

theorem factor_literal (stop : Nat) (tokens : List (Token Kind)) :
    Rule.factor literal stop tokens = Complex.factor stop tokens := by
  rw [Rule.factor.eq_def, Complex.factor.eq_def]
  cases tokens with
  | nil => rfl
  | cons token rest =>
    simp only
    rewrite [argument_literal, group_literal]
    rfl
termination_by (tokens.length, 2)

theorem argument_literal (stop : Nat) (name : Token Kind) (tokens : List (Token Kind)) :
    Rule.argument literal stop name tokens = Complex.argument stop name tokens := by
  rw [Rule.argument.eq_def, Complex.argument.eq_def]
  cases tokens with
  | nil => rfl
  | cons opening rest =>
    simp only
    rw [group_literal]
termination_by (tokens.length, 1)

theorem group_literal (stop : Nat) (opening : Token Kind) (tokens : List (Token Kind)) :
    Rule.group literal stop opening tokens = Complex.group stop opening tokens := by
  rw [Rule.group.eq_def, Complex.group.eq_def]
  cases tokens with
  | nil => rfl
  | cons first rest =>
    simp only
    rewrite [expression_literal]
    rfl
termination_by (tokens.length, 5)

end

theorem ofTokens_literal (stop : Nat) (tokens : List (Token Kind)) :
    Rule.ofTokens literal stop tokens = Complex.ofTokens stop tokens := by
  rewrite [Rule.ofTokens, Complex.ofTokens, expression_literal]
  rfl

theorem parse_literal : Rule.parse literal = Complex.parse := by
  funext input
  rw [Rule.parse, Complex.parse, ofSource]
  simp only [ofTokens_literal]

end Rule

end Calculator.Complex
