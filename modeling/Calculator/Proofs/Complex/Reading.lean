import Calculator.Proofs.Complex.Rules

/-!
The readers of complex arithmetic as equations between what they find. They are the readers with an
open rule for literals, given the program's own rule. From here on a reader is used through its
equations only.
-/

set_option autoImplicit false
set_option relaxedAutoImplicit false

namespace Calculator.Complex

variable {stop : Nat} {sum product : Ended} {name token opening : Token Kind}
  {tokens rest : List (Token Kind)}

theorem found_expression : found (expression stop tokens) =
    found (term stop tokens) >>= fun read => found (expressionTail stop read.1 read.2) := by
  simp only [← Rule.expression_literal, ← Rule.term_literal, ← Rule.expressionTail_literal]
  exact Rule.found_expression literal

theorem found_expressionTail_nil : found (expressionTail stop sum []) = .ok (sum, []) := by
  simp only [← Rule.expressionTail_literal]
  exact Rule.found_expressionTail_nil literal

theorem found_expressionTail_add (kind : token.kind = .operator .add) :
    found (expressionTail stop sum (token :: rest)) =
      found (term stop rest) >>= fun read =>
        found (expressionTail stop ⟨sum.value + read.1.value, read.1.stop⟩ read.2) := by
  simp only [← Rule.expressionTail_literal, ← Rule.term_literal]
  exact Rule.found_expressionTail_add literal kind

theorem found_expressionTail_sub (kind : token.kind = .operator .sub) :
    found (expressionTail stop sum (token :: rest)) =
      found (term stop rest) >>= fun read =>
        found (expressionTail stop ⟨sum.value - read.1.value, read.1.stop⟩ read.2) := by
  simp only [← Rule.expressionTail_literal, ← Rule.term_literal]
  exact Rule.found_expressionTail_sub literal kind

theorem found_expressionTail_stay (add : token.kind ≠ .operator .add)
    (sub : token.kind ≠ .operator .sub) :
    found (expressionTail stop sum (token :: rest)) = .ok (sum, token :: rest) := by
  simp only [← Rule.expressionTail_literal]
  exact Rule.found_expressionTail_stay literal add sub

theorem found_term : found (term stop tokens) =
    found (factor stop tokens) >>= fun read => found (termTail stop read.1 read.2) := by
  simp only [← Rule.term_literal, ← Rule.factor_literal, ← Rule.termTail_literal]
  exact Rule.found_term literal

theorem found_termTail_nil : found (termTail stop product []) = .ok (product, []) := by
  simp only [← Rule.termTail_literal]
  exact Rule.found_termTail_nil literal

theorem found_termTail_mul (kind : token.kind = .operator .mul) :
    found (termTail stop product (token :: rest)) =
      found (factor stop rest) >>= fun read =>
        found (termTail stop ⟨product.value * read.1.value, read.1.stop⟩ read.2) := by
  simp only [← Rule.termTail_literal, ← Rule.factor_literal]
  exact Rule.found_termTail_mul literal kind

theorem found_termTail_div (kind : token.kind = .operator .div) :
    found (termTail stop product (token :: rest)) =
      found (factor stop rest) >>= fun read =>
        divide token.span (divisorSpan stop rest read.1) product.value read.1.value >>= fun z =>
          found (termTail stop ⟨z, read.1.stop⟩ read.2) := by
  simp only [← Rule.termTail_literal, ← Rule.factor_literal]
  exact Rule.found_termTail_div literal kind

theorem found_termTail_stay (mul : token.kind ≠ .operator .mul)
    (div : token.kind ≠ .operator .div) :
    found (termTail stop product (token :: rest)) = .ok (product, token :: rest) := by
  simp only [← Rule.termTail_literal]
  exact Rule.found_termTail_stay literal mul div

/-- An optional number and the unit after it: the magnitude, the end, and the tokens after it. -/
def unitAt (tokens : List (Token Kind)) : Option (Float × Nat × List (Token Kind)) :=
  match readNumber? tokens, tokens with
  | some (_, _, []), _ => none
  | some (value, _, unit :: rest), _ =>
    if unit.kind = .unit then some (value, unit.span.stop, rest) else none
  | none, [] => none
  | none, unit :: rest => if unit.kind = .unit then some (1, unit.span.stop, rest) else none

/-- A number with no unit after it: its value, its end, and the tokens after it. -/
def numberAt (tokens : List (Token Kind)) : Option (Float × Nat × List (Token Kind)) :=
  match readNumber? tokens with
  | none => none
  | some (value, stop, rest) =>
    if rest.head?.map Token.kind = some .unit then none else some (value, stop, rest)

theorem map_readUnit? :
    (readUnit? tokens).map (fun read => (read.1, read.2.value, read.2.rest)) = unitAt tokens := by
  unfold readUnit? unitAt
  split
  · next h =>
    simp only [h]
    split <;> rfl
  · next h => simp only [h, Option.map_none]
  · next h =>
    cases tokens with
    | nil => rfl
    | cons unit rest =>
      simp only [h]
      split <;> rfl

/-- A literal after its sign, given the factor that the sign stands for. -/
def literalAt (factor : Float) (tokens : List (Token Kind)) :
    Option (Ended × List (Token Kind)) :=
  ((unitAt tokens).map fun read => (⟨imaginary (factor * read.1), read.2.1⟩, read.2.2)).or
    ((numberAt tokens).map fun read => (⟨real (factor * read.1), read.2.1⟩, read.2.2))

theorem map_imaginaryRule :
    (imaginaryRule tokens).map (fun reading => (reading.value, reading.rest)) =
      (unitAt (readSign tokens).2).map fun read =>
        (⟨imaginary ((readSign tokens).1 * read.1), read.2.1⟩, read.2.2) := by
  rw [← map_readUnit?, imaginaryRule, Option.map_map, Option.map_map]
  rfl

theorem map_realRule :
    (realRule tokens).map (fun reading => (reading.value, reading.rest)) =
      (numberAt (readSign tokens).2).map fun read =>
        (⟨real ((readSign tokens).1 * read.1), read.2.1⟩, read.2.2) := by
  unfold realRule numberAt
  split
  · next h => simp only [h, Option.map_none]
  · next h =>
    simp only [h]
    split <;> rfl

/-- A number that the rule for a real part leaves has a unit after it, and so no second sign. -/
theorem twoPartRule_eq_none (h : numberAt (readSign tokens).2 = none) :
    twoPartRule tokens = none := by
  unfold twoPartRule
  split
  · rfl
  · rfl
  · next hn =>
    simp only [numberAt, hn, List.head?_cons, Option.map_some, Option.some.injEq,
      ite_eq_left_iff, reduceCtorEq, imp_false, Decidable.not_not] at h
    simp only [h, signOf?]

theorem taken_literal : Rule.taken literal tokens =
    literalAt (readSign tokens).1 (readSign tokens).2 := by
  rw [Rule.taken, literal, Option.map_or, Option.map_or, map_imaginaryRule, map_realRule, literalAt]
  cases hn : numberAt (readSign tokens).2 with
  | none => rw [twoPartRule_eq_none hn]; rfl
  | some read => rfl

theorem found_factor_nil :
    found (factor stop []) = .error (.one (Span.point stop) .unexpectedEnd) := by
  simp only [← Rule.factor_literal]
  exact Rule.found_factor_nil literal

theorem found_factor_conj (kind : token.kind = .conj) :
    found (factor stop (token :: rest)) =
      found (argument stop token rest) >>= fun read =>
        .ok (⟨read.1.value.conj, read.1.stop⟩, read.2) := by
  simp only [← Rule.factor_literal, ← Rule.argument_literal]
  exact Rule.found_factor_conj literal kind

theorem found_factor_abs (kind : token.kind = .abs) :
    found (factor stop (token :: rest)) =
      found (argument stop token rest) >>= fun read =>
        .ok (⟨real read.1.value.abs, read.1.stop⟩, read.2) := by
  simp only [← Rule.factor_literal, ← Rule.argument_literal]
  exact Rule.found_factor_abs literal kind

theorem found_factor_opening (kind : token.kind = .opening) :
    found (factor stop (token :: rest)) = found (group stop token rest) := by
  simp only [← Rule.factor_literal, ← Rule.group_literal]
  exact Rule.found_factor_opening literal kind

theorem found_factor_literal (conj : token.kind ≠ .conj) (abs : token.kind ≠ .abs)
    (opening : token.kind ≠ .opening) :
    found (factor stop (token :: rest)) =
      match literalAt (readSign (token :: rest)).1 (readSign (token :: rest)).2 with
      | some read => .ok read
      | none => .error (notAFactor token) := by
  rw [← Rule.factor_literal, ← taken_literal]
  exact Rule.found_factor_literal literal conj abs opening

theorem found_argument_open (kind : opening.kind = .opening) :
    found (argument stop name (opening :: rest)) = found (group stop opening rest) := by
  simp only [← Rule.argument_literal, ← Rule.group_literal]
  exact Rule.found_argument_open literal kind

theorem found_argument_missing (h : ∀ opening ∈ tokens.head?, opening.kind ≠ .opening) :
    found (argument stop name tokens) = .error (.one name.span (.missingArgument name.text)) := by
  simp only [← Rule.argument_literal]
  exact Rule.found_argument_missing literal h

theorem found_group_nil : found (group stop opening []) =
    .error (.one (Span.point stop) .unexpectedEnd) := by
  simp only [← Rule.group_literal]
  exact Rule.found_group_nil literal

theorem found_group_empty (kind : token.kind = .closing) :
    found (group stop opening (token :: rest)) =
      .error (.one (Span.through opening.span token.span) .emptyGroup) := by
  simp only [← Rule.group_literal]
  exact Rule.found_group_empty literal kind

theorem found_group (kind : token.kind ≠ .closing) :
    found (group stop opening (token :: rest)) =
      found (expression stop (token :: rest)) >>= fun read =>
        closingAfter opening read.1 read.2 := by
  simp only [← Rule.group_literal, ← Rule.expression_literal]
  exact Rule.found_group literal kind

theorem ofTokens_eq : ofTokens stop tokens =
    found (expression stop tokens) >>= fun read =>
      match read.2 with
      | [] => .ok read.1.value
      | token :: _ => .error (trailing stop token) := by
  simp only [← Rule.ofTokens_literal, ← Rule.expression_literal]
  exact Rule.ofTokens_eq literal

end Calculator.Complex
