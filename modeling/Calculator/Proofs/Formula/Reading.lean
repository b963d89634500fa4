import Calculator.Formula.Parser
import Calculator.Proofs.Outcome

/-!
The readers of formulas as equations between what they find. A reader returns a bound on what it
leaves and a trace, which make it end and make its log; what it finds depends on neither. From here
on a reader is used through its equations only.
-/

set_option autoImplicit false
set_option relaxedAutoImplicit false

namespace Calculator.Formula

abbrev Found := Except Diagnostic (Formula × List (Token Kind))

def found {bound : Nat} (reader : Parse (Reading Kind Formula bound)) : Found :=
  reader.outcome.map fun reading => (reading.value, reading.rest)

section Found

variable {bound : Nat} {f : Formula} {d : Diagnostic} {rest : List (Token Kind)}

theorem length_lt_of_found {reader : Parse (Reading Kind Formula bound)}
    (h : found reader = .ok (f, rest)) : rest.length < bound := by
  cases hr : reader.outcome with
  | error d => simp [found, hr, Except.map] at h
  | ok reading =>
    simp only [found, hr, Except.map, Except.ok.injEq, Prod.mk.injEq] at h
    exact h.2 ▸ reading.within

theorem found_bind {outer : Nat} (reader : Parse (Reading Kind Formula bound))
    (next : Reading Kind Formula bound → Parse (Reading Kind Formula outer))
    (after : Formula × List (Token Kind) → Found)
    (h : ∀ reading, found (next reading) = after (reading.value, reading.rest)) :
    found (reader >>= next) = found reader >>= after := by
  simp only [found, Traced.outcome_bind]
  cases hr : reader.outcome with
  | error d => rfl
  | ok reading => exact h reading

theorem found_map {outer : Nat} (reader : Parse (Reading Kind Formula bound))
    (next : Reading Kind Formula bound → Reading Kind Formula outer) (g : Formula → Formula)
    (h : ∀ reading, ((next reading).value, (next reading).rest) = (g reading.value, reading.rest)) :
    found (reader >>= fun reading => pure (next reading)) =
      found reader >>= fun read => .ok (g read.1, read.2) := by
  simp only [found, Traced.outcome_bind]
  cases hr : reader.outcome with
  | error d => rfl
  | ok reading => exact congrArg Except.ok (h reading)

theorem found_relay {outer : Nat} (reader : Parse (Reading Kind Formula bound))
    (next : Reading Kind Formula bound → Reading Kind Formula outer)
    (h : ∀ reading, ((next reading).value, (next reading).rest) = (reading.value, reading.rest)) :
    found (reader >>= fun reading => pure (next reading)) = found reader := by
  rw [found_map reader next id h]
  cases found reader <;> rfl

end Found

variable {stop : Nat} {f sum product : Formula} {name token opening : Token Kind}
  {tokens rest : List (Token Kind)} {op : Operator} {delimiter : Delimiter}

theorem found_expression : found (expression stop tokens) =
    found (term stop tokens) >>= fun read => found (expressionTail stop read.1 read.2) := by
  rw [expression]
  refine found_bind _ _ _ fun first => ?_
  exact found_relay _ _ fun _ => rfl

theorem found_expressionTail_nil : found (expressionTail stop sum []) = .ok (sum, []) := by
  rw [expressionTail]
  rfl

theorem found_expressionTail_shift (kind : token.kind = .operator op)
    (shifts : op = .add ∨ op = .sub) : found (expressionTail stop sum (token :: rest)) =
      found (term stop rest) >>= fun read =>
        found (expressionTail stop (.binary op sum read.1) read.2) := by
  rw [expressionTail]
  rcases shifts with rfl | rfl
  all_goals
    simp only [kind]
    refine found_bind _ _ _ fun next => ?_
    exact found_relay _ _ fun _ => rfl

theorem found_expressionTail_stay (add : token.kind ≠ .operator .add)
    (sub : token.kind ≠ .operator .sub) :
    found (expressionTail stop sum (token :: rest)) = .ok (sum, token :: rest) := by
  rw [expressionTail]
  split
  · contradiction
  · contradiction
  · rfl

theorem found_term : found (term stop tokens) =
    found (unary stop tokens) >>= fun read => found (termTail stop read.1 read.2) := by
  rw [term]
  refine found_bind _ _ _ fun first => ?_
  exact found_relay _ _ fun _ => rfl

theorem found_termTail_nil : found (termTail stop product []) = .ok (product, []) := by
  rw [termTail]
  rfl

theorem found_termTail_scale (kind : token.kind = .operator op) (scales : op = .mul ∨ op = .div) :
    found (termTail stop product (token :: rest)) =
      found (unary stop rest) >>= fun read =>
        found (termTail stop (.binary op product read.1) read.2) := by
  rw [termTail]
  rcases scales with rfl | rfl
  all_goals
    simp only [kind]
    refine found_bind _ _ _ fun next => ?_
    exact found_relay _ _ fun _ => rfl

theorem found_termTail_factor (starts : token.kind.startsFactor = true) :
    found (termTail stop product (token :: rest)) =
      found (power stop (token :: rest)) >>= fun read =>
        found (termTail stop (.binary .mul product read.1) read.2) := by
  rw [termTail]
  split
  · next kind => simp [kind, Kind.startsFactor] at starts
  · next kind => simp [kind, Kind.startsFactor] at starts
  · rw [if_pos starts]
    refine found_bind _ _ _ fun next => ?_
    exact found_relay _ _ fun _ => rfl

theorem found_termTail_stay (mul : token.kind ≠ .operator .mul) (div : token.kind ≠ .operator .div)
    (starts : token.kind.startsFactor = false) :
    found (termTail stop product (token :: rest)) = .ok (product, token :: rest) := by
  rw [termTail]
  split
  · contradiction
  · contradiction
  · simp only [starts, Bool.false_eq_true, if_false]
    rfl

theorem found_unary_nil : found (unary stop []) = found (power stop []) := by
  rw [unary]

theorem found_unary_minus (kind : token.kind = .operator .sub) :
    found (unary stop (token :: rest)) =
      found (unary stop rest) >>= fun read => .ok (.neg read.1, read.2) := by
  rw [unary]
  simp only [kind]
  exact found_map _ _ .neg fun _ => rfl

theorem found_unary_plus (kind : token.kind = .operator .add) :
    found (unary stop (token :: rest)) = found (unary stop rest) := by
  rw [unary]
  simp only [kind]
  exact found_relay _ _ fun _ => rfl

theorem found_unary_power (add : token.kind ≠ .operator .add) (sub : token.kind ≠ .operator .sub) :
    found (unary stop (token :: rest)) = found (power stop (token :: rest)) := by
  rw [unary]
  split
  · contradiction
  · contradiction
  · rfl

/-- The power with the given base that the next tokens make, the base itself if they make none. -/
def exponentAfter (stop : Nat) (base : Formula) : List (Token Kind) → Found
  | [] => .ok (base, [])
  | token :: rest =>
    if token.kind = .operator .pow then
      found (unary stop rest) >>= fun read => .ok (.binary .pow base read.1, read.2)
    else .ok (base, token :: rest)

theorem found_power : found (power stop tokens) =
    found (primary stop tokens) >>= fun read => exponentAfter stop read.1 read.2 := by
  rw [power]
  refine found_bind _ _ _ fun base => ?_
  obtain ⟨base, rest, within⟩ := base
  cases rest with
  | nil => rfl
  | cons token rest =>
    simp only [exponentAfter]
    split
    · exact found_bind _ _ _ fun _ => rfl
    · rfl

theorem found_primary_nil :
    found (primary stop []) = .error (.one (Span.point stop) .unexpectedEnd) := by
  rw [primary]
  rfl

theorem found_primary_function {g : Builtin} (kind : token.kind = .function g) :
    found (primary stop (token :: rest)) =
      found (argument stop token rest) >>= fun read => .ok (.call g read.1, read.2) := by
  rw [primary]
  simp only [kind]
  exact found_map _ _ (.call g) fun _ => rfl

theorem found_primary_opening (kind : token.kind = .opening delimiter) :
    found (primary stop (token :: rest)) = found (group stop delimiter token rest) := by
  rw [primary]
  simp only [kind]
  exact found_relay _ _ fun _ => rfl

theorem found_primary_atom (function : ∀ g : Builtin, token.kind ≠ .function g)
    (opening : ∀ delimiter : Delimiter, token.kind ≠ .opening delimiter) :
    found (primary stop (token :: rest)) = (atom token).map fun f => (f, rest) := by
  rw [primary]
  split
  · next g kind => exact absurd kind (function g)
  · next delimiter kind => exact absurd kind (opening delimiter)
  · cases atom token <;> rfl

theorem found_argument_open (kind : opening.kind = .opening .parenthesis) :
    found (argument stop name (opening :: rest)) =
      found (group stop .parenthesis opening rest) := by
  rw [argument, if_pos kind]
  exact found_relay _ _ fun _ => rfl

theorem found_argument_missing
    (h : ∀ opening ∈ tokens.head?, opening.kind ≠ .opening .parenthesis) :
    found (argument stop name tokens) = .error (.one name.span (.missingArgument name.text)) := by
  rw [argument.eq_def]
  cases tokens with
  | nil => rfl
  | cons opening rest =>
    simp only [if_neg (h opening rfl)]
    rfl

theorem found_group_nil : found (group stop delimiter opening []) =
    .error (.one (Span.point stop) .unexpectedEnd) := by
  rw [group]
  rfl

theorem found_group_empty (kind : token.kind = .closing delimiter) :
    found (group stop delimiter opening (token :: rest)) =
      .error (.one (Span.through opening.span token.span) .emptyGroup) := by
  rw [group, if_pos kind]
  rfl

def closingAfter (delimiter : Delimiter) (opening : Token Kind) (inner : Formula) :
    List (Token Kind) → Found
  | [] => .error (notClosed delimiter opening [])
  | token :: rest =>
    if token.kind = .closing delimiter then .ok (inner, rest)
    else .error (notClosed delimiter opening (token :: rest))

theorem found_group (kind : token.kind ≠ .closing delimiter) :
    found (group stop delimiter opening (token :: rest)) =
      found (expression stop (token :: rest)) >>= fun read =>
        closingAfter delimiter opening read.1 read.2 := by
  rw [group, if_neg kind]
  refine found_bind _ _ _ fun inner => ?_
  obtain ⟨inner, rest, within⟩ := inner
  cases rest with
  | nil => rfl
  | cons closing after =>
    simp only [closingAfter]
    split <;> rfl

theorem outcome_ofTokens : (ofTokens stop tokens).outcome =
    found (expression stop tokens) >>= fun read =>
      match read.2 with
      | [] => .ok read.1
      | token :: _ => .error (trailing stop token) := by
  rw [ofTokens, Traced.outcome_bind, found]
  cases hr : (expression stop tokens).outcome with
  | error d => rfl
  | ok reading =>
    obtain ⟨value, rest, within⟩ := reading
    cases rest <;> rfl

end Calculator.Formula
