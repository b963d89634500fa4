import Calculator.Proofs.Complex.Grammar
import Calculator.Proofs.Complex.Reading

/-!
Reading complex arithmetic follows its grammar and evaluates what it derives. One direction is an
induction over the readers: what one of them finds at the front of the tokens is a phrase of its
kind, with the value that was found. The other is an induction over the derivation: a phrase is read
wherever what comes after it does not go on with it, up to the first division that has no value, and
as its value if there is no such division.
-/

set_option autoImplicit false
set_option relaxedAutoImplicit false

namespace Calculator.Complex

variable {stop : Nat} {tokens rest : List (Token Kind)} {token : Token Kind} {z : Ended}

theorem readNumber?_eq_some {value : Float} {last : Nat}
    (h : readNumber? tokens = some (value, last, rest)) : ∃ token : Token Kind,
      tokens = token :: rest ∧ token.kind = .number ∧ Number.read? token.lexeme = some value := by
  cases tokens with
  | nil => cases h
  | cons token tail =>
    simp only [readNumber?, Option.ite_none_right_eq_some, Option.map_eq_some_iff,
      Prod.mk.injEq] at h
    obtain ⟨kind, v, read, rfl, -, rfl⟩ := h
    exact ⟨token, rfl, kind, read⟩

theorem readNumber?_eq_none (h : token.kind ≠ .number) : readNumber? (token :: rest) = none :=
  if_neg h

theorem readNumber?_number {value : Float} (kind : token.kind = .number)
    (read : Number.read? token.lexeme = some value) :
    readNumber? (token :: rest) = some (value, token.span.stop, rest) := by
  simp [readNumber?, kind, read]

theorem signs_readSign (tokens : List (Token Kind)) : ∃ signs sign,
    tokens = signs ++ (readSign tokens).2 ∧ Signs signs sign ∧
      Sign.factor sign = (readSign tokens).1 := by
  cases tokens with
  | nil => exact ⟨[], none, rfl, .none, rfl⟩
  | cons token rest =>
    by_cases plus : token.kind = .operator .add
    · exact ⟨[token], some .plus, by simp [readSign, signOf?, plus], .some .plus plus,
        by simp [readSign, signOf?, plus, Sign.factor]⟩
    by_cases minus : token.kind = .operator .sub
    · exact ⟨[token], some .minus, by simp [readSign, signOf?, minus], .some .minus minus,
        by simp [readSign, signOf?, minus, Sign.factor]⟩
    · have hnone : signOf? token.kind = none := by
        unfold signOf?
        split
        · contradiction
        · contradiction
        · rfl
      exact ⟨[], none, by simp [readSign, hnone], .none, by simp [readSign, hnone, Sign.factor]⟩

theorem readSign_append {signs : List (Token Kind)} {sign : Option Sign} (h : Signs signs sign)
    (unsigned : ∀ token ∈ rest.head?, signOf? token.kind = none) :
    readSign (signs ++ rest) = (Sign.factor sign, rest) := by
  cases h with
  | none =>
    cases rest with
    | nil => rfl
    | cons token rest => simp [readSign, unsigned token rfl, Sign.factor]
  | some sign kind => cases sign <;> simp [readSign, kind, signOf?, Sign.operator, Sign.factor]

theorem unitAt_eq_some {value : Float} {last : Nat} (h : unitAt tokens = some (value, last, rest)) :
    ∃ numbers magnitude unit, tokens = numbers ++ unit :: rest ∧ Counts numbers magnitude ∧
      magnitude.getD 1 = value ∧ unit.kind = .unit := by
  unfold unitAt at h
  split at h
  · cases h
  · next hn =>
    obtain ⟨token, rfl, kind, read⟩ := readNumber?_eq_some hn
    simp only [Option.ite_none_right_eq_some, Option.some.injEq, Prod.mk.injEq] at h
    obtain ⟨unit, rfl, -, rfl⟩ := h
    exact ⟨[token], _, _, rfl, .some kind read, rfl, unit⟩
  · cases h
  · simp only [Option.ite_none_right_eq_some, Option.some.injEq, Prod.mk.injEq] at h
    obtain ⟨unit, rfl, -, rfl⟩ := h
    exact ⟨[], none, _, rfl, .none, rfl, unit⟩

theorem numberAt_eq_some {value : Float} {last : Nat}
    (h : numberAt tokens = some (value, last, rest)) : ∃ token : Token Kind,
      tokens = token :: rest ∧ token.kind = .number ∧ Number.read? token.lexeme = some value := by
  unfold numberAt at h
  split at h
  · cases h
  · next hn =>
    simp only [Option.ite_none_left_eq_some, Option.some.injEq, Prod.mk.injEq] at h
    obtain ⟨-, rfl, rfl, rfl⟩ := h
    exact readNumber?_eq_some hn

theorem div?_eq_some_of_divide {operator divisor : Span} {z w quotient : Complex}
    (h : divide operator divisor z w = .ok quotient) : z.div? w = some quotient := by
  unfold divide at h
  split at h
  · next hq => exact hq.trans (congrArg some (Except.ok.inj h))
  · cases h

/-! What is found is derived. -/

/-- The tokens start with a phrase that has the value found. -/
def Starts (p : Phrase) (tokens : List (Token Kind)) (z : Ended) (rest : List (Token Kind)) :
    Prop :=
  ∃ read e, tokens = read ++ rest ∧ Derives p read e ∧ e.value? = some z.value

/-- The tokens start with more of a phrase, which then has the value found. -/
def Extends (p : Phrase) (before tokens : List (Token Kind)) (z : Ended)
    (rest : List (Token Kind)) : Prop :=
  ∃ read e, tokens = read ++ rest ∧ Derives p (before ++ read) e ∧ e.value? = some z.value

theorem Derives.extends {p : Phrase} {e : Expr} (h : Derives p tokens e)
    (hv : e.value? = some z.value) : Extends p tokens rest z rest :=
  ⟨[], e, rfl, (List.append_nil tokens).symm ▸ h, hv⟩

theorem Extends.append {p : Phrase} {before between read : List (Token Kind)}
    (h : Extends p (before ++ read) between z rest) (hr : tokens = read ++ between) :
    Extends p before tokens z rest := by
  obtain ⟨more, e, hm, derived, hv⟩ := h
  exact ⟨read ++ more, e, by rw [hr, hm, List.append_assoc], by rwa [← List.append_assoc], hv⟩

theorem Extends.starts {p : Phrase} {between read : List (Token Kind)}
    (h : Extends p read between z rest) (hr : tokens = read ++ between) :
    Starts p tokens z rest := by
  obtain ⟨more, e, hm, derived, hv⟩ := h
  exact ⟨read ++ more, e, by rw [hr, hm, List.append_assoc], derived, hv⟩

theorem starts_literal (h : literalAt (readSign tokens).1 (readSign tokens).2 = some (z, rest)) :
    Starts .factor tokens z rest := by
  obtain ⟨signs, sign, htokens, signed, hfactor⟩ := signs_readSign tokens
  rw [literalAt, Option.or_eq_some_iff] at h
  rcases h with h | ⟨-, h⟩
  · obtain ⟨⟨value, last, after⟩, hunit, hz⟩ := Option.map_eq_some_iff.mp h
    cases hz
    obtain ⟨numbers, magnitude, unit, hn, counted, rfl, kind⟩ := unitAt_eq_some hunit
    refine ⟨signs ++ (numbers ++ [unit]), .imaginary sign magnitude, ?_,
      .imaginary signed counted kind, ?_⟩
    · rw [htokens, hn]
      simp
    · rw [Expr.value?, hfactor]
  · obtain ⟨⟨value, last, after⟩, hnumber, hz⟩ := Option.map_eq_some_iff.mp h
    cases hz
    obtain ⟨token, hn, kind, read⟩ := numberAt_eq_some hnumber
    refine ⟨signs ++ [token], .real sign value, ?_, .real signed kind read, ?_⟩
    · rw [htokens, hn]
      simp
    · rw [Expr.value?, hfactor]

mutual

theorem starts_expression {tokens rest : List (Token Kind)} {z : Ended}
    (h : found (expression stop tokens) = .ok (z, rest)) : Starts .expression tokens z rest := by
  rw [found_expression] at h
  obtain ⟨⟨first, between⟩, hfirst, hmore⟩ := bind_eq_ok_iff.mp h
  have := length_lt_of_found hfirst
  obtain ⟨read, e, hread, derived, hv⟩ := starts_term hfirst
  exact (extends_expression (.term derived) hv hmore).starts hread
termination_by (tokens.length, 4)

theorem extends_expression {before tokens rest : List (Token Kind)} {sum z : Ended} {e : Expr}
    (hb : Derives .expression before e) (hv : e.value? = some sum.value)
    (h : found (expressionTail stop sum tokens) = .ok (z, rest)) :
    Extends .expression before tokens z rest := by
  match tokens with
  | [] =>
    rw [found_expressionTail_nil] at h
    cases h
    exact hb.extends hv
  | token :: tail =>
    by_cases add : token.kind = .operator .add
    · rw [found_expressionTail_add add] at h
      obtain ⟨⟨next, between⟩, hnext, hmore⟩ := bind_eq_ok_iff.mp h
      have := length_lt_of_found hnext
      obtain ⟨read, f, hread, derived, hf⟩ := starts_term hnext
      have hsum : (Expr.add e f).value? = some (sum.value + next.value) := by
        simp [Expr.value?, hv, hf]
      exact (extends_expression (.plus hb add derived) hsum hmore).append
        (by rw [hread, List.cons_append])
    by_cases sub : token.kind = .operator .sub
    · rw [found_expressionTail_sub sub] at h
      obtain ⟨⟨next, between⟩, hnext, hmore⟩ := bind_eq_ok_iff.mp h
      have := length_lt_of_found hnext
      obtain ⟨read, f, hread, derived, hf⟩ := starts_term hnext
      have hdiff : (Expr.sub e f).value? = some (sum.value - next.value) := by
        simp [Expr.value?, hv, hf]
      exact (extends_expression (.minus hb sub derived) hdiff hmore).append
        (by rw [hread, List.cons_append])
    · rw [found_expressionTail_stay add sub] at h
      cases h
      exact hb.extends hv
termination_by (tokens.length, 3)

theorem starts_term {tokens rest : List (Token Kind)} {z : Ended}
    (h : found (term stop tokens) = .ok (z, rest)) : Starts .term tokens z rest := by
  rw [found_term] at h
  obtain ⟨⟨first, between⟩, hfirst, hmore⟩ := bind_eq_ok_iff.mp h
  have := length_lt_of_found hfirst
  obtain ⟨read, e, hread, derived, hv⟩ := starts_factor hfirst
  exact (extends_term (.factor derived) hv hmore).starts hread
termination_by (tokens.length, 3)

theorem extends_term {before tokens rest : List (Token Kind)} {product z : Ended} {e : Expr}
    (hb : Derives .term before e) (hv : e.value? = some product.value)
    (h : found (termTail stop product tokens) = .ok (z, rest)) :
    Extends .term before tokens z rest := by
  match tokens with
  | [] =>
    rw [found_termTail_nil] at h
    cases h
    exact hb.extends hv
  | token :: tail =>
    by_cases mul : token.kind = .operator .mul
    · rw [found_termTail_mul mul] at h
      obtain ⟨⟨next, between⟩, hnext, hmore⟩ := bind_eq_ok_iff.mp h
      have := length_lt_of_found hnext
      obtain ⟨read, f, hread, derived, hf⟩ := starts_factor hnext
      have hprod : (Expr.mul e f).value? = some (product.value * next.value) := by
        simp [Expr.value?, hv, hf]
      exact (extends_term (.times hb mul derived) hprod hmore).append
        (by rw [hread, List.cons_append])
    by_cases div : token.kind = .operator .div
    · rw [found_termTail_div div] at h
      obtain ⟨⟨next, between⟩, hnext, hmore⟩ := bind_eq_ok_iff.mp h
      obtain ⟨quotient, hdiv, hmore⟩ := bind_eq_ok_iff.mp hmore
      have := length_lt_of_found hnext
      obtain ⟨read, f, hread, derived, hf⟩ := starts_factor hnext
      have hquot : (Expr.div e f).value? = some quotient := by
        simp [Expr.value?, hv, hf, div?_eq_some_of_divide hdiv]
      exact (extends_term (.divided hb div derived) hquot hmore).append
        (by rw [hread, List.cons_append])
    · rw [found_termTail_stay mul div] at h
      cases h
      exact hb.extends hv
termination_by (tokens.length, 2)

theorem starts_factor {tokens rest : List (Token Kind)} {z : Ended}
    (h : found (factor stop tokens) = .ok (z, rest)) : Starts .factor tokens z rest := by
  match tokens with
  | [] =>
    rw [found_factor_nil] at h
    cases h
  | token :: tail =>
    by_cases conj : token.kind = .conj
    · rw [found_factor_conj conj] at h
      obtain ⟨⟨arg, between⟩, harg, hz⟩ := bind_eq_ok_iff.mp h
      cases hz
      obtain ⟨opening, inner, closing, e, htail, opens, closes, derived, hv⟩ :=
        derives_argument harg
      exact ⟨token :: opening :: (inner ++ [closing]), .conj e, by simp [htail],
        .conj conj opens closes derived, by simp [Expr.value?, hv]⟩
    by_cases abs : token.kind = .abs
    · rw [found_factor_abs abs] at h
      obtain ⟨⟨arg, between⟩, harg, hz⟩ := bind_eq_ok_iff.mp h
      cases hz
      obtain ⟨opening, inner, closing, e, htail, opens, closes, derived, hv⟩ :=
        derives_argument harg
      exact ⟨token :: opening :: (inner ++ [closing]), .abs e, by simp [htail],
        .abs abs opens closes derived, by simp [Expr.value?, hv]⟩
    by_cases opens : token.kind = .opening
    · rw [found_factor_opening opens] at h
      obtain ⟨inner, closing, e, htail, closes, derived, hv⟩ := derives_group h
      exact ⟨token :: (inner ++ [closing]), e, by simp [htail], .group opens closes derived, hv⟩
    · rw [found_factor_literal conj abs opens] at h
      cases hl : literalAt (readSign (token :: tail)).1 (readSign (token :: tail)).2 with
      | none => simp [hl] at h
      | some read =>
        rw [hl] at h
        cases h
        exact starts_literal hl
termination_by (tokens.length, 2)

theorem derives_argument {name : Token Kind} {tokens rest : List (Token Kind)} {z : Ended}
    (h : found (argument stop name tokens) = .ok (z, rest)) :
    ∃ opening inner closing e, tokens = opening :: (inner ++ closing :: rest) ∧
      opening.kind = .opening ∧ closing.kind = .closing ∧ Derives .expression inner e ∧
      e.value? = some z.value := by
  match tokens with
  | [] =>
    rw [found_argument_missing (by simp)] at h
    cases h
  | opening :: inside =>
    by_cases opens : opening.kind = .opening
    · rw [found_argument_open opens] at h
      obtain ⟨inner, closing, e, hinside, closes, derived, hv⟩ := derives_group h
      exact ⟨opening, inner, closing, e, by rw [hinside], opens, closes, derived, hv⟩
    · rw [found_argument_missing (by simpa using opens)] at h
      cases h
termination_by (tokens.length, 1)

theorem derives_group {opening : Token Kind} {tokens rest : List (Token Kind)} {z : Ended}
    (h : found (group stop opening tokens) = .ok (z, rest)) :
    ∃ inner closing e, tokens = inner ++ closing :: rest ∧ closing.kind = .closing ∧
      Derives .expression inner e ∧ e.value? = some z.value := by
  match tokens with
  | [] =>
    rw [found_group_nil] at h
    cases h
  | token :: tail =>
    by_cases closes : token.kind = .closing
    · rw [found_group_empty closes] at h
      cases h
    · rw [found_group closes] at h
      obtain ⟨⟨inner, between⟩, hinner, hclose⟩ := bind_eq_ok_iff.mp h
      obtain ⟨read, e, hread, derived, hv⟩ := starts_expression hinner
      match between with
      | [] => cases hclose
      | closing :: after =>
        by_cases closes : closing.kind = .closing
        · simp only [closingAfter, closes, if_true] at hclose
          cases hclose
          exact ⟨read, closing, e, hread, closes, derived, hv⟩
        · simp only [closingAfter, closes, if_false] at hclose
          cases hclose
termination_by (tokens.length, 5)

end

/-! What is derived is found. -/

namespace Derives

variable {p : Phrase} {e : Expr}

theorem head_ne_closing (h : Derives p tokens e) :
    ∃ token tail, tokens = token :: tail ∧ token.kind ≠ .closing := by
  induction h with
  | imaginary signed counted kind =>
    cases signed with
    | some sign signs => exact ⟨_, _, rfl, by simp [signs]⟩
    | none =>
      cases counted with
      | none => exact ⟨_, _, rfl, by simp [kind]⟩
      | some number => exact ⟨_, _, rfl, by simp [number]⟩
  | real signed kind read =>
    cases signed with
    | none => exact ⟨_, _, rfl, by simp [kind]⟩
    | some sign signs => exact ⟨_, _, rfl, by simp [signs]⟩
  | conj kind | abs kind | group kind => exact ⟨_, _, rfl, by simp [kind]⟩
  | factor _ ih | term _ ih => exact ih
  | times _ _ _ ih | divided _ _ _ ih | plus _ _ _ ih | minus _ _ _ ih =>
    obtain ⟨token, tail, rfl, ne⟩ := ih
    exact ⟨token, _, List.cons_append, ne⟩

end Derives

def EndsFactor (rest : List (Token Kind)) : Prop :=
  ∀ token ∈ rest.head?, token.kind ≠ .unit

def EndsTerm (rest : List (Token Kind)) : Prop :=
  ∀ token ∈ rest.head?,
    token.kind ≠ .unit ∧ token.kind ≠ .operator .mul ∧ token.kind ≠ .operator .div

/-- What comes next closes a group, if anything does. -/
def EndsExpression (rest : List (Token Kind)) : Prop :=
  ∀ token ∈ rest.head?, token.kind = .closing

theorem EndsTerm.endsFactor (h : EndsTerm rest) : EndsFactor rest := fun token ht => (h token ht).1

theorem EndsExpression.endsTerm (h : EndsExpression rest) : EndsTerm rest := by
  intro token ht
  simp [h token ht]

theorem EndsTerm.found_termTail (h : EndsTerm rest) :
    found (termTail stop z rest) = .ok (z, rest) := by
  cases rest with
  | nil => exact found_termTail_nil
  | cons token rest =>
    obtain ⟨-, mul, div⟩ := h token rfl
    exact found_termTail_stay mul div

theorem EndsExpression.found_expressionTail (h : EndsExpression rest) :
    found (expressionTail stop z rest) = .ok (z, rest) := by
  cases rest with
  | nil => exact found_expressionTail_nil
  | cons token rest =>
    have kind := h token rfl
    exact found_expressionTail_stay (by simp [kind]) (by simp [kind])

theorem unitAt_append {numbers : List (Token Kind)} {unit : Token Kind} {magnitude : Option Float}
    (counted : Counts numbers magnitude) (kind : unit.kind = .unit) :
    unitAt (numbers ++ unit :: rest) = some (magnitude.getD 1, unit.span.stop, rest) := by
  cases counted with
  | none => simp [unitAt, readNumber?, kind]
  | some number read => simp [unitAt, readNumber?_number number read, kind]

theorem unitAt_number {value : Float} (kind : token.kind = .number)
    (read : Number.read? token.lexeme = some value) (hr : EndsFactor rest) :
    unitAt (token :: rest) = none := by
  cases rest with
  | nil => simp [unitAt, readNumber?_number kind read]
  | cons unit rest => simp [unitAt, readNumber?_number kind read, hr unit rfl]

theorem numberAt_number {value : Float} (kind : token.kind = .number)
    (read : Number.read? token.lexeme = some value) (hr : EndsFactor rest) :
    numberAt (token :: rest) = some (value, token.span.stop, rest) := by
  cases rest with
  | nil => simp [numberAt, readNumber?_number kind read]
  | cons unit rest => simp [numberAt, readNumber?_number kind read, hr unit rfl]

theorem literalAt_imaginary {signs numbers : List (Token Kind)} {unit : Token Kind}
    {sign : Option Sign} {magnitude : Option Float} (signed : Signs signs sign)
    (counted : Counts numbers magnitude) (kind : unit.kind = .unit)
    (htokens : tokens = signs ++ (numbers ++ unit :: rest)) :
    literalAt (readSign tokens).1 (readSign tokens).2 =
      some (⟨imaginary (Sign.factor sign * magnitude.getD 1), unit.span.stop⟩, rest) := by
  have unsigned : ∀ token ∈ (numbers ++ unit :: rest).head?, signOf? token.kind = none := by
    cases counted with
    | none => simp [kind, signOf?]
    | some number => simp [number, signOf?]
  rw [htokens, readSign_append signed unsigned, literalAt, unitAt_append counted kind]
  rfl

theorem literalAt_real {signs : List (Token Kind)} {sign : Option Sign} {value : Float}
    (signed : Signs signs sign) (kind : token.kind = .number)
    (read : Number.read? token.lexeme = some value) (hr : EndsFactor rest)
    (htokens : tokens = signs ++ token :: rest) :
    literalAt (readSign tokens).1 (readSign tokens).2 =
      some (⟨real (Sign.factor sign * value), token.span.stop⟩, rest) := by
  have unsigned : ∀ first ∈ (token :: rest).head?, signOf? first.kind = none := by
    simp [kind, signOf?]
  rw [htokens, readSign_append signed unsigned, literalAt, unitAt_number kind read hr,
    numberAt_number kind read hr]
  rfl

theorem literalAt_eq_none (number : token.kind ≠ .number) (unit : token.kind ≠ .unit)
    (unsigned : signOf? token.kind = none) :
    literalAt (readSign (token :: rest)).1 (readSign (token :: rest)).2 = none := by
  simp [literalAt, readSign, unsigned, unitAt, numberAt, readNumber?_eq_none number, unit]

theorem found_factor_of_literalAt {read : Ended × List (Token Kind)}
    (h : literalAt (readSign tokens).1 (readSign tokens).2 = some read) :
    found (factor stop tokens) = .ok read := by
  cases tokens with
  | nil => cases h
  | cons token rest =>
    have other (kind : token.kind = .conj ∨ token.kind = .abs ∨ token.kind = .opening) : False := by
      rw [literalAt_eq_none] at h
      · cases h
      all_goals rcases kind with kind | kind | kind <;> simp [kind, signOf?]
    rw [found_factor_literal (fun kind => other (.inl kind)) (fun kind => other (.inr (.inl kind)))
      (fun kind => other (.inr (.inr kind))), h]

/-- Reading goes on with the given value, or fails to divide if there is none. -/
def Reaches (x : Found) (value : Option Complex) (next : Ended → Found) : Prop :=
  match value with
  | some z => ∃ last, x = next ⟨z, last⟩
  | none => ∃ spans, x = .error ⟨.divisionByZero, spans⟩

namespace Reaches

variable {x : Found} {value : Option Complex} {next after : Ended → Found}
  {f : Complex → Option Complex}

theorem trans (h : Reaches x value next) (hn : ∀ z, Reaches (next z) (f z.value) after) :
    Reaches x (value >>= f) after := by
  cases value with
  | none => exact h
  | some z =>
    obtain ⟨last, rfl⟩ := h
    exact hn ⟨z, last⟩

theorem mono (h : Reaches x value next) (hn : ∀ z, ∃ last, next z = after ⟨z.value, last⟩) :
    Reaches x value after := by
  cases value with
  | none => exact h
  | some z =>
    obtain ⟨last, rfl⟩ := h
    exact hn ⟨z, last⟩

theorem bind {k : Ended × List (Token Kind) → Found}
    (h : Reaches x value fun z => .ok (z, rest)) :
    Reaches (x >>= k) value fun z => k (z, rest) := by
  cases value with
  | none =>
    obtain ⟨spans, rfl⟩ := h
    exact ⟨spans, rfl⟩
  | some z =>
    obtain ⟨last, rfl⟩ := h
    exact ⟨last, rfl⟩

theorem divide {operator divisor : Span} {z w : Complex} {last : Nat} {k : Ended → Found} :
    Reaches (divide operator divisor z w >>= fun quotient => k ⟨quotient, last⟩) (z.div? w) k := by
  unfold Complex.divide
  cases z.div? w with
  | none => exact ⟨_, rfl⟩
  | some quotient => exact ⟨last, rfl⟩

end Reaches

/-- Readers find the value of this expression in the tokens of a phrase, whatever comes next that
does not go on with it. -/
def Finds : Phrase → List (Token Kind) → Expr → Prop
  | .factor, tokens, e => ∀ stop rest, EndsFactor rest →
      Reaches (found (factor stop (tokens ++ rest))) e.value? fun z => .ok (z, rest)
  | .term, tokens, e => ∀ stop rest, EndsFactor rest →
      Reaches (found (term stop (tokens ++ rest))) e.value? fun z => found (termTail stop z rest)
  | .expression, tokens, e => ∀ stop rest, EndsTerm rest →
      Reaches (found (expression stop (tokens ++ rest))) e.value? fun z =>
        found (expressionTail stop z rest)

namespace Finds

variable {e l r : Expr} {ls rs : List (Token Kind)}

theorem complete (h : Finds .expression tokens e) (hr : EndsExpression rest) :
    Reaches (found (expression stop (tokens ++ rest))) e.value? fun z => .ok (z, rest) := by
  have := h stop rest hr.endsTerm
  simpa only [hr.found_expressionTail] using this

theorem imaginary {signs numbers : List (Token Kind)} {unit : Token Kind} {sign : Option Sign}
    {magnitude : Option Float} (signed : Signs signs sign) (counted : Counts numbers magnitude)
    (kind : unit.kind = .unit) :
    Finds .factor (signs ++ (numbers ++ [unit])) (.imaginary sign magnitude) := by
  intro stop rest _
  exact ⟨unit.span.stop, found_factor_of_literalAt (literalAt_imaginary signed counted kind
    (by rw [List.append_assoc, List.append_assoc, List.singleton_append]))⟩

theorem real {signs : List (Token Kind)} {sign : Option Sign} {value : Float}
    (signed : Signs signs sign) (kind : token.kind = .number)
    (read : Number.read? token.lexeme = some value) :
    Finds .factor (signs ++ [token]) (.real sign value) := by
  intro stop rest hr
  exact ⟨token.span.stop, found_factor_of_literalAt (literalAt_real signed kind read hr
    (by rw [List.append_assoc, List.singleton_append]))⟩

theorem group {opening closing : Token Kind} (closes : closing.kind = .closing)
    (head : ∃ token tail, tokens = token :: tail ∧ token.kind ≠ .closing)
    (h : Finds .expression tokens e) :
    Reaches (found (Complex.group stop opening (tokens ++ closing :: rest))) e.value? fun z =>
      .ok (z, rest) := by
  obtain ⟨token, tail, rfl, ne⟩ := head
  have hr : EndsExpression (closing :: rest) := by simp [EndsExpression, closes]
  rw [List.cons_append, found_group ne, ← List.cons_append]
  exact (h.complete hr).bind.mono fun z =>
    ⟨closing.span.stop, by simp only [closingAfter, closes, if_true]⟩

theorem conj {name opening closing : Token Kind} (kind : name.kind = .conj)
    (opens : opening.kind = .opening) (closes : closing.kind = .closing)
    (head : ∃ token tail, tokens = token :: tail ∧ token.kind ≠ .closing)
    (h : Finds .expression tokens e) :
    Finds .factor (name :: opening :: (tokens ++ [closing])) (.conj e) := by
  intro stop rest _
  rw [List.cons_append, List.cons_append, List.append_assoc, List.singleton_append,
    found_factor_conj kind, found_argument_open opens]
  exact (h.group closes head).bind.trans fun z => ⟨z.stop, rfl⟩

theorem abs {name opening closing : Token Kind} (kind : name.kind = .abs)
    (opens : opening.kind = .opening) (closes : closing.kind = .closing)
    (head : ∃ token tail, tokens = token :: tail ∧ token.kind ≠ .closing)
    (h : Finds .expression tokens e) :
    Finds .factor (name :: opening :: (tokens ++ [closing])) (.abs e) := by
  intro stop rest _
  rw [List.cons_append, List.cons_append, List.append_assoc, List.singleton_append,
    found_factor_abs kind, found_argument_open opens]
  exact (h.group closes head).bind.trans fun z => ⟨z.stop, rfl⟩

theorem factor (h : Finds .factor tokens e) : Finds .term tokens e := by
  intro stop rest hr
  rw [found_term]
  exact (h stop rest hr).bind

theorem times (lhs : Finds .term ls l) (kind : token.kind = .operator .mul)
    (rhs : Finds .factor rs r) : Finds .term (ls ++ token :: rs) (.mul l r) := by
  intro stop rest hr
  rw [List.append_assoc, List.cons_append]
  refine (lhs stop _ (by simp [EndsFactor, kind])).trans fun z => ?_
  rw [found_termTail_mul kind]
  exact (rhs stop rest hr).bind.trans fun w => ⟨w.stop, rfl⟩

theorem divided (lhs : Finds .term ls l) (kind : token.kind = .operator .div)
    (rhs : Finds .factor rs r) : Finds .term (ls ++ token :: rs) (.div l r) := by
  intro stop rest hr
  rw [List.append_assoc, List.cons_append]
  refine (lhs stop _ (by simp [EndsFactor, kind])).trans fun z => ?_
  rw [found_termTail_div kind]
  exact (rhs stop rest hr).bind.trans fun w =>
    Reaches.divide (k := fun z => found (termTail stop z rest))

theorem term (h : Finds .term tokens e) : Finds .expression tokens e := by
  intro stop rest hr
  rw [found_expression]
  have hfound := h stop rest hr.endsFactor
  simp only [hr.found_termTail] at hfound
  exact hfound.bind

theorem plus (lhs : Finds .expression ls l) (kind : token.kind = .operator .add)
    (rhs : Finds .term rs r) : Finds .expression (ls ++ token :: rs) (.add l r) := by
  intro stop rest hr
  rw [List.append_assoc, List.cons_append]
  refine (lhs stop _ (by simp [EndsTerm, kind])).trans fun z => ?_
  have hfound := rhs stop rest hr.endsFactor
  simp only [hr.found_termTail] at hfound
  rw [found_expressionTail_add kind]
  exact hfound.bind.trans fun w => ⟨w.stop, rfl⟩

theorem minus (lhs : Finds .expression ls l) (kind : token.kind = .operator .sub)
    (rhs : Finds .term rs r) : Finds .expression (ls ++ token :: rs) (.sub l r) := by
  intro stop rest hr
  rw [List.append_assoc, List.cons_append]
  refine (lhs stop _ (by simp [EndsTerm, kind])).trans fun z => ?_
  have hfound := rhs stop rest hr.endsFactor
  simp only [hr.found_termTail] at hfound
  rw [found_expressionTail_sub kind]
  exact hfound.bind.trans fun w => ⟨w.stop, rfl⟩

end Finds

theorem Derives.finds {p : Phrase} {e : Expr} (h : Derives p tokens e) : Finds p tokens e := by
  induction h with
  | imaginary signed counted kind => exact .imaginary signed counted kind
  | real signed kind read => exact .real signed kind read
  | conj kind opens closes inside ih => exact ih.conj kind opens closes inside.head_ne_closing
  | abs kind opens closes inside ih => exact ih.abs kind opens closes inside.head_ne_closing
  | group opens closes inside ih =>
    intro stop rest _
    rw [List.cons_append, List.append_assoc, List.singleton_append, found_factor_opening opens]
    exact ih.group closes inside.head_ne_closing
  | factor _ ih => exact ih.factor
  | times _ kind _ ihl ihr => exact ihl.times kind ihr
  | divided _ kind _ ihl ihr => exact ihl.divided kind ihr
  | term _ ih => exact ih.term
  | plus _ kind _ ihl ihr => exact ihl.plus kind ihr
  | minus _ kind _ ihl ihr => exact ihl.minus kind ihr

theorem derives_of_ofTokens {z : Complex} (h : ofTokens stop tokens = .ok z) :
    ∃ e, Derives .expression tokens e ∧ e.value? = some z := by
  rw [ofTokens_eq] at h
  obtain ⟨⟨last, rest⟩, hfound, hend⟩ := bind_eq_ok_iff.mp h
  obtain ⟨read, e, rfl, derived, hv⟩ := starts_expression hfound
  cases rest with
  | nil =>
    cases hend
    rw [List.append_nil]
    exact ⟨e, derived, hv⟩
  | cons token rest => cases hend

theorem Derives.ofTokens {e : Expr} (h : Derives .expression tokens e) (stop : Nat) :
    match e.value? with
    | some z => ofTokens stop tokens = .ok z
    | none => ∃ spans, ofTokens stop tokens = .error ⟨.divisionByZero, spans⟩ := by
  have hfound : Reaches (found (expression stop (tokens ++ []))) e.value? fun z => .ok (z, []) :=
    h.finds.complete (by simp [EndsExpression])
  rw [List.append_nil] at hfound
  rw [ofTokens_eq]
  cases hv : e.value? with
  | some z =>
    rw [hv] at hfound
    obtain ⟨last, hfound⟩ := hfound
    rw [hfound]
    rfl
  | none =>
    rw [hv] at hfound
    obtain ⟨spans, hfound⟩ := hfound
    exact ⟨spans, by rw [hfound]; rfl⟩

def tokensOf (input : String) : List (Token Kind) := lexicon.scan (Source.strip input)

theorem parse_eq_ofTokens {input : String} (h : tokensOf input ≠ []) :
    parse input = ofTokens (Source.strip input).stop (tokensOf input) := by
  rw [parse, ofSource]
  split
  · next hempty =>
    rw [Source.isEmpty, List.isEmpty_iff] at hempty
    simp [tokensOf, Lexicon.scan, hempty, Lexicon.scanFrom] at h
  · rfl

theorem parse_of_derives {input : String} {e : Expr} {w : Complex}
    (h : Derives .expression (tokensOf input) e) (value : e.value? = some w) :
    parse input = .ok w := by
  obtain ⟨token, tail, hcons, -⟩ := h.head_ne_closing
  have hread := h.ofTokens (Source.strip input).stop
  rw [value] at hread
  rw [parse_eq_ofTokens (by simp [hcons])]
  exact hread

theorem parse_ne_ok_of_nil {input : String} {z : Complex} (h : tokensOf input = []) :
    parse input ≠ .ok z := by
  intro hparse
  rw [parse, ofSource] at hparse
  split at hparse
  · cases hparse
  · obtain ⟨e, derived, -⟩ := derives_of_ofTokens hparse
    obtain ⟨token, tail, hcons, -⟩ := derived.head_ne_closing
    rw [← tokensOf, h] at hcons
    cases hcons

/-- An input is read as a number exactly if the grammar derives its tokens as an expression with
this value. However they are derived, an expression without a value fails to divide, and a `+` or a
`-` is the sign of a literal where a factor starts and a binary operator everywhere else. -/
theorem parse_eq_ok_iff_derives (input : String) :
    (∀ z, parse input = .ok z ↔ ∃ e, Derives .expression (tokensOf input) e ∧ e.value? = some z) ∧
    ∀ e, Derives .expression (tokensOf input) e →
      e.roles = rolesFrom true (tokensOf input) ∧
        (e.value? = none → ∃ spans, parse input = .error ⟨.divisionByZero, spans⟩) := by
  have hparse {e : Expr} (derived : Derives .expression (tokensOf input) e) :
      parse input = ofTokens (Source.strip input).stop (tokensOf input) := by
    obtain ⟨token, tail, hcons, -⟩ := derived.head_ne_closing
    exact parse_eq_ofTokens (by simp [hcons])
  refine ⟨fun z => ⟨fun h => ?_, ?_⟩, fun e derived => ⟨?_, fun hv => ?_⟩⟩
  · have hne : tokensOf input ≠ [] := fun hnil => parse_ne_ok_of_nil hnil h
    rw [parse_eq_ofTokens hne] at h
    exact derives_of_ofTokens h
  · rintro ⟨e, derived, hv⟩
    have hread := derived.ofTokens (Source.strip input).stop
    rw [hv] at hread
    exact (hparse derived).trans hread
  · simpa [rolesFrom] using (derived.rolesFrom []).symm
  · have hread := derived.ofTokens (Source.strip input).stop
    rw [hv] at hread
    rw [hparse derived]
    exact hread

/-- In `1-+i/0` the first sign is an operator and the second one belongs to the unit. -/
theorem parse_eq_error_of_unit_over_zero :
    (Expr.sub (.real none 1) (.div (.imaginary (some .plus) none) (.real none 0))).roles =
        [.operator, .sign] ∧
      rolesFrom true (tokensOf "1-+i/0") = [.operator, .sign] ∧
      ∃ spans, parse "1-+i/0" = .error ⟨.divisionByZero, spans⟩ := by
  have htokens : tokensOf "1-+i/0" =
      ([] ++ [⟨.number, ['1'], ⟨0, 1⟩⟩]) ++ ⟨.operator .sub, ['-'], ⟨1, 2⟩⟩ ::
        (([⟨.operator .add, ['+'], ⟨2, 3⟩⟩] ++ ([] ++ [⟨.unit, ['i'], ⟨3, 4⟩⟩])) ++
          ⟨.operator .div, ['/'], ⟨4, 5⟩⟩ :: ([] ++ [⟨.number, ['0'], ⟨5, 6⟩⟩])) := by
    decide +kernel
  have derived : Derives .expression (tokensOf "1-+i/0")
      (.sub (.real none 1) (.div (.imaginary (some .plus) none) (.real none 0))) := by
    rw [htokens]
    exact .minus (.term (.factor (.real .none rfl (by decide +kernel)))) rfl
      (.divided (.factor (.imaginary (.some .plus rfl) .none rfl)) rfl
        (.real .none rfl (by decide +kernel)))
  obtain ⟨hroles, herror⟩ := (parse_eq_ok_iff_derives "1-+i/0").2 _ derived
  exact ⟨rfl, hroles ▸ rfl, herror (by decide +kernel)⟩

end Calculator.Complex
