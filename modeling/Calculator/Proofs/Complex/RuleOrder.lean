import Calculator.Proofs.Complex.Derivation
import Calculator.Proofs.Number.Zeros

/-!
The order of the rules for a literal. A number with both parts written out is a sum that is left to
the grammar if the rule for a real part comes first, and one literal if the rule for both parts
does. A literal binds more tightly than an operator beside it, so the two readings differ where
such a number is subtracted, multiplied or divided. Everywhere else they agree, up to the signs of
zeros, and so do the errors.
-/

set_option autoImplicit false
set_option relaxedAutoImplicit false

namespace Calculator.Complex

/-- The same number part by part, except for the signs of zeros. -/
structure Same (z w : Complex) : Prop where
  re : Binary64.Same z.re w.re
  im : Binary64.Same z.im w.im

namespace Same

variable {z w a b : Complex}

theorem refl (z : Complex) : Same z z := ⟨.refl _, .refl _⟩

theorem trans (h : Same z w) (h' : Same w a) : Same z a := ⟨h.re.trans h'.re, h.im.trans h'.im⟩

theorem add (h : Same z w) (h' : Same a b) : Same (z + a) (w + b) :=
  ⟨h.re.add h'.re, h.im.add h'.im⟩

theorem sub (h : Same z w) (h' : Same a b) : Same (z - a) (w - b) :=
  ⟨h.re.sub h'.re, h.im.sub h'.im⟩

theorem mul (h : Same z w) (h' : Same a b) : Same (z * a) (w * b) :=
  ⟨(h.re.mul h'.re).sub (h.im.mul h'.im), (h.re.mul h'.im).add (h.im.mul h'.re)⟩

theorem conj (h : Same z w) : Same z.conj w.conj := ⟨h.re, h.im.neg⟩

theorem abs (h : Same z w) : Same (real z.abs) (real w.abs) := ⟨h.re.hypot h.im, .refl _⟩

/-- Divisors that differ in the signs of zeros are both refused, or divide to quotients that differ
in no more than that. -/
theorem divide (h : Same z w) (h' : Same a b) (operator divisor : Span) :
    (∃ d, Complex.divide operator divisor z a = .error d ∧
        Complex.divide operator divisor w b = .error d) ∨
      ∃ p q, Complex.divide operator divisor z a = .ok p ∧
        Complex.divide operator divisor w b = .ok q ∧ Same p q := by
  have hmodulus : Binary64.Same a.squaredModulus b.squaredModulus :=
    (h'.re.mul h'.re).add (h'.im.mul h'.im)
  have hzero := hmodulus.beq_zero
  unfold Complex.divide div?
  cases ha : a.squaredModulus == 0 with
  | true =>
    rw [ha] at hzero
    simp only [ha, ← hzero, if_true]
    exact .inl ⟨_, rfl, rfl⟩
  | false =>
    rw [ha] at hzero
    simp only [ha, ← hzero, Bool.false_eq_true, if_false]
    exact .inr ⟨_, _, rfl, rfl, ((h.re.mul h'.re).add (h.im.mul h'.im)).div hmodulus ha,
      ((h.im.mul h'.re).sub (h.re.mul h'.im)).div hmodulus ha⟩

end Same

def SameResult : Except Diagnostic Complex → Except Diagnostic Complex → Prop
  | .ok z, .ok w => Same z w
  | .error d, .error d' => d = d'
  | _, _ => False

def startsProduct : List (Token Kind) → Bool
  | [] => false
  | token :: _ => token.kind = .operator .mul || token.kind = .operator .div

/-- What may start at a token. -/
inductive Place where
  /-- A summand: at the start of an expression, and after a binary `+`. -/
  | summand
  /-- Another operand: after a binary `-`, a `*` or a `/`. -/
  | operand
  /-- No factor. -/
  | inside

namespace Place

/-- The place after a token. A sign is a binary operator where no factor starts. -/
def next : Place → Kind → Place
  | .inside, .operator .add => .summand
  | .inside, .operator .sub => .operand
  | _, .operator .mul | _, .operator .div => .operand
  | _, .opening => .summand
  | _, _ => .inside

/-- A number with both parts that starts here is a whole term of a sum, and not subtracted. -/
def keepsApart : Place → List (Token Kind) → Bool
  | .inside, _ => true
  | .operand, tokens => (Rule.taken twoPartRule tokens).isNone
  | .summand, tokens => (Rule.taken twoPartRule tokens).all fun read => !startsProduct read.2

end Place

/-- No number with both parts is subtracted, multiplied or divided. -/
def standsApart (place : Place) : List (Token Kind) → Bool
  | [] => true
  | token :: rest => place.keepsApart (token :: rest) && standsApart (place.next token.kind) rest

section Places

variable {place : Place} {token unit : Token Kind} {tokens signs numbers rest : List (Token Kind)}

theorem standsApart_tail (h : standsApart place (token :: rest) = true) :
    standsApart (place.next token.kind) rest = true := by
  rw [standsApart, Bool.and_eq_true] at h
  exact h.2

theorem standsApart_after (h : standsApart place (token :: rest) = true) {after : Place}
    (hnext : place.next token.kind = after) : standsApart after rest = true :=
  hnext ▸ standsApart_tail h

theorem next_number (kind : token.kind = .number) : place.next token.kind = .inside := by
  rw [kind]
  cases place <;> rfl

theorem next_unit (kind : token.kind = .unit) : place.next token.kind = .inside := by
  rw [kind]
  cases place <;> rfl

theorem next_opening (kind : token.kind = .opening) : place.next token.kind = .summand := by
  rw [kind]
  cases place <;> rfl

theorem taken_of_operand (h : standsApart .operand tokens = true) :
    Rule.taken twoPartRule tokens = none := by
  cases tokens with
  | nil => rfl
  | cons token rest =>
    rw [standsApart, Bool.and_eq_true] at h
    exact Option.isNone_iff_eq_none.mp h.1

theorem startsProduct_of_summand {read : Ended × List (Token Kind)}
    (h : standsApart .summand tokens = true) (htaken : Rule.taken twoPartRule tokens = some read) :
    startsProduct read.2 = false := by
  cases tokens with
  | nil => cases htaken
  | cons token rest =>
    rw [standsApart, Bool.and_eq_true, Place.keepsApart, htaken] at h
    simpa using h.1

theorem standsApart_signs {sign : Option Sign} (signed : Signs signs sign)
    (h : standsApart place (signs ++ rest) = true) :
    ∃ after, standsApart after rest = true := by
  cases signed with
  | none => exact ⟨place, h⟩
  | some sign kind => exact ⟨_, standsApart_tail h⟩

theorem standsApart_unit {magnitude : Option Float} (counted : Counts numbers magnitude)
    (kind : unit.kind = .unit) (h : standsApart place (numbers ++ unit :: rest) = true) :
    standsApart .inside rest = true := by
  cases counted with
  | none => exact standsApart_after h (next_unit kind)
  | some number => exact standsApart_after (standsApart_tail h) (next_unit kind)

end Places

/-- The tokens of a number with both parts, with its value, its end, and what comes after it. -/
inductive TwoPart : List (Token Kind) → Ended × List (Token Kind) → Prop
  | intro {signs numbers rest : List (Token Kind)} {number sign unit : Token Kind}
      {first : Option Sign} {second : Sign} {value : Float} {magnitude : Option Float}
      (signed : Signs signs first) (kind : number.kind = .number)
      (read : Number.read? number.lexeme = some value)
      (binary : sign.kind = .operator second.operator) (counted : Counts numbers magnitude)
      (ends : unit.kind = .unit) :
      TwoPart (signs ++ number :: sign :: (numbers ++ unit :: rest))
        (⟨⟨Sign.factor first * value, Sign.factor (some second) * magnitude.getD 1⟩,
          unit.span.stop⟩, rest)

/-- Both parts of a number after its sign, given the factor that the sign stands for. -/
def partsAt (factor : Float) (tokens : List (Token Kind)) : Option (Ended × List (Token Kind)) :=
  match readNumber? tokens with
  | none | some (_, _, []) => none
  | some (re, _, sign :: rest) =>
    match signOf? sign.kind with
    | none => none
    | some second =>
      (unitAt rest).map fun read => (⟨⟨factor * re, second * read.1⟩, read.2.1⟩, read.2.2)

theorem taken_twoPartRule {tokens : List (Token Kind)} : Rule.taken twoPartRule tokens =
    partsAt (readSign tokens).1 (readSign tokens).2 := by
  unfold Rule.taken twoPartRule partsAt
  split
  · next h => simp only [h, Option.map_none]
  · next h => simp only [h, Option.map_none]
  · next sign _ h =>
    simp only [h]
    cases signOf? sign.kind with
    | none => rfl
    | some second =>
      simp only [← map_readUnit?, Option.map_map]
      rfl

theorem signOf?_eq_some {kind : Kind} {factor : Float} (h : signOf? kind = some factor) :
    ∃ sign : Sign, kind = .operator sign.operator ∧ factor = Sign.factor (some sign) := by
  unfold signOf? at h
  split at h
  · exact ⟨.plus, rfl, (Option.some.inj h).symm⟩
  · exact ⟨.minus, rfl, (Option.some.inj h).symm⟩
  · cases h

theorem signOf?_operator (sign : Sign) :
    signOf? (.operator sign.operator) = some (Sign.factor (some sign)) := by cases sign <;> rfl

theorem twoPart_of_taken {tokens : List (Token Kind)} {read : Ended × List (Token Kind)}
    (h : Rule.taken twoPartRule tokens = some read) : TwoPart tokens read := by
  obtain ⟨signs, first, htokens, signed, hfirst⟩ := signs_readSign tokens
  rw [taken_twoPartRule, partsAt] at h
  split at h
  · cases h
  · cases h
  · next re last sign between hnumber =>
    obtain ⟨number, hafter, kind, hread⟩ := readNumber?_eq_some hnumber
    split at h
    · cases h
    · next factor hsign =>
      obtain ⟨⟨amount, last, rest⟩, hunit, rfl⟩ := Option.map_eq_some_iff.mp h
      obtain ⟨second, binary, rfl⟩ := signOf?_eq_some hsign
      obtain ⟨numbers, magnitude, unit, hbetween, counted, rfl, ends⟩ := unitAt_eq_some hunit
      have hwhole : tokens = signs ++ number :: sign :: (numbers ++ unit :: rest) :=
        htokens.trans (by rw [hafter, hbetween])
      rw [hbetween, unitAt_append counted ends] at hunit
      simp only [Option.some.injEq, Prod.mk.injEq] at hunit
      rw [← hfirst, ← hunit.2.1, hwhole]
      exact .intro signed kind hread binary counted ends

/-- The rules in the order in which both parts of a number come before a real part alone. -/
abbrev swapped : Rule := firstOf [imaginaryRule, twoPartRule, realRule]

section Readers

variable {stop : Nat} {tokens rest : List (Token Kind)} {read : Ended × List (Token Kind)}
  {product : Ended} {rule : Rule}

theorem taken_firstOf_cons (rule : Rule) (rules : List Rule) :
    Rule.taken (firstOf (rule :: rules)) tokens =
      (rule.taken tokens).or (Rule.taken (firstOf rules) tokens) := by
  rw [Rule.taken, firstOf, Option.map_or]
  rfl

theorem taken_swapped_of_none (h : Rule.taken twoPartRule tokens = none) :
    Rule.taken swapped tokens = Rule.taken literal tokens := by
  simp only [← firstOf_eq_literal, swapped, taken_firstOf_cons, h, Option.none_or]

theorem found_termTail_ends (ends : startsProduct rest = false) :
    found (rule.termTail stop product rest) = .ok (product, rest) := by
  cases rest with
  | nil => exact rule.found_termTail_nil
  | cons token rest =>
    rw [startsProduct, Bool.or_eq_false_iff] at ends
    exact rule.found_termTail_stay (of_decide_eq_false ends.1) (of_decide_eq_false ends.2)

theorem found_term_of_factor (h : found (rule.factor stop tokens) = .ok read)
    (ends : startsProduct read.2 = false) : found (rule.term stop tokens) = .ok read := by
  rw [rule.found_term, h]
  exact found_termTail_ends ends

end Readers

/-- Two ways to go on with the value of a term: they agree on numbers that differ in the signs of
zeros, and the one that goes on with a real part may have the imaginary part added afterwards. -/
structure Joins (f g : Complex → Complex) : Prop where
  same {z w : Complex} (h : Same z w) : Same (f z) (g w)
  parts (x y : Float) : Same ⟨(f (real x)).re, (f (real x)).im + y⟩ (g ⟨x, y⟩)

theorem Joins.first : Joins (fun z => z) (fun z => z) where
  same h := h
  parts _ _ := ⟨.refl _, .zero_add Binary64.isZero_zero⟩

theorem Joins.next {s t : Complex} (h : Same s t) : Joins (fun z => s + z) (fun z => t + z) where
  same h' := h.add h'
  parts x y := by
    have him : Binary64.Same (s.im + 0) t.im :=
      (Binary64.Same.add_zero Binary64.isZero_zero).trans h.im
    exact ⟨h.re.add (.refl x), him.add (.refl y)⟩

namespace TwoPart

variable {stop : Nat} {tokens : List (Token Kind)} {read : Ended × List (Token Kind)}
  {f g : Complex → Complex}

theorem taken (h : TwoPart tokens read) : Rule.taken twoPartRule tokens = some read := by
  obtain ⟨signed, kind, value, binary, counted, ends⟩ := h
  rw [taken_twoPartRule, readSign_append signed (by simp [kind, signOf?]), partsAt]
  simp only [readNumber?_number kind value, binary, signOf?_operator, unitAt_append counted ends]
  rfl

theorem found_factor {rule : Rule} {first : Ended × List (Token Kind)} (h : TwoPart tokens read)
    (htaken : rule.taken tokens = some first) : found (rule.factor stop tokens) = .ok first := by
  obtain ⟨signed, kind⟩ := h
  cases signed with
  | none =>
    rw [List.nil_append] at htaken ⊢
    rw [rule.found_factor_literal (by simp [kind]) (by simp [kind]) (by simp [kind]), htaken]
  | some sign signs =>
    rw [List.singleton_append] at htaken ⊢
    rw [rule.found_factor_literal (by simp [signs]) (by simp [signs]) (by simp [signs]), htaken]

theorem found_swapped (h : TwoPart tokens read) :
    found (Rule.factor swapped stop tokens) = .ok read := by
  refine h.found_factor ?_
  have himaginary : Rule.taken imaginaryRule tokens = none := by
    obtain ⟨signed, kind, value, binary⟩ := h
    rw [Rule.taken, map_imaginaryRule, readSign_append signed (by simp [kind, signOf?]),
      unitAt_number kind value (by simp [EndsFactor, binary])]
    rfl
  simp only [swapped, taken_firstOf_cons, himaginary, h.taken, Option.none_or, Option.some_or]

end TwoPart

/-! The program's rule takes a real part alone, and leaves the imaginary one to the sum. -/

section Parts

variable {stop : Nat} {signs numbers rest : List (Token Kind)} {number sign unit : Token Kind}
  {first : Option Sign} {second : Sign} {value : Float} {magnitude : Option Float}

theorem startsProduct_sign (binary : sign.kind = .operator second.operator) :
    startsProduct (sign :: rest) = false := by
  cases second <;> simp [startsProduct, binary, Sign.operator]

theorem found_real (signed : Signs signs first) (kind : number.kind = .number)
    (read : Number.read? number.lexeme = some value)
    (binary : sign.kind = .operator second.operator) :
    found (Rule.term literal stop (signs ++ number :: sign :: rest)) =
      .ok (⟨real (Sign.factor first * value), number.span.stop⟩, sign :: rest) := by
  have hends : EndsFactor (sign :: rest) := by simp [EndsFactor, binary]
  refine found_term_of_factor ?_ (startsProduct_sign binary)
  rw [Rule.factor_literal]
  exact found_factor_of_literalAt (literalAt_real signed kind read hends rfl)

theorem found_unit (counted : Counts numbers magnitude) (kind : unit.kind = .unit)
    (ends : startsProduct rest = false) :
    found (Rule.term literal stop (numbers ++ unit :: rest)) =
      .ok (⟨imaginary (1 * magnitude.getD 1), unit.span.stop⟩, rest) := by
  have hread := @literalAt_imaginary _ rest [] numbers unit none magnitude .none counted kind rfl
  rw [Sign.factor] at hread
  refine found_term_of_factor ?_ ends
  rw [Rule.factor_literal]
  exact found_factor_of_literalAt hread

/-- The sum goes on with the imaginary part, and only the signs of zeros depend on how it is
added. -/
theorem found_expressionTail_unit (sum : Ended) (binary : sign.kind = .operator second.operator)
    (counted : Counts numbers magnitude) (kind : unit.kind = .unit)
    (ends : startsProduct rest = false) :
    ∃ z, Same z ⟨sum.value.re, sum.value.im + Sign.factor (some second) * magnitude.getD 1⟩ ∧
      found (Rule.expressionTail literal stop sum (sign :: (numbers ++ unit :: rest))) =
        found (Rule.expressionTail literal stop ⟨z, unit.span.stop⟩ rest) := by
  have hzero (x : Float) : Binary64.Same (x - 0) x := by
    rw [Binary64.sub_eq_add_neg]
    exact .add_zero (Binary64.isZero_neg Binary64.isZero_zero)
  cases second with
  | plus =>
    refine ⟨sum.value + imaginary (1 * magnitude.getD 1),
      ⟨.add_zero Binary64.isZero_zero, .refl _⟩, ?_⟩
    rw [Rule.found_expressionTail_add literal binary, found_unit counted kind ends]
    rfl
  | minus =>
    refine ⟨sum.value - imaginary (1 * magnitude.getD 1), ⟨hzero _, .inl ?_⟩, ?_⟩
    · change sum.value.im - 1 * magnitude.getD 1 = sum.value.im + -1 * magnitude.getD 1
      rw [Binary64.sub_eq_add_neg, Binary64.neg_one_mul]
    · rw [Rule.found_expressionTail_sub literal binary, found_unit counted kind ends]
      rfl

end Parts

theorem TwoPart.found_literal {stop : Nat} {tokens : List (Token Kind)}
    {read : Ended × List (Token Kind)} {f g : Complex → Complex} (h : TwoPart tokens read)
    (ends : startsProduct read.2 = false) (joins : Joins f g) :
    ∃ z, Same z (g read.1.value) ∧
      (found (Rule.term literal stop tokens) >>= fun first =>
        found (Rule.expressionTail literal stop ⟨f first.1.value, first.1.stop⟩ first.2)) =
        found (Rule.expressionTail literal stop ⟨z, read.1.stop⟩ read.2) := by
  obtain @⟨_, _, _, number, _, _, first, second, value, magnitude, signed, kind, hread, binary,
    counted, unit⟩ := h
  obtain ⟨z, same, htail⟩ := found_expressionTail_unit
    ⟨f (real (Sign.factor first * value)), number.span.stop⟩ binary counted unit ends
  refine ⟨z, same.trans (joins.parts _ _), ?_⟩
  rw [found_real signed kind hread binary]
  exact htail

/-! The two orders read alike. -/

/-- What comes after a literal, a call or a group stands apart too. -/
inductive Alike : Found → Found → Prop
  | ok {z w : Complex} {last : Nat} {rest : List (Token Kind)} (same : Same z w)
      (apart : standsApart .inside rest = true) :
      Alike (.ok (⟨z, last⟩, rest)) (.ok (⟨w, last⟩, rest))
  | error (d : Diagnostic) : Alike (.error d) (.error d)

theorem Alike.bind {x y : Found} {next next' : Ended × List (Token Kind) → Found} (h : Alike x y)
    (hn : ∀ z w last rest, x = .ok (⟨z, last⟩, rest) → Same z w → standsApart .inside rest = true →
      Alike (next (⟨z, last⟩, rest)) (next' (⟨w, last⟩, rest))) :
    Alike (x >>= next) (y >>= next') := by
  cases h with
  | ok same apart => exact hn _ _ _ _ rfl same apart
  | error d => exact .error d

section Apart

variable {place : Place} {tokens : List (Token Kind)} {read : Ended × List (Token Kind)}

theorem TwoPart.standsApart (h : TwoPart tokens read)
    (apart : Complex.standsApart place tokens = true) :
    Complex.standsApart .inside read.2 = true := by
  obtain ⟨signed, kind, -, binary, counted, ends⟩ := h
  obtain ⟨after, hafter⟩ := standsApart_signs signed apart
  exact standsApart_unit counted ends (standsApart_tail (standsApart_tail hafter))

theorem standsApart_of_taken (h : Rule.taken literal tokens = some read)
    (apart : standsApart place tokens = true) : standsApart .inside read.2 = true := by
  obtain ⟨signs, sign, htokens, signed, -⟩ := signs_readSign tokens
  rw [htokens] at apart
  obtain ⟨after, hafter⟩ := standsApart_signs signed apart
  rw [taken_literal, literalAt, Option.or_eq_some_iff] at h
  rcases h with h | ⟨-, h⟩
  · obtain ⟨⟨value, last, rest⟩, hunit, rfl⟩ := Option.map_eq_some_iff.mp h
    obtain ⟨numbers, magnitude, unit, hn, counted, -, kind⟩ := unitAt_eq_some hunit
    rw [hn] at hafter
    exact standsApart_unit counted kind hafter
  · obtain ⟨⟨value, last, rest⟩, hnumber, rfl⟩ := Option.map_eq_some_iff.mp h
    obtain ⟨token, hn, kind, -⟩ := numberAt_eq_some hnumber
    rw [hn] at hafter
    exact standsApart_after hafter (next_number kind)

end Apart

section Alike

variable {stop : Nat}

mutual

theorem alike_expression {tokens : List (Token Kind)}
    (apart : standsApart .summand tokens = true) :
    Alike (found (Rule.expression literal stop tokens))
      (found (Rule.expression swapped stop tokens)) := by
  rw [Rule.found_expression, Rule.found_expression]
  exact alike_summand .first apart
termination_by (tokens.length, 5)

/-- A number with both parts is one literal in one order and two terms in the other, so that terms
are compared together with what follows them in the sum. -/
theorem alike_summand {tokens : List (Token Kind)} {f g : Complex → Complex} (joins : Joins f g)
    (apart : standsApart .summand tokens = true) :
    Alike
      (found (Rule.term literal stop tokens) >>= fun first =>
        found (Rule.expressionTail literal stop ⟨f first.1.value, first.1.stop⟩ first.2))
      (found (Rule.term swapped stop tokens) >>= fun first =>
        found (Rule.expressionTail swapped stop ⟨g first.1.value, first.1.stop⟩ first.2)) := by
  cases htaken : Rule.taken twoPartRule tokens with
  -- Both orders read the same first factor.
  | none =>
    refine (alike_term apart htaken).bind fun z w last between hz same hb => ?_
    have := length_lt_of_found hz
    exact alike_expressionTail (joins.same same) hb
  -- One order reads all of the number; the other one has done so after one more term.
  | some read =>
    have hparts := twoPart_of_taken htaken
    have hends := startsProduct_of_summand apart htaken
    have hswapped : found (Rule.term swapped stop tokens) = .ok read :=
      found_term_of_factor hparts.found_swapped hends
    have := length_lt_of_found hswapped
    obtain ⟨z, same, hliteral⟩ := hparts.found_literal hends joins
    rw [hliteral, hswapped]
    exact alike_expressionTail same (hparts.standsApart apart)
termination_by (tokens.length, 4)

theorem alike_expressionTail {tokens : List (Token Kind)} {sum sum' : Complex} {last : Nat}
    (same : Same sum sum') (apart : standsApart .inside tokens = true) :
    Alike (found (Rule.expressionTail literal stop ⟨sum, last⟩ tokens))
      (found (Rule.expressionTail swapped stop ⟨sum', last⟩ tokens)) := by
  match tokens with
  | [] =>
    rw [Rule.found_expressionTail_nil, Rule.found_expressionTail_nil]
    exact .ok same apart
  | token :: rest =>
    by_cases add : token.kind = .operator .add
    · rw [Rule.found_expressionTail_add _ add, Rule.found_expressionTail_add _ add]
      exact alike_summand (.next same) (standsApart_after apart (by rw [add]; rfl))
    by_cases sub : token.kind = .operator .sub
    · rw [Rule.found_expressionTail_sub _ sub, Rule.found_expressionTail_sub _ sub]
      have hoperand : standsApart .operand rest = true :=
        standsApart_after apart (by rw [sub]; rfl)
      refine (alike_term hoperand (taken_of_operand hoperand)).bind
        fun z w last between hz same' hb => ?_
      have := length_lt_of_found hz
      exact alike_expressionTail (same.sub same') hb
    · rw [Rule.found_expressionTail_stay _ add sub, Rule.found_expressionTail_stay _ add sub]
      exact .ok same apart
termination_by (tokens.length, 3)

theorem alike_term {place : Place} {tokens : List (Token Kind)}
    (apart : standsApart place tokens = true) (none : Rule.taken twoPartRule tokens = none) :
    Alike (found (Rule.term literal stop tokens)) (found (Rule.term swapped stop tokens)) := by
  rw [Rule.found_term, Rule.found_term]
  refine (alike_factor apart none).bind fun z w last between hz same hb => ?_
  have := length_lt_of_found hz
  exact alike_termTail same hb
termination_by (tokens.length, 3)

theorem alike_termTail {tokens : List (Token Kind)} {product product' : Complex} {last : Nat}
    (same : Same product product') (apart : standsApart .inside tokens = true) :
    Alike (found (Rule.termTail literal stop ⟨product, last⟩ tokens))
      (found (Rule.termTail swapped stop ⟨product', last⟩ tokens)) := by
  match tokens with
  | [] =>
    rw [Rule.found_termTail_nil, Rule.found_termTail_nil]
    exact .ok same apart
  | token :: rest =>
    by_cases mul : token.kind = .operator .mul
    · rw [Rule.found_termTail_mul _ mul, Rule.found_termTail_mul _ mul]
      have hoperand : standsApart .operand rest = true :=
        standsApart_after apart (by rw [mul]; rfl)
      refine (alike_factor hoperand (taken_of_operand hoperand)).bind
        fun z w last between hz same' hb => ?_
      have := length_lt_of_found hz
      exact alike_termTail (same.mul same') hb
    by_cases div : token.kind = .operator .div
    · rw [Rule.found_termTail_div _ div, Rule.found_termTail_div _ div]
      have hoperand : standsApart .operand rest = true :=
        standsApart_after apart (by rw [div]; rfl)
      refine (alike_factor hoperand (taken_of_operand hoperand)).bind
        fun z w last between hz same' hb => ?_
      have := length_lt_of_found hz
      simp only [divisorSpan]
      rcases same.divide same' token.span ⟨(frontSpan stop rest).start, last⟩ with
        ⟨d, hd, hd'⟩ | ⟨p, q, hp, hq, same⟩
      · rw [hd, hd']
        exact .error d
      · rw [hp, hq]
        exact alike_termTail same hb
    · rw [Rule.found_termTail_stay _ mul div, Rule.found_termTail_stay _ mul div]
      exact .ok same apart
termination_by (tokens.length, 2)

theorem alike_factor {place : Place} {tokens : List (Token Kind)}
    (apart : standsApart place tokens = true) (none : Rule.taken twoPartRule tokens = none) :
    Alike (found (Rule.factor literal stop tokens)) (found (Rule.factor swapped stop tokens)) := by
  match tokens with
  | [] =>
    rw [Rule.found_factor_nil, Rule.found_factor_nil]
    exact .error _
  | token :: rest =>
    by_cases conj : token.kind = .conj
    · rw [Rule.found_factor_conj _ conj, Rule.found_factor_conj _ conj]
      refine (alike_argument (standsApart_tail apart)).bind fun z w last between hz same hb => ?_
      exact .ok same.conj hb
    by_cases abs : token.kind = .abs
    · rw [Rule.found_factor_abs _ abs, Rule.found_factor_abs _ abs]
      refine (alike_argument (standsApart_tail apart)).bind fun z w last between hz same hb => ?_
      exact .ok same.abs hb
    by_cases opens : token.kind = .opening
    · rw [Rule.found_factor_opening _ opens, Rule.found_factor_opening _ opens]
      exact alike_group (standsApart_after apart (next_opening opens))
    · rw [Rule.found_factor_literal _ conj abs opens, Rule.found_factor_literal _ conj abs opens,
        taken_swapped_of_none none]
      cases htaken : Rule.taken literal (token :: rest) with
      | none => exact .error _
      | some read => exact .ok (.refl _) (standsApart_of_taken htaken apart)
termination_by (tokens.length, 2)

theorem alike_argument {place : Place} {name : Token Kind} {tokens : List (Token Kind)}
    (apart : standsApart place tokens = true) :
    Alike (found (Rule.argument literal stop name tokens))
      (found (Rule.argument swapped stop name tokens)) := by
  by_cases opens : ∀ opening ∈ tokens.head?, opening.kind ≠ .opening
  · rw [Rule.found_argument_missing _ opens, Rule.found_argument_missing _ opens]
    exact .error _
  · match tokens with
    | [] => exact absurd (by simp) opens
    | opening :: rest =>
      have opens : opening.kind = .opening := by simpa using opens
      rw [Rule.found_argument_open _ opens, Rule.found_argument_open _ opens]
      exact alike_group (standsApart_after apart (next_opening opens))
termination_by (tokens.length, 1)

theorem alike_group {opening : Token Kind} {tokens : List (Token Kind)}
    (apart : standsApart .summand tokens = true) :
    Alike (found (Rule.group literal stop opening tokens))
      (found (Rule.group swapped stop opening tokens)) := by
  match tokens with
  | [] =>
    rw [Rule.found_group_nil, Rule.found_group_nil]
    exact .error _
  | token :: rest =>
    by_cases closes : token.kind = .closing
    · rw [Rule.found_group_empty _ closes, Rule.found_group_empty _ closes]
      exact .error _
    · rw [Rule.found_group _ closes, Rule.found_group _ closes]
      refine (alike_expression apart).bind fun z w last between hz same hb => ?_
      match between with
      | [] => exact .error _
      | closing :: after =>
        by_cases closes : closing.kind = .closing
        · simp only [closingAfter, closes, if_true]
          exact .ok same (standsApart_after hb (by rw [closes]; rfl))
        · simp only [closingAfter, closes, if_false]
          exact .error _
termination_by (tokens.length, 6)

end

end Alike

theorem sameResult_ofTokens {stop : Nat} {tokens : List (Token Kind)}
    (apart : standsApart .summand tokens = true) :
    SameResult (Rule.ofTokens literal stop tokens) (Rule.ofTokens swapped stop tokens) := by
  have halike : Alike (found (Rule.expression literal stop tokens))
      (found (Rule.expression swapped stop tokens)) := alike_expression apart
  rw [Rule.ofTokens_eq, Rule.ofTokens_eq]
  generalize found (Rule.expression literal stop tokens) = x at halike ⊢
  generalize found (Rule.expression swapped stop tokens) = y at halike ⊢
  cases halike with
  | error d => exact rfl
  | @ok z w last rest same =>
    cases rest with
    | nil => exact same
    | cons token rest => exact rfl

/-- Reading complex arithmetic with the rule for a real part before the one for both parts, as the
program does, or the other way round gives the same number except for the signs of zeros, or the
same error, as long as no number with both parts is subtracted, multiplied or divided. -/
theorem parse_same_of_standsApart :
    Rule.parse (firstOf [imaginaryRule, realRule, twoPartRule]) = parse ∧
      ∀ input, standsApart .summand (tokensOf input) = true →
        SameResult (parse input)
          (Rule.parse (firstOf [imaginaryRule, twoPartRule, realRule]) input) := by
  refine ⟨by rw [firstOf_eq_literal, Rule.parse_literal], fun input apart => ?_⟩
  rw [← Rule.parse_literal, Rule.parse, Rule.parse]
  split
  · exact rfl
  · exact sameResult_ofTokens apart

theorem parse_same_of_group_and_summand :
    standsApart .summand (tokensOf "(-1+2i)+3-i") = true ∧
      SameResult (parse "(-1+2i)+3-i")
        (Rule.parse (firstOf [imaginaryRule, twoPartRule, realRule]) "(-1+2i)+3-i") := by
  have apart : standsApart .summand (tokensOf "(-1+2i)+3-i") = true := by decide +kernel
  exact ⟨apart, parse_same_of_standsApart.2 _ apart⟩

theorem found_product_swapped {stop : Nat} {number times : Token Kind} {value : Float}
    {tokens : List (Token Kind)} {read : Ended × List (Token Kind)} (kind : number.kind = .number)
    (hread : Number.read? number.lexeme = some value) (mul : times.kind = .operator .mul)
    (h : TwoPart tokens read) (ends : startsProduct read.2 = false) :
    found (Rule.term swapped stop (number :: times :: tokens)) =
      .ok (⟨real (1 * value) * read.1.value, read.1.stop⟩, read.2) := by
  have hends : EndsFactor (times :: tokens) := by simp [EndsFactor, mul]
  have halone : Rule.taken twoPartRule (number :: times :: tokens) = none := by
    simp [taken_twoPartRule, readSign, partsAt, readNumber?_number kind hread, kind, mul, signOf?]
  have hfirst : Rule.taken swapped (number :: times :: tokens) =
      some (⟨real (1 * value), number.span.stop⟩, times :: tokens) := by
    have hreal := literalAt_real .none kind hread hends rfl
    rw [Sign.factor] at hreal
    rw [taken_swapped_of_none halone, taken_literal]
    exact hreal
  rw [Rule.found_term,
    Rule.found_factor_literal _ (by simp [kind]) (by simp [kind]) (by simp [kind]), hfirst]
  change found (Rule.termTail swapped stop _ (times :: tokens)) = _
  rw [Rule.found_termTail_mul _ mul, h.found_swapped]
  exact found_termTail_ends ends

/-- In `2*3-4i` only the `3` is multiplied, but all of `3-4i` would be if it were one literal. -/
theorem product_swallows_difference :
    parse "2*3-4i" = .ok ⟨6, -4⟩ ∧
      Rule.parse (firstOf [imaginaryRule, twoPartRule, realRule]) "2*3-4i" = .ok ⟨6, -8⟩ ∧
      ¬SameResult (parse "2*3-4i")
        (Rule.parse (firstOf [imaginaryRule, twoPartRule, realRule]) "2*3-4i") := by
  let two : Token Kind := ⟨.number, ['2'], ⟨0, 1⟩⟩
  let times : Token Kind := ⟨.operator .mul, ['*'], ⟨1, 2⟩⟩
  let three : Token Kind := ⟨.number, ['3'], ⟨2, 3⟩⟩
  let minus : Token Kind := ⟨.operator .sub, ['-'], ⟨3, 4⟩⟩
  let four : Token Kind := ⟨.number, ['4'], ⟨4, 5⟩⟩
  let unit : Token Kind := ⟨.unit, ['i'], ⟨5, 6⟩⟩
  have htokens : tokensOf "2*3-4i" = [two, times, three, minus, four, unit] := by decide +kernel
  have htwo : Number.read? two.lexeme = some 2 := by decide +kernel
  have hthree : Number.read? three.lexeme = some 3 := by decide +kernel
  have hfour : Number.read? four.lexeme = some 4 := by decide +kernel
  have hliteral : parse "2*3-4i" = .ok ⟨6, -4⟩ := by
    have derived : Derives .expression (tokensOf "2*3-4i")
        (.sub (.mul (.real none 2) (.real none 3)) (.imaginary none (some 4))) := by
      rw [htokens]
      exact .minus
        (.term (.times (.factor (.real .none rfl htwo)) rfl (.real .none rfl hthree))) rfl
        (.factor (.imaginary .none (.some rfl hfour) rfl))
    exact parse_of_derives derived (by decide +kernel)
  have hswapped : Rule.parse swapped "2*3-4i" = .ok ⟨6, -8⟩ := by
    have hparts : TwoPart [three, minus, four, unit] (⟨⟨1 * 3, -1 * 4⟩, 6⟩, []) :=
      @TwoPart.intro [] [four] [] three minus unit none .minus 3 (some 4) .none rfl hthree rfl
        (.some rfl hfour) rfl
    have hstrip : (Source.strip "2*3-4i").isEmpty = false := by decide +kernel
    rw [Rule.parse, hstrip]
    simp only [Bool.false_eq_true, if_false]
    change Rule.ofTokens swapped _ (tokensOf "2*3-4i") = _
    rw [htokens, Rule.ofTokens_eq, Rule.found_expression,
      found_product_swapped rfl htwo rfl hparts rfl]
    change (found (Rule.expressionTail swapped _ _ []) >>= _) = _
    rw [Rule.found_expressionTail_nil]
    exact congrArg Except.ok (by decide +kernel)
  refine ⟨hliteral, hswapped, ?_⟩
  rw [hliteral, hswapped]
  exact fun same => absurd same.im (by decide +kernel)

end Calculator.Complex
