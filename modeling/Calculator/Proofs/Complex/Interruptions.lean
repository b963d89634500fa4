import Calculator.Proofs.Complex.Derivation
import Calculator.Proofs.Complex.Regions
import Calculator.Proofs.Text.Tiling

/-!
Divisions by zero in the middle of an expression. A division fails as soon as its divisor has been
read, before anything behind it is looked at. What was read by then is the front of an expression:
if the parentheses that it leaves open are closed it is one, and has no value. What is left may be
anything, so that an input with such a front is said to have no value even where it is malformed.
-/

set_option autoImplicit false
set_option relaxedAutoImplicit false

namespace Calculator.Complex

variable {edge : Nat → Prop} {stop last : Nat} {token operator opening name : Token Kind}
  {tokens rest left read divisor before front : List (Token Kind)} {z : Ended} {p q : Phrase}

theorem ReadTo.eq_append (h : ReadTo last left tokens) :
    ∃ before token, tokens = before ++ token :: left ∧ token.span.stop = last := by
  induction h with
  | here h => exact ⟨[], _, rfl, h⟩
  | @later token rest _ ih =>
    obtain ⟨before, final, rfl, hstop⟩ := ih
    exact ⟨token :: before, final, rfl, hstop⟩

theorem Derives.ne_nil {e : Expr} (h : Derives p tokens e) : tokens ≠ [] := by
  obtain ⟨token, tail, rfl, -⟩ := h.head_ne_closing
  exact List.cons_ne_nil token tail

theorem isExtent_divisorSpan (hread : ReadTo z.stop left (read ++ left)) (hne : read ≠ []) :
    (divisorSpan stop (read ++ left) z).IsExtent (Tokens.spans read) := by
  obtain ⟨before, final, htokens, hstop⟩ := hread.eq_append
  rw [List.append_cons] at htokens
  have hsplit := List.append_cancel_right htokens
  constructor
  · obtain ⟨first, more, rfl⟩ := List.exists_cons_of_ne_nil hne
    rfl
  · rw [hsplit, Tokens.spans, List.map_append, List.map_singleton, List.getLast?_concat]
    exact congrArg some hstop

theorem readTo_of_found (hstop : edge stop) (h : InOrder edge stop (Tokens.spans tokens))
    (hfound : found (factor stop tokens) = .ok (z, rest)) : ReadTo z.stop rest tokens := by
  have hlocated := factor_inOrder hstop h
  rw [hfound] at hlocated
  cases hlocated with
  | ok hread => exact hread

theorem inOrder_of_append (h : InOrder edge stop (Tokens.spans tokens))
    (hread : tokens = read ++ rest) :
    InOrder edge stop (Tokens.spans rest) :=
  h.part (hread ▸ (List.sublist_append_right read rest))

/-- An operator among tokens and behind it a divisor of modulus zero. -/
structure ZeroDivisor (tokens : List (Token Kind)) (operator : Token Kind)
    (divisor : List (Token Kind)) : Prop where
  placed : operator :: divisor <:+: tokens
  divides : operator.kind = .operator .div
  zero : ∃ e w, Derives .factor divisor e ∧ e.value? = some w ∧ (w.squaredModulus == 0) = true

/-- Tokens that end with a divisor of modulus zero, and with the parentheses closed that they leave
open are a phrase without a value. -/
structure Interrupts (p : Phrase) (front : List (Token Kind)) (operator : Token Kind)
    (divisor : List (Token Kind)) : Prop extends ZeroDivisor front operator divisor where
  last : operator :: divisor <:+ front
  completed : ∃ closings e, (∀ closing ∈ closings, closing.kind = .closing) ∧
    Derives p (front ++ closings) e ∧ e.value? = none

namespace Interrupts

variable {factors terms : List (Token Kind)} {op : Operator} {l r : Expr} {v w : Complex}

/-- The front of a part is the front of a phrase, given what stands before the part and which
parentheses close behind it. -/
theorem within (h : Interrupts p front operator divisor) (before more : List (Token Kind))
    (hmore : ∀ closing ∈ more, closing.kind = .closing)
    (hq : ∀ part e, Derives p part e → e.value? = none →
      ∃ e', Derives q (before ++ (part ++ more)) e' ∧ e'.value? = none) :
    Interrupts q (before ++ front) operator divisor := by
  have hlast : operator :: divisor <:+ before ++ front := h.last.trans (List.suffix_append _ _)
  obtain ⟨closings, e, hclosings, derived, hnone⟩ := h.completed
  obtain ⟨e', derived', hnone'⟩ := hq _ e derived hnone
  refine ⟨⟨hlast.isInfix, h.divides, h.zero⟩, hlast, closings ++ more, e', ?_, ?_, hnone'⟩
  · exact List.forall_mem_append.mpr ⟨hclosings, hmore⟩
  · simpa only [List.append_assoc] using derived'

theorem factor (h : Interrupts .factor front operator divisor) :
    Interrupts .term front operator divisor :=
  h.within [] [] (List.forall_mem_nil _) fun part e derived hnone =>
    ⟨e, by simpa using Derives.factor derived, hnone⟩

theorem term (h : Interrupts .term front operator divisor) :
    Interrupts .expression front operator divisor :=
  h.within [] [] (List.forall_mem_nil _) fun part e derived hnone =>
    ⟨e, by simpa using Derives.term derived, hnone⟩

theorem scaled (lhs : Derives .term factors l) (hl : l.value? = some v)
    (kind : token.kind = .operator op) (scales : op = .mul ∨ op = .div)
    (h : Interrupts .factor front operator divisor) :
    Interrupts .term (factors ++ token :: front) operator divisor := by
  rw [List.append_cons]
  refine h.within _ [] (List.forall_mem_nil _) fun part e derived hnone => ?_
  rw [List.append_nil, ← List.append_cons]
  rcases scales with rfl | rfl
  · exact ⟨_, .times lhs kind derived, by simp [Expr.value?, hl, hnone]⟩
  · exact ⟨_, .divided lhs kind derived, by simp [Expr.value?, hl, hnone]⟩

theorem shifted (lhs : Derives .expression terms l) (hl : l.value? = some v)
    (kind : token.kind = .operator op) (shifts : op = .add ∨ op = .sub)
    (h : Interrupts .term front operator divisor) :
    Interrupts .expression (terms ++ token :: front) operator divisor := by
  rw [List.append_cons]
  refine h.within _ [] (List.forall_mem_nil _) fun part e derived hnone => ?_
  rw [List.append_nil, ← List.append_cons]
  rcases shifts with rfl | rfl
  · exact ⟨_, .plus lhs kind derived, by simp [Expr.value?, hl, hnone]⟩
  · exact ⟨_, .minus lhs kind derived, by simp [Expr.value?, hl, hnone]⟩

def closer : Token Kind := ⟨.closing, [')'], Span.point 0⟩

theorem group (opens : opening.kind = .opening)
    (h : Interrupts .expression front operator divisor) :
    Interrupts .factor (opening :: front) operator divisor :=
  h.within [opening] [closer] (by simp [closer]) fun part e derived hnone =>
    ⟨e, .group opens rfl derived, hnone⟩

theorem call (calls : name.kind = .conj ∨ name.kind = .abs) (opens : opening.kind = .opening)
    (h : Interrupts .expression front operator divisor) :
    Interrupts .factor (name :: opening :: front) operator divisor := by
  refine h.within [name, opening] [closer] (by simp [closer]) fun part e derived hnone => ?_
  rcases calls with conj | abs
  · exact ⟨_, .conj conj opens rfl derived, by simp [Expr.value?, hnone]⟩
  · exact ⟨_, .abs abs opens rfl derived, by simp [Expr.value?, hnone]⟩

theorem squaredModulus_of_div?_eq_none (h : v.div? w = none) : (w.squaredModulus == 0) = true := by
  simp only [div?] at h
  split at h
  · assumption
  · cases h

theorem divided (lhs : Derives .term factors l) (hl : l.value? = some v)
    (div : token.kind = .operator .div) (rhs : Derives .factor divisor r) (hr : r.value? = some w)
    (hnone : v.div? w = none) : Interrupts .term (factors ++ token :: divisor) token divisor := by
  have hlast : token :: divisor <:+ factors ++ token :: divisor := List.suffix_append _ _
  refine ⟨⟨hlast.isInfix, div, r, w, rhs, hr, squaredModulus_of_div?_eq_none hnone⟩, hlast, [],
    .div l r, List.forall_mem_nil _, ?_, by simp [Expr.value?, hl, hr, hnone]⟩
  simpa using Derives.divided lhs div rhs

end Interrupts

/-- An error about a division by zero is about the end of what was read of a phrase, given the
tokens of it that were read before. -/
def Interrupted {α : Type} (p : Phrase) (before tokens : List (Token Kind))
    (x : Except Diagnostic α) : Prop :=
  ∀ d, x = .error d → d.cause = .divisionByZero → ∃ read rest operator divisor extent,
    tokens = read ++ rest ∧ Interrupts p (before ++ read) operator divisor ∧
      extent.IsExtent (Tokens.spans divisor) ∧ d.spans = [operator.span, extent]

namespace Interrupted

variable {α β : Type} {x : Except Diagnostic α}

theorem ok (a : α) : Interrupted p before tokens (.ok a) := by
  intro d h
  cases h

theorem error {d : Diagnostic} (h : (d.cause == .divisionByZero) = false) :
    Interrupted p before tokens (.error d : Except Diagnostic α) := by
  intro d' hd hcause
  cases hd
  rw [hcause] at h
  cases h

theorem bind {next : α → Except Diagnostic β} (h : Interrupted p before tokens x)
    (hnext : ∀ a, x = .ok a → Interrupted p before tokens (next a)) :
    Interrupted p before tokens (x >>= next) := by
  intro d hd
  rcases bind_eq_error_iff.mp hd with hx | ⟨a, hx, hrest⟩
  · exact h d hx
  · exact hnext a hx d hrest

theorem lift (h : Interrupted p [] rest x) (ahead : List (Token Kind))
    (hq : ∀ {front operator divisor}, Interrupts p front operator divisor →
      Interrupts q (before ++ (ahead ++ front)) operator divisor) :
    Interrupted q before (ahead ++ rest) x := by
  intro d hd hcause
  obtain ⟨read, left, operator, divisor, extent, rfl, hfront, hextent⟩ := h d hd hcause
  exact ⟨ahead ++ read, left, operator, divisor, extent, (List.append_assoc _ _ _).symm, hq hfront,
    hextent⟩

theorem append (h : Interrupted p (before ++ read) rest x) (hread : tokens = read ++ rest) :
    Interrupted p before tokens x := by
  intro d hd hcause
  obtain ⟨more, left, operator, divisor, extent, rfl, hfront, hextent⟩ := h d hd hcause
  rw [List.append_assoc] at hfront
  exact ⟨read ++ more, left, operator, divisor, extent, by rw [hread, List.append_assoc], hfront,
    hextent⟩

end Interrupted

theorem cause_notAFactor (token : Token Kind) :
    ((notAFactor token).cause == .divisionByZero) = false := by
  rw [notAFactor]
  cases token.kind <;> rfl

theorem cause_notClosed (opening : Token Kind) (tokens : List (Token Kind)) :
    ((notClosed opening tokens).cause == .divisionByZero) = false := by
  cases tokens <;> rfl

theorem cause_trailing (stop : Nat) (token : Token Kind) :
    ((trailing stop token).cause == .divisionByZero) = false := by
  rw [trailing]
  cases token.kind <;> rfl

theorem closingAfter_interrupted (opening : Token Kind) (z : Ended) (left : List (Token Kind)) :
    Interrupted p before tokens (closingAfter opening z left) := by
  cases left with
  | nil => exact .error (cause_notClosed opening [])
  | cons token rest =>
    rw [closingAfter]
    split
    · exact .ok _
    · exact .error (cause_notClosed opening _)

theorem divide_interrupted {product : Complex} {e f : Expr} (hb : Derives .term before e)
    (hv : e.value? = some product) (div : token.kind = .operator .div)
    (derived : Derives .factor read f) (hf : f.value? = some z.value)
    (hread : ReadTo z.stop left (read ++ left)) :
    Interrupted .term before (token :: (read ++ left))
      (divide token.span (divisorSpan stop (read ++ left) z) product z.value) := by
  intro d hd _
  rw [divide] at hd
  cases hquotient : product.div? z.value with
  | some quotient =>
    rw [hquotient] at hd
    cases hd
  | none =>
    rw [hquotient] at hd
    cases hd
    exact ⟨token :: read, left, token, read, _, rfl, .divided hb hv div derived hf hquotient,
      isExtent_divisorSpan hread derived.ne_nil, rfl⟩

mutual

theorem expression_interrupted (hstop : edge stop) {tokens : List (Token Kind)}
    (h : InOrder edge stop (Tokens.spans tokens)) :
    Interrupted .expression [] tokens (found (expression stop tokens)) := by
  rw [found_expression]
  refine ((term_interrupted hstop h).lift [] Interrupts.term).bind fun first hfirst => ?_
  have := length_lt_of_found hfirst
  obtain ⟨read, e, hread, derived, hv⟩ := starts_term hfirst
  exact (expressionTail_interrupted hstop (.term derived) hv
    (inOrder_of_append h hread)).append hread
termination_by (tokens.length, 4)

theorem expressionTail_interrupted (hstop : edge stop) {before tokens : List (Token Kind)}
    {sum : Ended} {e : Expr} (hb : Derives .expression before e) (hv : e.value? = some sum.value)
    (h : InOrder edge stop (Tokens.spans tokens)) :
    Interrupted .expression before tokens (found (expressionTail stop sum tokens)) := by
  match tokens with
  | [] =>
    rw [found_expressionTail_nil]
    exact .ok _
  | token :: rest =>
    by_cases add : token.kind = .operator .add
    · rw [found_expressionTail_add add]
      refine ((term_interrupted hstop h.tail).lift [token] fun hfront =>
        .shifted hb hv add (.inl rfl) hfront).bind fun next hnext => ?_
      have := length_lt_of_found hnext
      obtain ⟨read, f, hread, derived, hf⟩ := starts_term hnext
      have hsum : (Expr.add e f).value? = some (sum.value + next.1.value) := by
        simp [Expr.value?, hv, hf]
      exact (expressionTail_interrupted hstop (.plus hb add derived) hsum
        (inOrder_of_append h.tail hread)).append (by rw [hread]; rfl)
    by_cases sub : token.kind = .operator .sub
    · rw [found_expressionTail_sub sub]
      refine ((term_interrupted hstop h.tail).lift [token] fun hfront =>
        .shifted hb hv sub (.inr rfl) hfront).bind fun next hnext => ?_
      have := length_lt_of_found hnext
      obtain ⟨read, f, hread, derived, hf⟩ := starts_term hnext
      have hdiff : (Expr.sub e f).value? = some (sum.value - next.1.value) := by
        simp [Expr.value?, hv, hf]
      exact (expressionTail_interrupted hstop (.minus hb sub derived) hdiff
        (inOrder_of_append h.tail hread)).append (by rw [hread]; rfl)
    · rw [found_expressionTail_stay add sub]
      exact .ok _
termination_by (tokens.length, 3)

theorem term_interrupted (hstop : edge stop) {tokens : List (Token Kind)}
    (h : InOrder edge stop (Tokens.spans tokens)) :
    Interrupted .term [] tokens (found (term stop tokens)) := by
  rw [found_term]
  refine ((factor_interrupted hstop h).lift [] Interrupts.factor).bind fun first hfirst => ?_
  have := length_lt_of_found hfirst
  obtain ⟨read, e, hread, derived, hv⟩ := starts_factor hfirst
  exact (termTail_interrupted hstop (.factor derived) hv (inOrder_of_append h hread)).append hread
termination_by (tokens.length, 3)

theorem termTail_interrupted (hstop : edge stop) {before tokens : List (Token Kind)}
    {product : Ended} {e : Expr} (hb : Derives .term before e) (hv : e.value? = some product.value)
    (h : InOrder edge stop (Tokens.spans tokens)) :
    Interrupted .term before tokens (found (termTail stop product tokens)) := by
  match tokens with
  | [] =>
    rw [found_termTail_nil]
    exact .ok _
  | token :: rest =>
    by_cases mul : token.kind = .operator .mul
    · rw [found_termTail_mul mul]
      refine ((factor_interrupted hstop h.tail).lift [token] fun hfront =>
        .scaled hb hv mul (.inl rfl) hfront).bind fun next hnext => ?_
      have := length_lt_of_found hnext
      obtain ⟨read, f, hread, derived, hf⟩ := starts_factor hnext
      have hprod : (Expr.mul e f).value? = some (product.value * next.1.value) := by
        simp [Expr.value?, hv, hf]
      exact (termTail_interrupted hstop (.times hb mul derived) hprod
        (inOrder_of_append h.tail hread)).append (by rw [hread]; rfl)
    by_cases div : token.kind = .operator .div
    · rw [found_termTail_div div]
      refine ((factor_interrupted hstop h.tail).lift [token] fun hfront =>
        .scaled hb hv div (.inr rfl) hfront).bind fun next hnext => ?_
      have := length_lt_of_found hnext
      -- The divisor is what was read last, up to where it ends.
      have hend := readTo_of_found hstop h.tail hnext
      obtain ⟨read, f, hread, derived, hf⟩ := starts_factor hnext
      rw [hread] at hend ⊢
      refine (divide_interrupted hb hv div derived hf hend).bind fun quotient hdiv => ?_
      have hquot : (Expr.div e f).value? = some quotient := by
        simp [Expr.value?, hv, hf, div?_eq_some_of_divide hdiv]
      exact (termTail_interrupted hstop (.divided hb div derived) hquot
        (inOrder_of_append h.tail hread)).append (by rw [List.cons_append])
    · rw [found_termTail_stay mul div]
      exact .ok _
termination_by (tokens.length, 2)

theorem factor_interrupted (hstop : edge stop) {tokens : List (Token Kind)}
    (h : InOrder edge stop (Tokens.spans tokens)) :
    Interrupted .factor [] tokens (found (factor stop tokens)) := by
  match tokens with
  | [] =>
    rw [found_factor_nil]
    exact .error rfl
  | token :: rest =>
    by_cases conj : token.kind = .conj
    · rw [found_factor_conj conj]
      exact (argument_interrupted hstop (.inl conj) h.tail).bind fun _ _ => .ok _
    by_cases abs : token.kind = .abs
    · rw [found_factor_abs abs]
      exact (argument_interrupted hstop (.inr abs) h.tail).bind fun _ _ => .ok _
    by_cases opens : token.kind = .opening
    · rw [found_factor_opening opens]
      exact (group_interrupted hstop h.tail).lift [token] (.group opens)
    · rw [found_factor_literal conj abs opens]
      split
      · exact .ok _
      · exact .error (cause_notAFactor token)
termination_by (tokens.length, 2)

theorem argument_interrupted (hstop : edge stop) {name : Token Kind} {tokens : List (Token Kind)}
    (calls : name.kind = .conj ∨ name.kind = .abs)
    (h : InOrder edge stop (Tokens.spans tokens)) :
    Interrupted .factor [] (name :: tokens) (found (argument stop name tokens)) := by
  match tokens with
  | [] =>
    rw [found_argument_missing (by simp)]
    exact .error rfl
  | opening :: rest =>
    by_cases opens : opening.kind = .opening
    · rw [found_argument_open opens]
      exact (group_interrupted hstop h.tail).lift [name, opening] (.call calls opens)
    · rw [found_argument_missing (by simpa using opens)]
      exact .error rfl
termination_by (tokens.length, 1)

theorem group_interrupted (hstop : edge stop) {opening : Token Kind} {tokens : List (Token Kind)}
    (h : InOrder edge stop (Tokens.spans tokens)) :
    Interrupted .expression [] tokens (found (group stop opening tokens)) := by
  match tokens with
  | [] =>
    rw [found_group_nil]
    exact .error rfl
  | token :: rest =>
    by_cases closes : token.kind = .closing
    · rw [found_group_empty closes]
      exact .error rfl
    · rw [found_group closes]
      exact (expression_interrupted hstop h).bind fun _ _ => closingAfter_interrupted _ _ _
termination_by (tokens.length, 5)

end

theorem ofTokens_interrupted (hstop : edge stop) (h : InOrder edge stop (Tokens.spans tokens)) :
    Interrupted .expression [] tokens (ofTokens stop tokens) := by
  rw [ofTokens_eq]
  refine (expression_interrupted hstop h).bind fun all _ => ?_
  cases all.2 with
  | nil => exact .ok _
  | cons token rest => exact .error (cause_trailing stop token)

theorem parse_interrupted (input : String) :
    Interrupted .expression [] (tokensOf input) (parse input) := by
  rw [parse, ofSource]
  split
  · exact .error rfl
  · exact ofTokens_interrupted (Source.boundary_stop input) (Source.scan_inOrder lexicon input)

theorem cause_of_arithmetic {d : Diagnostic} (h : d.category = .arithmetic) :
    d.cause = .divisionByZero := by
  unfold Diagnostic.category Cause.category at h
  split at h
  · assumption
  · cases h

/-- An expression without a value fails to divide whatever comes next, if it does not go on with the
last product. -/
theorem Derives.error_before {e : Expr} (h : Derives .expression front e) (hv : e.value? = none)
    (stop : Nat) (hr : EndsTerm rest) :
    ∃ spans, found (expression stop (front ++ rest)) = .error ⟨.divisionByZero, spans⟩ := by
  have hfound := h.finds stop rest hr
  rwa [hv] at hfound

theorem Derives.last_ne_operator {e : Expr} (h : Derives p tokens e) :
    ∃ initial final, tokens = initial ++ [final] ∧ ∀ op, final.kind ≠ .operator op := by
  induction h with
  | @imaginary signs numbers unit _ _ _ _ kind =>
    exact ⟨signs ++ numbers, unit, by rw [List.append_assoc], by simp [kind]⟩
  | @real signs token _ _ _ kind _ => exact ⟨signs, token, rfl, by simp [kind]⟩
  | @conj name opening closing inner _ _ _ closes _ _
  | @abs name opening closing inner _ _ _ closes =>
    exact ⟨name :: opening :: inner, closing, rfl, by simp [closes]⟩
  | @group opening closing inner _ _ closes =>
    exact ⟨opening :: inner, closing, rfl, by simp [closes]⟩
  | factor _ ih | term _ ih => exact ih
  | @times before _ token _ _ _ _ _ _ ih | @divided before _ token _ _ _ _ _ _ ih
  | @plus before _ token _ _ _ _ _ _ ih | @minus before _ token _ _ _ _ _ _ ih =>
    obtain ⟨initial, final, rfl, hfinal⟩ := ih
    exact ⟨before ++ token :: initial, final, by simp, hfinal⟩

theorem one_over_zero (one slash zero : Span) (stop : Nat) (hr : EndsTerm rest) :
    ∃ spans, found (expression stop ([⟨.number, ['1'], one⟩, ⟨.operator .div, ['/'], slash⟩,
      ⟨.number, ['0'], zero⟩] ++ rest)) = .error ⟨.divisionByZero, spans⟩ := by
  have hone : Number.read? ['1'] = some 1 := by decide +kernel
  have hzero : Number.read? ['0'] = some 0 := by decide +kernel
  have derived : Derives .expression
      [⟨.number, ['1'], one⟩, ⟨.operator .div, ['/'], slash⟩, ⟨.number, ['0'], zero⟩]
      (.div (.real none 1) (.real none 0)) :=
    .term (.divided (.factor (.real .none rfl hone)) rfl (.real .none rfl hzero))
  exact derived.error_before (by decide +kernel) stop hr

/-- The tokens in front of an error about a division by zero end with the divisor, and with the
parentheses closed that they leave open are an expression without a value; the error is about the
operator and about this divisor. An input that is an expression is never called malformed. -/
theorem parse_error_category {input : String} {d : Diagnostic} (h : parse input = .error d) :
    (d.category = .arithmetic → ∃ front rest operator divisor extent,
      tokensOf input = front ++ rest ∧ Interrupts .expression front operator divisor ∧
        extent.IsExtent (Tokens.spans divisor) ∧ d.spans = [operator.span, extent]) ∧
    (d.category = .syntactic → ¬∃ e, Derives .expression (tokensOf input) e) := by
  constructor
  · intro hcategory
    exact parse_interrupted input d h (cause_of_arithmetic hcategory)
  · rintro hcategory ⟨e, derived⟩
    have hread := derived.ofTokens (Source.strip input).stop
    rw [← parse_eq_ofTokens derived.ne_nil, h] at hread
    split at hread
    · cases hread
    · obtain ⟨spans, herror⟩ := hread
      cases herror
      cases hcategory

theorem parse_error_category_of_open_call : ∃ d, parse "abs(1/0+" = .error d ∧
    ∃ front rest operator divisor extent, tokensOf "abs(1/0+" = front ++ rest ∧
      Interrupts .expression front operator divisor ∧
        extent.IsExtent (Tokens.spans divisor) ∧ d.spans = [operator.span, extent] := by
  have htokens : tokensOf "abs(1/0+" =
      ⟨.abs, ['a', 'b', 's'], ⟨0, 3⟩⟩ :: ⟨.opening, ['('], ⟨3, 4⟩⟩ ::
        ([⟨.number, ['1'], ⟨4, 5⟩⟩, ⟨.operator .div, ['/'], ⟨5, 6⟩⟩, ⟨.number, ['0'], ⟨6, 7⟩⟩] ++
          [⟨.operator .add, ['+'], ⟨7, 8⟩⟩]) := by
    decide +kernel
  have hplus : EndsTerm [⟨.operator .add, ['+'], ⟨7, 8⟩⟩] := by simp [EndsTerm]
  obtain ⟨spans, hfound⟩ :=
    one_over_zero ⟨4, 5⟩ ⟨5, 6⟩ ⟨6, 7⟩ (Source.strip "abs(1/0+").stop hplus
  have hparse : parse "abs(1/0+" = .error ⟨.divisionByZero, spans⟩ := by
    rw [parse_eq_ofTokens (by simp [htokens]), htokens, ofTokens_eq, found_expression, found_term,
      found_factor_abs rfl, found_argument_open rfl, List.cons_append, found_group (by simp),
      ← List.cons_append, hfound]
    rfl
  exact ⟨_, hparse, (parse_error_category hparse).1 rfl⟩

/-- A division by zero is reported although nothing stands behind the `+`. -/
theorem arithmetic_error_of_malformed :
    (∃ d, parse "1/0+" = .error d ∧ d.category = .arithmetic) ∧
      ¬∃ e, Derives .expression (tokensOf "1/0+") e := by
  have htokens : tokensOf "1/0+" =
      [⟨.number, ['1'], ⟨0, 1⟩⟩, ⟨.operator .div, ['/'], ⟨1, 2⟩⟩, ⟨.number, ['0'], ⟨2, 3⟩⟩] ++
        [⟨.operator .add, ['+'], ⟨3, 4⟩⟩] := by
    decide +kernel
  constructor
  · have hplus : EndsTerm [⟨.operator .add, ['+'], ⟨3, 4⟩⟩] := by simp [EndsTerm]
    obtain ⟨spans, hfound⟩ :=
      one_over_zero ⟨0, 1⟩ ⟨1, 2⟩ ⟨2, 3⟩ (Source.strip "1/0+").stop hplus
    refine ⟨⟨.divisionByZero, spans⟩, ?_, rfl⟩
    rw [parse_eq_ofTokens (by simp [htokens]), htokens, ofTokens_eq, hfound]
    rfl
  · rintro ⟨e, whole⟩
    obtain ⟨initial, final, hlast, hfinal⟩ := whole.last_ne_operator
    rw [htokens] at hlast
    obtain ⟨-, hplus⟩ := List.append_inj' hlast rfl
    cases hplus
    exact hfinal .add rfl

end Calculator.Complex
