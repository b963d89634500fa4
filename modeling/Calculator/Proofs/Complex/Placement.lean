import Calculator.Proofs.Complex.Reading
import Calculator.Proofs.Text.Places

/-!
Complex arithmetic decides nothing by offsets. From tokens that are alike every reader finds the
same value and leaves tokens that are alike, or it finds the same error.
-/

set_option autoImplicit false
set_option relaxedAutoImplicit false

namespace Calculator.Complex

variable {places : Places}

structure Found.Alike (places : Places) (a b : Ended × List (Token Kind)) : Prop where
  value : a.1.value = b.1.value
  stop : places.stops a.1.stop b.1.stop
  rest : Tokens.Alike places a.2 b.2

variable {token token' opening opening' name name' : Token Kind}
  {tokens tokens' rest rest' : List (Token Kind)} {z z' : Ended}

theorem notAFactor_alike (ht : token.Alike places token') :
    (notAFactor token).Alike places.Region (notAFactor token') := by
  rw [notAFactor, notAFactor, ← ht.kind, ← ht.text]
  cases token.kind with
  | number | unit | conj | abs | operator | opening | closing | symbol =>
    exact .one (.run ht.span) _

theorem notClosed_alike (ho : opening.Alike places opening')
    (h : Tokens.Alike places tokens tokens') :
    (notClosed opening tokens).Alike places.Region (notClosed opening' tokens') := by
  cases h with
  | nil => exact .one (.run ho.span) _
  | cons ht _ =>
    rw [notClosed, notClosed, ← ht.text]
    exact .one (.run ht.span) _

theorem trailing_alike (ht : token.Alike places token') :
    (trailing places.left token).Alike places.Region (trailing places.right token') := by
  rw [trailing, trailing, ← ht.kind, ← ht.text]
  cases token.kind with
  | closing | symbol => exact .one (.run ht.span) _
  | number | unit | conj | abs | operator | opening => exact .one (.rest ht.span) _

structure Count.Alike (places : Places) (a b : Float × Nat × List (Token Kind)) : Prop where
  value : a.1 = b.1
  stop : places.stops a.2.1 b.2.1
  rest : Tokens.Alike places a.2.2 b.2.2

theorem readSign_alike (h : Tokens.Alike places tokens tokens') :
    (readSign tokens).1 = (readSign tokens').1 ∧
      Tokens.Alike places (readSign tokens).2 (readSign tokens').2 := by
  cases h with
  | nil => exact ⟨rfl, .nil⟩
  | cons ht hrest =>
    simp only [readSign, ← ht.kind]
    split
    · exact ⟨rfl, hrest⟩
    · exact ⟨rfl, .cons ht hrest⟩

theorem readNumber?_alike (h : Tokens.Alike places tokens tokens') :
    Option.Rel (Count.Alike places) (readNumber? tokens) (readNumber? tokens') := by
  cases h with
  | nil => exact .none
  | @cons token token' _ _ ht hrest =>
    simp only [readNumber?, ← ht.kind, ← ht.lexeme]
    split
    · cases Number.read? token.lexeme with
      | none => exact .none
      | some value => exact .some ⟨rfl, ht.span.stop, hrest⟩
    · exact .none

theorem unit_alike (value : Float) (ht : token.Alike places token')
    (hrest : Tokens.Alike places rest rest') :
    Option.Rel (Count.Alike places)
      (if token.kind = .unit then some (value, token.span.stop, rest) else none)
      (if token'.kind = .unit then some (value, token'.span.stop, rest') else none) := by
  rw [← ht.kind]
  split
  · exact .some ⟨rfl, ht.span.stop, hrest⟩
  · exact .none

theorem unitAt_alike (h : Tokens.Alike places tokens tokens') :
    Option.Rel (Count.Alike places) (unitAt tokens) (unitAt tokens') := by
  have hnumber := readNumber?_alike h
  simp only [unitAt]
  generalize readNumber? tokens = number at hnumber ⊢
  generalize readNumber? tokens' = number' at hnumber ⊢
  cases hnumber with
  | none =>
    cases h with
    | nil => exact .none
    | cons ht hrest => exact unit_alike 1 ht hrest
  | @some count count' hcount =>
    obtain ⟨value, stop, left⟩ := count
    obtain ⟨value', stop', left'⟩ := count'
    obtain ⟨hvalue, -, hleft⟩ := hcount
    cases hvalue
    cases hleft with
    | nil => exact .none
    | cons ht hrest => exact unit_alike value ht hrest

theorem numberAt_alike (h : Tokens.Alike places tokens tokens') :
    Option.Rel (Count.Alike places) (numberAt tokens) (numberAt tokens') := by
  have hnumber := readNumber?_alike h
  simp only [numberAt]
  generalize readNumber? tokens = number at hnumber ⊢
  generalize readNumber? tokens' = number' at hnumber ⊢
  cases hnumber with
  | none => exact .none
  | @some count count' hcount =>
    obtain ⟨value, stop, left⟩ := count
    obtain ⟨value', stop', left'⟩ := count'
    have hkind : left.head?.map Token.kind = left'.head?.map Token.kind := by
      cases hcount.rest with
      | nil => rfl
      | cons ht _ => exact congrArg some ht.kind
    simp only [← hkind]
    split
    · exact .none
    · exact .some hcount

theorem literalAt_alike (factor : Float) (h : Tokens.Alike places tokens tokens') :
    Option.Rel (Found.Alike places) (literalAt factor tokens) (literalAt factor tokens') := by
  rw [literalAt, literalAt]
  have found (part : Float → Complex) {count count' : Float × Nat × List (Token Kind)}
      (hcount : Count.Alike places count count') : Found.Alike places
        (⟨part (factor * count.1), count.2.1⟩, count.2.2)
        (⟨part (factor * count'.1), count'.2.1⟩, count'.2.2) :=
    ⟨congrArg (fun value => part (factor * value)) hcount.value, hcount.stop, hcount.rest⟩
  have hunits := unitAt_alike h
  generalize unitAt tokens = unit at hunits ⊢
  generalize unitAt tokens' = unit' at hunits ⊢
  cases hunits with
  | some hunit => exact .some (found _ hunit)
  | none =>
    have hnumbers := numberAt_alike h
    generalize numberAt tokens = number at hnumbers ⊢
    generalize numberAt tokens' = number' at hnumbers ⊢
    cases hnumbers with
    | some hnumber => exact .some (found _ hnumber)
    | none => exact .none

theorem literal_alike (h : Tokens.Alike places tokens tokens') :
    Option.Rel (Found.Alike places) (literalAt (readSign tokens).1 (readSign tokens).2)
      (literalAt (readSign tokens').1 (readSign tokens').2) := by
  obtain ⟨hsign, hafter⟩ := readSign_alike h
  rw [← hsign]
  exact literalAt_alike _ hafter

theorem divide_alike {operator operator' divisor divisor' : Span} (z w : Complex)
    (ho : places.Run operator operator') (hd : places.Run divisor divisor') :
    SameOutcome places.Region Eq (divide operator divisor z w) (divide operator' divisor' z w) := by
  rw [divide, divide]
  cases z.div? w with
  | none => exact .error (.two (.run ho) (.run hd) _)
  | some quotient => exact .ok rfl

abbrev SameFound (places : Places) : Found → Found → Prop :=
  SameOutcome places.Region (Found.Alike places)

theorem closingAfter_alike (ho : opening.Alike places opening') (hz : z.value = z'.value)
    (h : Tokens.Alike places tokens tokens') :
    SameFound places (closingAfter opening z tokens) (closingAfter opening' z' tokens') := by
  cases h with
  | nil => exact .error (notClosed_alike ho .nil)
  | cons ht hrest =>
    rw [closingAfter, closingAfter, ← ht.kind]
    split
    · exact .ok ⟨hz, ht.span.stop, hrest⟩
    · exact .error (notClosed_alike ho (.cons ht hrest))

mutual

theorem expression_alike {tokens tokens' : List (Token Kind)}
    (h : Tokens.Alike places tokens tokens') :
    SameFound places (found (expression places.left tokens))
      (found (expression places.right tokens')) := by
  rw [found_expression, found_expression]
  refine (term_alike h).bind fun first first' hfirst hread => ?_
  have := length_lt_of_found hfirst
  exact expressionTail_alike hread.value hread.stop hread.rest
termination_by (tokens.length, 4)

theorem expressionTail_alike {sum sum' : Ended} {tokens tokens' : List (Token Kind)}
    (hvalue : sum.value = sum'.value) (hstop : places.stops sum.stop sum'.stop)
    (h : Tokens.Alike places tokens tokens') :
    SameFound places (found (expressionTail places.left sum tokens))
      (found (expressionTail places.right sum' tokens')) := by
  match h with
  | .nil =>
    rw [found_expressionTail_nil, found_expressionTail_nil]
    exact .ok ⟨hvalue, hstop, .nil⟩
  | .cons (a := token) ht hrest =>
    by_cases add : token.kind = .operator .add
    · rw [found_expressionTail_add add, found_expressionTail_add (ht.kind ▸ add)]
      refine (term_alike hrest).bind fun next next' hnext hread => ?_
      have := length_lt_of_found hnext
      rw [← hvalue, ← hread.value]
      exact expressionTail_alike rfl hread.stop hread.rest
    by_cases sub : token.kind = .operator .sub
    · rw [found_expressionTail_sub sub, found_expressionTail_sub (ht.kind ▸ sub)]
      refine (term_alike hrest).bind fun next next' hnext hread => ?_
      have := length_lt_of_found hnext
      rw [← hvalue, ← hread.value]
      exact expressionTail_alike rfl hread.stop hread.rest
    · rw [found_expressionTail_stay add sub,
        found_expressionTail_stay (ht.kind ▸ add) (ht.kind ▸ sub)]
      exact .ok ⟨hvalue, hstop, .cons ht hrest⟩
termination_by (tokens.length, 3)

theorem term_alike {tokens tokens' : List (Token Kind)} (h : Tokens.Alike places tokens tokens') :
    SameFound places (found (term places.left tokens)) (found (term places.right tokens')) := by
  rw [found_term, found_term]
  refine (factor_alike h).bind fun first first' hfirst hread => ?_
  have := length_lt_of_found hfirst
  exact termTail_alike hread.value hread.stop hread.rest
termination_by (tokens.length, 3)

theorem termTail_alike {product product' : Ended} {tokens tokens' : List (Token Kind)}
    (hvalue : product.value = product'.value) (hstop : places.stops product.stop product'.stop)
    (h : Tokens.Alike places tokens tokens') :
    SameFound places (found (termTail places.left product tokens))
      (found (termTail places.right product' tokens')) := by
  match h with
  | .nil =>
    rw [found_termTail_nil, found_termTail_nil]
    exact .ok ⟨hvalue, hstop, .nil⟩
  | @List.Forall₂.cons _ _ _ token _ rest rest' ht hrest =>
    by_cases mul : token.kind = .operator .mul
    · rw [found_termTail_mul mul, found_termTail_mul (ht.kind ▸ mul)]
      refine (factor_alike hrest).bind fun next next' hnext hread => ?_
      have := length_lt_of_found hnext
      rw [← hvalue, ← hread.value]
      exact termTail_alike rfl hread.stop hread.rest
    by_cases div : token.kind = .operator .div
    · rw [found_termTail_div div, found_termTail_div (ht.kind ▸ div)]
      refine (factor_alike hrest).bind fun next next' hnext hread => ?_
      have := length_lt_of_found hnext
      rw [← hvalue, ← hread.value]
      -- A divisor was read, so there is a token that it starts with.
      have hdivisor : places.Run (divisorSpan places.left rest next.1)
          (divisorSpan places.right rest' next'.1) := by
        cases hrest with
        | nil => rw [found_factor_nil] at hnext; cases hnext
        | cons hfirst _ => exact ⟨hfirst.span.start, hread.stop⟩
      refine (divide_alike _ _ ht.span hdivisor).bind fun quotient quotient' _ hquotient => ?_
      exact termTail_alike hquotient hread.stop hread.rest
    · rw [found_termTail_stay mul div, found_termTail_stay (ht.kind ▸ mul) (ht.kind ▸ div)]
      exact .ok ⟨hvalue, hstop, .cons ht hrest⟩
termination_by (tokens.length, 2)

theorem factor_alike {tokens tokens' : List (Token Kind)}
    (h : Tokens.Alike places tokens tokens') :
    SameFound places (found (factor places.left tokens))
      (found (factor places.right tokens')) := by
  match h with
  | .nil =>
    rw [found_factor_nil, found_factor_nil]
    exact .error (.one .atEnd _)
  | .cons (a := token) (b := token') ht hrest =>
    by_cases conj : token.kind = .conj
    · rw [found_factor_conj conj, found_factor_conj (ht.kind ▸ conj)]
      exact (argument_alike ht hrest).bind fun arg arg' _ hread =>
        .ok ⟨congrArg Complex.conj hread.value, hread.stop, hread.rest⟩
    by_cases abs : token.kind = .abs
    · rw [found_factor_abs abs, found_factor_abs (ht.kind ▸ abs)]
      exact (argument_alike ht hrest).bind fun arg arg' _ hread =>
        .ok ⟨congrArg (fun z => real z.abs) hread.value, hread.stop, hread.rest⟩
    by_cases opens : token.kind = .opening
    · rw [found_factor_opening opens, found_factor_opening (ht.kind ▸ opens)]
      exact group_alike ht hrest
    · rw [found_factor_literal conj abs opens,
        found_factor_literal (ht.kind ▸ conj) (ht.kind ▸ abs) (ht.kind ▸ opens)]
      match literalAt _ _, literalAt _ _, literal_alike (.cons ht hrest) with
      | _, _, .none => exact .error (notAFactor_alike ht)
      | _, _, .some hread => exact .ok hread
termination_by (tokens.length, 2)

theorem argument_alike {name name' : Token Kind} {tokens tokens' : List (Token Kind)}
    (hname : name.Alike places name') (h : Tokens.Alike places tokens tokens') :
    SameFound places (found (argument places.left name tokens))
      (found (argument places.right name' tokens')) := by
  have missing : Diagnostic.Alike places.Region (.one name.span (.missingArgument name.text))
      (.one name'.span (.missingArgument name'.text)) := by
    rw [← hname.text]
    exact .one (.run hname.span) _
  match h with
  | .nil =>
    rw [found_argument_missing (by simp), found_argument_missing (by simp)]
    exact .error missing
  | .cons (a := opening) (b := opening') ho hrest =>
    by_cases opens : opening.kind = .opening
    · rw [found_argument_open opens, found_argument_open (ho.kind ▸ opens)]
      exact group_alike ho hrest
    · rw [found_argument_missing (by simpa using opens),
        found_argument_missing (by simpa [← ho.kind] using opens)]
      exact .error missing
termination_by (tokens.length, 1)

theorem group_alike {opening opening' : Token Kind} {tokens tokens' : List (Token Kind)}
    (ho : opening.Alike places opening') (h : Tokens.Alike places tokens tokens') :
    SameFound places (found (group places.left opening tokens))
      (found (group places.right opening' tokens')) := by
  match h with
  | .nil =>
    rw [found_group_nil, found_group_nil]
    exact .error (.one .atEnd _)
  | .cons (a := token) ht hrest =>
    by_cases closes : token.kind = .closing
    · rw [found_group_empty closes, found_group_empty (ht.kind ▸ closes)]
      exact .error (.one (.run (ho.span.through ht.span)) _)
    · rw [found_group closes, found_group (ht.kind ▸ closes)]
      exact (expression_alike (.cons ht hrest)).bind fun inner inner' _ hread =>
        closingAfter_alike ho hread.value hread.rest
termination_by (tokens.length, 5)

end

theorem ofTokens_alike (h : Tokens.Alike places tokens tokens') :
    SameOutcome places.Region Eq (ofTokens places.left tokens) (ofTokens places.right tokens') := by
  rw [ofTokens_eq, ofTokens_eq]
  refine (expression_alike h).bind fun all all' _ hread => ?_
  match all.2, all'.2, hread.rest with
  | _, _, .nil => exact .ok hread.value
  | _, _, .cons ht _ => exact .error (trailing_alike ht)

theorem ofSource_alike {s t : Source} (h : s.Alike places t) :
    SameOutcome places.Region Eq (ofSource s) (ofSource t) := by
  rw [ofSource, ofSource, ← h.isEmpty, h.left, h.right]
  cases s.isEmpty with
  | true => exact .error (.one h.endSpan _)
  | false => exact ofTokens_alike (h.scan lexicon)

end Calculator.Complex
