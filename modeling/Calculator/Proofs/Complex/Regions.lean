import Calculator.Proofs.Complex.Reading
import Calculator.Proofs.Text.Regions

/-!
Where complex arithmetic is wrong. What a reader finds ends where the last token that it read ends,
so that a divisor is a region of tokens after its operator. Every other error is about one token,
about the tokens from the opening of a group to its end, or about what is left of the input.
-/

set_option autoImplicit false
set_option relaxedAutoImplicit false

namespace Calculator.Complex

variable {edge : Nat → Prop} {stop last : Nat} {token opening : Token Kind}
  {tokens rest left : List (Token Kind)} {z : Ended}

/-- The tokens before `left` were read, and the last of them ends at an offset. -/
inductive ReadTo (last : Nat) (left : List (Token Kind)) : List (Token Kind) → Prop
  | here {token : Token Kind} (h : token.span.stop = last) : ReadTo last left (token :: left)
  | later {token : Token Kind} {rest : List (Token Kind)} (h : ReadTo last left rest) :
      ReadTo last left (token :: rest)

namespace ReadTo

theorem trans {next : Nat} {more : List (Token Kind)} (h : ReadTo last left tokens)
    (h' : ReadTo next more left) : ReadTo next more tokens := by
  induction h with
  | here => exact .later h'
  | later _ ih => exact .later ih

theorem sublist (h : ReadTo last left tokens) : left.Sublist tokens := by
  induction h with
  | here => exact List.sublist_cons_self _ _
  | later _ ih => exact ih.cons _

theorem exists_stop (h : ReadTo last left tokens) : ∃ token ∈ tokens, token.span.stop = last := by
  induction h with
  | here h => exact ⟨_, List.mem_cons_self, h⟩
  | later _ ih =>
    obtain ⟨token, hmem, hstop⟩ := ih
    exact ⟨token, List.mem_cons_of_mem _ hmem, hstop⟩

theorem inOrder (h : ReadTo last left tokens) (htokens : InOrder edge stop (Tokens.spans tokens)) :
    InOrder edge stop (Tokens.spans left) :=
  htokens.part h.sublist

theorem fits (h : ReadTo last left (token :: rest))
    (htokens : InOrder edge stop (Tokens.spans (token :: rest))) :
    (Span.mk token.span.start last).Fits edge stop := by
  obtain ⟨final, hmem, rfl⟩ := h.exists_stop
  rcases List.mem_cons.mp hmem with rfl | hmem
  · exact htokens.head
  · have hspan : final.span ∈ Tokens.spans rest := List.mem_map_of_mem hmem
    exact htokens.head.through (htokens.tail.fits _ hspan) (htokens.stop_le_start hspan)

end ReadTo

theorem notAFactor_placed (h : token.span.Fits edge stop) :
    (notAFactor token).Placed edge stop := by
  rw [notAFactor]
  cases token.kind with
  | number | unit | conj | abs | operator | opening | closing | symbol => exact .one h rfl

theorem notClosed_placed (hopening : opening.span.Fits edge stop)
    (h : InOrder edge stop (Tokens.spans tokens)) :
    (notClosed opening tokens).Placed edge stop := by
  cases tokens with
  | nil => exact .one hopening rfl
  | cons token rest => exact .one h.head rfl

theorem trailing_placed (hstop : edge stop) (h : token.span.Fits edge stop) :
    (trailing stop token).Placed edge stop := by
  rw [trailing]
  cases token.kind with
  | closing | symbol => exact .one h rfl
  | number | unit | conj | abs | operator | opening => exact .one (h.toEnd hstop) rfl

theorem divide_located {divisor : Ended} (w : Complex)
    (h : InOrder edge stop (Tokens.spans (token :: rest)))
    (hread : ReadTo divisor.stop left rest) :
    Located edge stop (fun _ => True)
      (divide token.span (divisorSpan stop rest divisor) w divisor.value) := by
  rw [divide]
  cases w.div? divisor.value with
  | some quotient => exact .ok trivial
  | none =>
    cases rest with
    | nil => cases hread
    | cons first rest =>
      have hfirst : token.span.stop ≤ first.span.start := h.stop_le_start List.mem_cons_self
      exact .error (.two (.pair h.head (hread.fits h.tail) hfirst) rfl)

theorem readTo_readNumber? {value : Float} (h : readNumber? tokens = some (value, last, left)) :
    ReadTo last left tokens := by
  cases tokens with
  | nil => cases h
  | cons token rest =>
    simp only [readNumber?] at h
    split at h
    · obtain ⟨number, -, hread⟩ := Option.map_eq_some_iff.mp h
      cases hread
      exact .here rfl
    · cases h

theorem readTo_unitAt {value : Float} (h : unitAt tokens = some (value, last, left)) :
    ReadTo last left tokens := by
  have unit {token : Token Kind} {rest : List (Token Kind)} {number : Float}
      (h : (if token.kind = .unit then some (number, token.span.stop, rest) else none) =
        some (value, last, left)) : ReadTo last left (token :: rest) := by
    split at h
    · cases h
      exact .here rfl
    · cases h
  simp only [unitAt] at h
  cases hnumber : readNumber? tokens with
  | none =>
    rw [hnumber] at h
    cases tokens with
    | nil => cases h
    | cons token rest => exact unit h
  | some count =>
    obtain ⟨number, stop, rest⟩ := count
    rw [hnumber] at h
    cases rest with
    | nil => cases h
    | cons token rest => exact (readTo_readNumber? hnumber).trans (unit h)

theorem readTo_numberAt {value : Float} (h : numberAt tokens = some (value, last, left)) :
    ReadTo last left tokens := by
  simp only [numberAt] at h
  cases hnumber : readNumber? tokens with
  | none => simp [hnumber] at h
  | some count =>
    obtain ⟨number, stop, rest⟩ := count
    simp only [hnumber] at h
    split at h
    · cases h
    · cases h
      exact readTo_readNumber? hnumber

theorem readTo_literalAt {factor : Float} (h : literalAt factor tokens = some (z, left)) :
    ReadTo z.stop left tokens := by
  rcases Option.or_eq_some_iff.mp h with hunit | ⟨-, hnumber⟩
  · obtain ⟨⟨value, last, rest⟩, hread, heq⟩ := Option.map_eq_some_iff.mp hunit
    cases heq
    exact readTo_unitAt hread
  · obtain ⟨⟨value, last, rest⟩, hread, heq⟩ := Option.map_eq_some_iff.mp hnumber
    cases heq
    exact readTo_numberAt hread

theorem readTo_literal
    (h : literalAt (readSign tokens).1 (readSign tokens).2 = some (z, left)) :
    ReadTo z.stop left tokens := by
  have hread := readTo_literalAt h
  cases tokens with
  | nil => exact hread
  | cons token rest =>
    simp only [readSign] at hread
    cases hsign : signOf? token.kind with
    | none => rwa [hsign] at hread
    | some factor =>
      rw [hsign] at hread
      exact .later hread

/-- What a reader finds ends with a token, or is an error at regions in order. -/
abbrev FoundInOrder (edge : Nat → Prop) (stop : Nat) (tokens : List (Token Kind)) : Found → Prop :=
  Located edge stop fun read => ReadTo read.1.stop read.2 tokens

theorem closingAfter_inOrder (hopening : opening.span.Fits edge stop)
    (h : InOrder edge stop (Tokens.spans tokens)) :
    FoundInOrder edge stop tokens (closingAfter opening z tokens) := by
  cases tokens with
  | nil => exact .error (notClosed_placed hopening h)
  | cons token rest =>
    rw [closingAfter]
    split
    · exact .ok (.here rfl)
    · exact .error (notClosed_placed hopening h)

mutual

theorem expression_inOrder (hstop : edge stop) {tokens : List (Token Kind)}
    (h : InOrder edge stop (Tokens.spans tokens)) :
    FoundInOrder edge stop tokens (found (expression stop tokens)) := by
  rw [found_expression]
  refine (term_inOrder hstop h).bind fun first hfirst hread => ?_
  have := length_lt_of_found hfirst
  exact expressionTail_inOrder hstop h hread
termination_by (tokens.length, 4)

theorem expressionTail_inOrder (hstop : edge stop) {sum : Ended} {all tokens : List (Token Kind)}
    (h : InOrder edge stop (Tokens.spans all)) (hsum : ReadTo sum.stop tokens all) :
    FoundInOrder edge stop all (found (expressionTail stop sum tokens)) := by
  match tokens with
  | [] =>
    rw [found_expressionTail_nil]
    exact .ok hsum
  | token :: rest =>
    have hrest := (hsum.inOrder h).tail
    by_cases add : token.kind = .operator .add
    · rw [found_expressionTail_add add]
      refine (term_inOrder hstop hrest).bind fun next hnext hread => ?_
      have := length_lt_of_found hnext
      exact expressionTail_inOrder hstop h (hsum.trans (.later hread))
    by_cases sub : token.kind = .operator .sub
    · rw [found_expressionTail_sub sub]
      refine (term_inOrder hstop hrest).bind fun next hnext hread => ?_
      have := length_lt_of_found hnext
      exact expressionTail_inOrder hstop h (hsum.trans (.later hread))
    · rw [found_expressionTail_stay add sub]
      exact .ok hsum
termination_by (tokens.length, 3)

theorem term_inOrder (hstop : edge stop) {tokens : List (Token Kind)}
    (h : InOrder edge stop (Tokens.spans tokens)) :
    FoundInOrder edge stop tokens (found (term stop tokens)) := by
  rw [found_term]
  refine (factor_inOrder hstop h).bind fun first hfirst hread => ?_
  have := length_lt_of_found hfirst
  exact termTail_inOrder hstop h hread
termination_by (tokens.length, 3)

theorem termTail_inOrder (hstop : edge stop) {product : Ended} {all tokens : List (Token Kind)}
    (h : InOrder edge stop (Tokens.spans all)) (hproduct : ReadTo product.stop tokens all) :
    FoundInOrder edge stop all (found (termTail stop product tokens)) := by
  match tokens with
  | [] =>
    rw [found_termTail_nil]
    exact .ok hproduct
  | token :: rest =>
    have htokens := hproduct.inOrder h
    by_cases mul : token.kind = .operator .mul
    · rw [found_termTail_mul mul]
      refine (factor_inOrder hstop htokens.tail).bind fun next hnext hread => ?_
      have := length_lt_of_found hnext
      exact termTail_inOrder hstop h (hproduct.trans (.later hread))
    by_cases div : token.kind = .operator .div
    · rw [found_termTail_div div]
      refine (factor_inOrder hstop htokens.tail).bind fun next hnext hread => ?_
      have := length_lt_of_found hnext
      refine (divide_located product.value htokens hread).bind fun quotient _ _ => ?_
      exact termTail_inOrder hstop h (hproduct.trans (.later hread))
    · rw [found_termTail_stay mul div]
      exact .ok hproduct
termination_by (tokens.length, 2)

theorem factor_inOrder (hstop : edge stop) {tokens : List (Token Kind)}
    (h : InOrder edge stop (Tokens.spans tokens)) :
    FoundInOrder edge stop tokens (found (factor stop tokens)) := by
  match tokens with
  | [] =>
    rw [found_factor_nil]
    exact .error (.one (.point hstop) rfl)
  | token :: rest =>
    by_cases conj : token.kind = .conj
    · rw [found_factor_conj conj]
      exact (argument_inOrder hstop h).bind fun arg _ hread => .ok (.later hread)
    by_cases abs : token.kind = .abs
    · rw [found_factor_abs abs]
      exact (argument_inOrder hstop h).bind fun arg _ hread => .ok (.later hread)
    by_cases opens : token.kind = .opening
    · rw [found_factor_opening opens]
      exact (group_inOrder hstop h).imp fun _ hread => .later hread
    · rw [found_factor_literal conj abs opens]
      cases hliteral : literalAt (readSign (token :: rest)).1 (readSign (token :: rest)).2 with
      | none => exact .error (notAFactor_placed h.head)
      | some read => exact .ok (readTo_literal hliteral)
termination_by (tokens.length, 2)

theorem argument_inOrder (hstop : edge stop) {name : Token Kind} {tokens : List (Token Kind)}
    (h : InOrder edge stop (Tokens.spans (name :: tokens))) :
    FoundInOrder edge stop tokens (found (argument stop name tokens)) := by
  match tokens with
  | [] =>
    rw [found_argument_missing (by simp)]
    exact .error (.one h.head rfl)
  | opening :: rest =>
    by_cases opens : opening.kind = .opening
    · rw [found_argument_open opens]
      exact (group_inOrder hstop h.tail).imp fun _ hread => .later hread
    · rw [found_argument_missing (by simpa using opens)]
      exact .error (.one h.head rfl)
termination_by (tokens.length, 1)

theorem group_inOrder (hstop : edge stop) {opening : Token Kind} {tokens : List (Token Kind)}
    (h : InOrder edge stop (Tokens.spans (opening :: tokens))) :
    FoundInOrder edge stop tokens (found (group stop opening tokens)) := by
  match tokens with
  | [] =>
    rw [found_group_nil]
    exact .error (.one (.point hstop) rfl)
  | token :: rest =>
    by_cases closes : token.kind = .closing
    · rw [found_group_empty closes]
      exact .error (.one h.joined rfl)
    · rw [found_group closes]
      refine (expression_inOrder hstop h.tail).bind fun inner _ hread => ?_
      exact (closingAfter_inOrder h.head (hread.inOrder h.tail)).imp fun _ => hread.trans
termination_by (tokens.length, 5)

end

theorem ofTokens_located (hstop : edge stop) (h : InOrder edge stop (Tokens.spans tokens)) :
    Located edge stop (fun _ => True) (ofTokens stop tokens) := by
  rw [ofTokens_eq]
  refine (expression_inOrder hstop h).bind fun all _ hread => ?_
  obtain ⟨z, left⟩ := all
  have hleft : InOrder edge stop (Tokens.spans left) := hread.inOrder h
  cases left with
  | nil => exact .ok trivial
  | cons token left => exact .error (trailing_placed hstop hleft.head)

theorem parse_located (input : String) :
    Located (Boundary input) input.utf8ByteSize (fun _ => True) (parse input) := by
  have hstop := Source.boundary_stop input
  rw [parse, ofSource, ← Source.strip_stop]
  split
  · exact .error (.one (.point hstop) rfl)
  · exact ofTokens_located hstop (Source.scan_inOrder lexicon input)

end Calculator.Complex
