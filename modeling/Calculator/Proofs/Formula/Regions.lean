import Calculator.Proofs.Formula.Products
import Calculator.Proofs.Formula.Reading
import Calculator.Proofs.Text.Regions

/-!
Where formulas are wrong. Every reader keeps the tokens that are left in order, and its errors are
about one token, about the tokens from the opening of a group to its end, or about what is left of
the input. A product that is not written is no token of the input, and no error is about it.
-/

set_option autoImplicit false
set_option relaxedAutoImplicit false

namespace Calculator.Formula

variable {edge : Nat → Prop} {stop : Nat} {delimiter : Delimiter} {token opening : Token Kind}
  {tokens rest : List (Token Kind)}

/-- What a reader finds leaves tokens in order, or is an error at regions in order. -/
abbrev FoundInOrder (edge : Nat → Prop) (stop : Nat) : Found → Prop :=
  Located edge stop fun read => InOrder edge stop (Tokens.spans read.2)

theorem atom_inOrder (h : InOrder edge stop (Tokens.spans (token :: rest))) :
    FoundInOrder edge stop ((atom token).map fun f => (f, rest)) := by
  rw [atom]
  cases token.kind with
  | number =>
    cases Number.read? token.lexeme with
    | none => exact .error (.one h.head rfl)
    | some value => exact .ok h.tail
  | «variable» | euler => exact .ok h.tail
  | symbol | function | operator | opening | closing => exact .error (.one h.head rfl)

theorem notClosed_placed (hopening : opening.span.Fits edge stop)
    (h : InOrder edge stop (Tokens.spans tokens)) :
    (notClosed delimiter opening tokens).Placed edge stop := by
  cases tokens with
  | nil => exact .one hopening rfl
  | cons token rest => exact .one h.head rfl

theorem trailing_placed (hstop : edge stop) (h : token.span.Fits edge stop) :
    (trailing stop token).Placed edge stop := by
  rw [trailing]
  cases token.kind with
  | closing | symbol => exact .one h rfl
  | number | «variable» | euler | function | operator | opening => exact .one (h.toEnd hstop) rfl

theorem closingAfter_inOrder (f : Formula) (hopening : opening.span.Fits edge stop)
    (h : InOrder edge stop (Tokens.spans tokens)) :
    FoundInOrder edge stop (closingAfter delimiter opening f tokens) := by
  cases tokens with
  | nil => exact .error (notClosed_placed hopening h)
  | cons token rest =>
    rw [closingAfter]
    split
    · exact .ok h.tail
    · exact .error (notClosed_placed hopening h)

mutual

theorem expression_inOrder (hstop : edge stop) {tokens : List (Token Kind)}
    (h : InOrder edge stop (Tokens.spans tokens)) :
    FoundInOrder edge stop (found (expression stop tokens)) := by
  rw [found_expression]
  refine (term_inOrder hstop h).bind fun first hfirst hrest => ?_
  have := length_lt_of_found hfirst
  exact expressionTail_inOrder hstop first.1 hrest
termination_by (tokens.length, 6)

theorem expressionTail_inOrder (hstop : edge stop) (sum : Formula) {tokens : List (Token Kind)}
    (h : InOrder edge stop (Tokens.spans tokens)) :
    FoundInOrder edge stop (found (expressionTail stop sum tokens)) := by
  match tokens with
  | [] =>
    rw [found_expressionTail_nil]
    exact .ok h
  | token :: rest =>
    by_cases shift : ∃ op, token.kind = .operator op ∧ (op = .add ∨ op = .sub)
    · obtain ⟨op, kind, shifts⟩ := shift
      rw [found_expressionTail_shift kind shifts]
      refine (term_inOrder hstop h.tail).bind fun next hnext hrest => ?_
      have := length_lt_of_found hnext
      exact expressionTail_inOrder hstop _ hrest
    · have add : token.kind ≠ .operator .add := fun kind => shift ⟨_, kind, .inl rfl⟩
      have sub : token.kind ≠ .operator .sub := fun kind => shift ⟨_, kind, .inr rfl⟩
      rw [found_expressionTail_stay add sub]
      exact .ok h
termination_by (tokens.length, 5)

theorem term_inOrder (hstop : edge stop) {tokens : List (Token Kind)}
    (h : InOrder edge stop (Tokens.spans tokens)) :
    FoundInOrder edge stop (found (term stop tokens)) := by
  rw [found_term]
  refine (unary_inOrder hstop h).bind fun first hfirst hrest => ?_
  have := length_lt_of_found hfirst
  exact termTail_inOrder hstop first.1 hrest
termination_by (tokens.length, 5)

theorem termTail_inOrder (hstop : edge stop) (product : Formula) {tokens : List (Token Kind)}
    (h : InOrder edge stop (Tokens.spans tokens)) :
    FoundInOrder edge stop (found (termTail stop product tokens)) := by
  match tokens with
  | [] =>
    rw [found_termTail_nil]
    exact .ok h
  | token :: rest =>
    by_cases scale : ∃ op, token.kind = .operator op ∧ (op = .mul ∨ op = .div)
    · obtain ⟨op, kind, scales⟩ := scale
      rw [found_termTail_scale kind scales]
      refine (unary_inOrder hstop h.tail).bind fun next hnext hrest => ?_
      have := length_lt_of_found hnext
      exact termTail_inOrder hstop _ hrest
    cases starts : token.kind.startsFactor with
    | true =>
      rw [found_termTail_factor starts]
      refine (power_inOrder hstop h).bind fun next hnext hrest => ?_
      have := length_lt_of_found hnext
      exact termTail_inOrder hstop _ hrest
    | false =>
      have mul : token.kind ≠ .operator .mul := fun kind => scale ⟨_, kind, .inl rfl⟩
      have div : token.kind ≠ .operator .div := fun kind => scale ⟨_, kind, .inr rfl⟩
      rw [found_termTail_stay mul div starts]
      exact .ok h
termination_by (tokens.length, 4)

theorem unary_inOrder (hstop : edge stop) {tokens : List (Token Kind)}
    (h : InOrder edge stop (Tokens.spans tokens)) :
    FoundInOrder edge stop (found (unary stop tokens)) := by
  match tokens with
  | [] =>
    rw [found_unary_nil]
    exact power_inOrder hstop h
  | token :: rest =>
    by_cases minus : token.kind = .operator .sub
    · rw [found_unary_minus minus]
      exact (unary_inOrder hstop h.tail).bind fun operand _ hrest => .ok hrest
    by_cases plus : token.kind = .operator .add
    · rw [found_unary_plus plus]
      exact unary_inOrder hstop h.tail
    · rw [found_unary_power plus minus]
      exact power_inOrder hstop h
termination_by (tokens.length, 4)

theorem power_inOrder (hstop : edge stop) {tokens : List (Token Kind)}
    (h : InOrder edge stop (Tokens.spans tokens)) :
    FoundInOrder edge stop (found (power stop tokens)) := by
  rw [found_power]
  refine (primary_inOrder hstop h).bind fun base hbase hrest => ?_
  obtain ⟨f, left⟩ := base
  have : left.length < tokens.length := length_lt_of_found hbase
  cases left with
  | nil => exact .ok hrest
  | cons token left =>
    rw [exponentAfter]
    split
    · have := Nat.lt_of_succ_lt this
      exact (unary_inOrder hstop hrest.tail).bind fun exponent _ hleft => .ok hleft
    · exact .ok hrest
termination_by (tokens.length, 3)

theorem primary_inOrder (hstop : edge stop) {tokens : List (Token Kind)}
    (h : InOrder edge stop (Tokens.spans tokens)) :
    FoundInOrder edge stop (found (primary stop tokens)) := by
  match tokens with
  | [] =>
    rw [found_primary_nil]
    exact .error (.one (.point hstop) rfl)
  | token :: rest =>
    by_cases function : ∃ g, token.kind = .function g
    · obtain ⟨g, kind⟩ := function
      rw [found_primary_function kind]
      exact (argument_inOrder hstop h).bind fun arg _ hrest => .ok hrest
    by_cases opens : ∃ delimiter, token.kind = .opening delimiter
    · obtain ⟨delimiter, opens⟩ := opens
      rw [found_primary_opening opens]
      exact group_inOrder hstop h
    · have function (g : Builtin) : token.kind ≠ .function g := fun kind => function ⟨g, kind⟩
      have opens (delimiter : Delimiter) : token.kind ≠ .opening delimiter :=
        fun kind => opens ⟨delimiter, kind⟩
      rw [found_primary_atom function opens]
      exact atom_inOrder h
termination_by (tokens.length, 2)

theorem argument_inOrder (hstop : edge stop) {name : Token Kind} {tokens : List (Token Kind)}
    (h : InOrder edge stop (Tokens.spans (name :: tokens))) :
    FoundInOrder edge stop (found (argument stop name tokens)) := by
  match tokens with
  | [] =>
    rw [found_argument_missing (by simp)]
    exact .error (.one h.head rfl)
  | opening :: rest =>
    by_cases opens : opening.kind = .opening .parenthesis
    · rw [found_argument_open opens]
      exact group_inOrder hstop h.tail
    · rw [found_argument_missing (by simpa using opens)]
      exact .error (.one h.head rfl)
termination_by (tokens.length, 1)

theorem group_inOrder (hstop : edge stop) {delimiter : Delimiter} {opening : Token Kind}
    {tokens : List (Token Kind)} (h : InOrder edge stop (Tokens.spans (opening :: tokens))) :
    FoundInOrder edge stop (found (group stop delimiter opening tokens)) := by
  match tokens with
  | [] =>
    rw [found_group_nil]
    exact .error (.one (.point hstop) rfl)
  | token :: rest =>
    by_cases closes : token.kind = .closing delimiter
    · rw [found_group_empty closes]
      exact .error (.one h.joined rfl)
    · rw [found_group closes]
      exact (expression_inOrder hstop h.tail).bind fun inner _ hrest =>
        closingAfter_inOrder inner.1 h.head hrest
termination_by (tokens.length, 7)

end

theorem ofTokens_located (hstop : edge stop) (h : InOrder edge stop (Tokens.spans tokens)) :
    Located edge stop (fun _ => True) (ofTokens stop tokens).outcome := by
  rw [outcome_ofTokens]
  refine (expression_inOrder hstop h).bind fun all _ hrest => ?_
  obtain ⟨f, left⟩ := all
  cases left with
  | nil => exact .ok trivial
  | cons token left => exact .error (trailing_placed hstop hrest.head)

theorem parse_located (input : String) :
    Located (Boundary input) input.utf8ByteSize (fun _ => True) (parse input) := by
  have hstop := Source.boundary_stop input
  rw [parse, sourceOf, outcome_ofSource_withProducts, ofSource, ← Source.strip_stop]
  split
  · exact .error (.one (.point hstop) rfl)
  · exact ofTokens_located hstop (Source.scan_inOrder lexicon input)

end Calculator.Formula
