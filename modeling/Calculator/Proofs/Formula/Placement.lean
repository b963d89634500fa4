import Calculator.Proofs.Formula.Reading
import Calculator.Proofs.Text.Places

/-!
Formulas decide nothing by offsets. From tokens that are alike every reader finds the same formula
and leaves tokens that are alike, or it finds the same error.
-/

set_option autoImplicit false
set_option relaxedAutoImplicit false

namespace Calculator.Formula

variable {places : Places}

structure Found.Alike (places : Places) (a b : Formula × List (Token Kind)) : Prop where
  formula : a.1 = b.1
  rest : Tokens.Alike places a.2 b.2

abbrev SameFound (places : Places) : Found → Found → Prop :=
  SameOutcome places.Region (Found.Alike places)

variable {token token' opening opening' : Token Kind}
  {tokens tokens' rest rest' : List (Token Kind)}
  {delimiter : Delimiter}

theorem atom_alike (ht : token.Alike places token') (hrest : Tokens.Alike places rest rest') :
    SameFound places ((atom token).map fun f => (f, rest))
      ((atom token').map fun f => (f, rest')) := by
  rw [atom, atom, ← ht.kind, ← ht.text, ← ht.lexeme]
  cases token.kind with
  | number =>
    cases Number.read? token.lexeme with
    | none => exact .error (.one (.run ht.span) _)
    | some value => exact .ok ⟨rfl, hrest⟩
  | «variable» | euler => exact .ok ⟨rfl, hrest⟩
  | symbol | function | operator | opening | closing => exact .error (.one (.run ht.span) _)

theorem notClosed_alike (ho : opening.Alike places opening')
    (h : Tokens.Alike places tokens tokens') :
    (notClosed delimiter opening tokens).Alike places.Region
      (notClosed delimiter opening' tokens') := by
  cases h with
  | nil => exact .one (.run ho.span) _
  | cons ht _ =>
    rw [notClosed, notClosed, ← ht.text]
    exact .one (.run ht.span) _

theorem trailing_alike (ht : token.Alike places token') :
    (trailing places.left token).Alike places.Region (trailing places.right token') := by
  rw [trailing, trailing, ← ht.kind, ← ht.text]
  cases token.kind with
  | closing | symbol => exact .one (.run ht.span) _
  | number | «variable» | euler | function | operator | opening => exact .one (.rest ht.span) _

theorem closingAfter_alike (f : Formula) (ho : opening.Alike places opening')
    (h : Tokens.Alike places tokens tokens') :
    SameFound places (closingAfter delimiter opening f tokens)
      (closingAfter delimiter opening' f tokens') := by
  cases h with
  | nil => exact .error (notClosed_alike ho .nil)
  | cons ht hrest =>
    rw [closingAfter, closingAfter, ← ht.kind]
    split
    · exact .ok ⟨rfl, hrest⟩
    · exact .error (notClosed_alike ho (.cons ht hrest))

mutual

theorem expression_alike {tokens tokens' : List (Token Kind)}
    (h : Tokens.Alike places tokens tokens') :
    SameFound places (found (expression places.left tokens))
      (found (expression places.right tokens')) := by
  rw [found_expression, found_expression]
  refine (term_alike h).bind fun first first' hfirst hread => ?_
  have := length_lt_of_found hfirst
  rw [← hread.formula]
  exact expressionTail_alike first.1 hread.rest
termination_by (tokens.length, 6)

theorem expressionTail_alike (sum : Formula) {tokens tokens' : List (Token Kind)}
    (h : Tokens.Alike places tokens tokens') :
    SameFound places (found (expressionTail places.left sum tokens))
      (found (expressionTail places.right sum tokens')) := by
  match h with
  | .nil =>
    rw [found_expressionTail_nil, found_expressionTail_nil]
    exact .ok ⟨rfl, .nil⟩
  | .cons (a := token) ht hrest =>
    by_cases shift : ∃ op, token.kind = .operator op ∧ (op = .add ∨ op = .sub)
    · obtain ⟨op, kind, shifts⟩ := shift
      rw [found_expressionTail_shift kind shifts,
        found_expressionTail_shift (ht.kind ▸ kind) shifts]
      refine (term_alike hrest).bind fun next next' hnext hread => ?_
      have := length_lt_of_found hnext
      rw [← hread.formula]
      exact expressionTail_alike _ hread.rest
    · have add : token.kind ≠ .operator .add := fun kind => shift ⟨_, kind, .inl rfl⟩
      have sub : token.kind ≠ .operator .sub := fun kind => shift ⟨_, kind, .inr rfl⟩
      rw [found_expressionTail_stay add sub,
        found_expressionTail_stay (ht.kind ▸ add) (ht.kind ▸ sub)]
      exact .ok ⟨rfl, .cons ht hrest⟩
termination_by (tokens.length, 5)

theorem term_alike {tokens tokens' : List (Token Kind)} (h : Tokens.Alike places tokens tokens') :
    SameFound places (found (term places.left tokens)) (found (term places.right tokens')) := by
  rw [found_term, found_term]
  refine (unary_alike h).bind fun first first' hfirst hread => ?_
  have := length_lt_of_found hfirst
  rw [← hread.formula]
  exact termTail_alike first.1 hread.rest
termination_by (tokens.length, 5)

theorem termTail_alike (product : Formula) {tokens tokens' : List (Token Kind)}
    (h : Tokens.Alike places tokens tokens') :
    SameFound places (found (termTail places.left product tokens))
      (found (termTail places.right product tokens')) := by
  match h with
  | .nil =>
    rw [found_termTail_nil, found_termTail_nil]
    exact .ok ⟨rfl, .nil⟩
  | .cons (a := token) ht hrest =>
    by_cases scale : ∃ op, token.kind = .operator op ∧ (op = .mul ∨ op = .div)
    · obtain ⟨op, kind, scales⟩ := scale
      rw [found_termTail_scale kind scales, found_termTail_scale (ht.kind ▸ kind) scales]
      refine (unary_alike hrest).bind fun next next' hnext hread => ?_
      have := length_lt_of_found hnext
      rw [← hread.formula]
      exact termTail_alike _ hread.rest
    cases starts : token.kind.startsFactor with
    | true =>
      rw [found_termTail_factor starts, found_termTail_factor (ht.kind ▸ starts)]
      refine (power_alike (.cons ht hrest)).bind fun next next' hnext hread => ?_
      have := length_lt_of_found hnext
      rw [← hread.formula]
      exact termTail_alike _ hread.rest
    | false =>
      have mul : token.kind ≠ .operator .mul := fun kind => scale ⟨_, kind, .inl rfl⟩
      have div : token.kind ≠ .operator .div := fun kind => scale ⟨_, kind, .inr rfl⟩
      rw [found_termTail_stay mul div starts,
        found_termTail_stay (ht.kind ▸ mul) (ht.kind ▸ div) (ht.kind ▸ starts)]
      exact .ok ⟨rfl, .cons ht hrest⟩
termination_by (tokens.length, 4)

theorem unary_alike {tokens tokens' : List (Token Kind)} (h : Tokens.Alike places tokens tokens') :
    SameFound places (found (unary places.left tokens)) (found (unary places.right tokens')) := by
  match h with
  | .nil =>
    rw [found_unary_nil, found_unary_nil]
    exact power_alike .nil
  | .cons (a := token) ht hrest =>
    by_cases minus : token.kind = .operator .sub
    · rw [found_unary_minus minus, found_unary_minus (ht.kind ▸ minus)]
      exact (unary_alike hrest).bind fun operand operand' _ hread =>
        .ok ⟨congrArg Formula.neg hread.formula, hread.rest⟩
    by_cases plus : token.kind = .operator .add
    · rw [found_unary_plus plus, found_unary_plus (ht.kind ▸ plus)]
      exact unary_alike hrest
    · rw [found_unary_power plus minus, found_unary_power (ht.kind ▸ plus) (ht.kind ▸ minus)]
      exact power_alike (.cons ht hrest)
termination_by (tokens.length, 4)

theorem power_alike {tokens tokens' : List (Token Kind)} (h : Tokens.Alike places tokens tokens') :
    SameFound places (found (power places.left tokens)) (found (power places.right tokens')) := by
  rw [found_power, found_power]
  refine (primary_alike h).bind fun base base' hbase hread => ?_
  obtain ⟨f, left⟩ := base
  obtain ⟨f', left'⟩ := base'
  have : left.length < tokens.length := length_lt_of_found hbase
  obtain ⟨hformula, hleft⟩ := hread
  cases hformula
  cases hleft with
  | nil => exact .ok ⟨rfl, .nil⟩
  | @cons token _ _ _ ht hrest =>
    simp only [exponentAfter, ← ht.kind]
    by_cases kind : token.kind = .operator .pow
    · have := Nat.lt_of_succ_lt this
      rw [if_pos kind, if_pos kind]
      exact (unary_alike hrest).bind fun exponent exponent' _ hread =>
        .ok ⟨congrArg (Formula.binary .pow f) hread.formula, hread.rest⟩
    · rw [if_neg kind, if_neg kind]
      exact .ok ⟨rfl, .cons ht hrest⟩
termination_by (tokens.length, 3)

theorem primary_alike {tokens tokens' : List (Token Kind)}
    (h : Tokens.Alike places tokens tokens') :
    SameFound places (found (primary places.left tokens))
      (found (primary places.right tokens')) := by
  match h with
  | .nil =>
    rw [found_primary_nil, found_primary_nil]
    exact .error (.one .atEnd _)
  | .cons (a := token) ht hrest =>
    by_cases function : ∃ g, token.kind = .function g
    · obtain ⟨g, kind⟩ := function
      rw [found_primary_function kind, found_primary_function (ht.kind ▸ kind)]
      exact (argument_alike ht hrest).bind fun arg arg' _ hread =>
        .ok ⟨congrArg (Formula.call g) hread.formula, hread.rest⟩
    by_cases opens : ∃ delimiter, token.kind = .opening delimiter
    · obtain ⟨delimiter, opens⟩ := opens
      rw [found_primary_opening opens, found_primary_opening (ht.kind ▸ opens)]
      exact group_alike ht hrest
    · have function (g : Builtin) : token.kind ≠ .function g := fun kind => function ⟨g, kind⟩
      have opens (delimiter : Delimiter) : token.kind ≠ .opening delimiter :=
        fun kind => opens ⟨delimiter, kind⟩
      rw [found_primary_atom function opens,
        found_primary_atom (ht.kind ▸ function) (ht.kind ▸ opens)]
      exact atom_alike ht hrest
termination_by (tokens.length, 2)

theorem argument_alike {name name' : Token Kind} {tokens tokens' : List (Token Kind)}
    (hname : name.Alike places name') (h : Tokens.Alike places tokens tokens') :
    SameFound places (found (argument places.left name tokens))
      (found (argument places.right name' tokens')) := by
  have missing : Diagnostic.Alike places.Region (.one name.span (.missingArgument name.text))
      (.one name'.span (.missingArgument name'.text)) := by
    rw [← hname.text]
    exact .one (.run hname.span) _
  match h with
  | .nil =>
    rw [found_argument_missing (by simp), found_argument_missing (by simp)]
    exact .error missing
  | .cons (a := opening) ho hrest =>
    by_cases opens : opening.kind = .opening .parenthesis
    · rw [found_argument_open opens, found_argument_open (ho.kind ▸ opens)]
      exact group_alike ho hrest
    · rw [found_argument_missing (by simpa using opens),
        found_argument_missing (by simpa [← ho.kind] using opens)]
      exact .error missing
termination_by (tokens.length, 1)

theorem group_alike {delimiter : Delimiter} {opening opening' : Token Kind}
    {tokens tokens' : List (Token Kind)} (ho : opening.Alike places opening')
    (h : Tokens.Alike places tokens tokens') :
    SameFound places (found (group places.left delimiter opening tokens))
      (found (group places.right delimiter opening' tokens')) := by
  match h with
  | .nil =>
    rw [found_group_nil, found_group_nil]
    exact .error (.one .atEnd _)
  | .cons (a := token) ht hrest =>
    by_cases closes : token.kind = .closing delimiter
    · rw [found_group_empty closes, found_group_empty (ht.kind ▸ closes)]
      exact .error (.one (.run (ho.span.through ht.span)) _)
    · rw [found_group closes, found_group (ht.kind ▸ closes)]
      refine (expression_alike (.cons ht hrest)).bind fun inner inner' _ hread => ?_
      rw [← hread.formula]
      exact closingAfter_alike inner.1 ho hread.rest
termination_by (tokens.length, 7)

end

theorem ofTokens_alike (h : Tokens.Alike places tokens tokens') :
    SameOutcome places.Region Eq (ofTokens places.left tokens).outcome
      (ofTokens places.right tokens').outcome := by
  rw [outcome_ofTokens, outcome_ofTokens]
  refine (expression_alike h).bind fun all all' _ hread => ?_
  match all.2, all'.2, hread.rest with
  | _, _, .nil => exact .ok hread.formula
  | _, _, .cons ht _ => exact .error (trailing_alike ht)

theorem ofSource_alike {s t : Source} (h : s.Alike places t) :
    SameOutcome places.Region Eq (ofSource s).outcome (ofSource t).outcome := by
  rw [ofSource, ofSource, ← h.isEmpty, h.left, h.right]
  cases s.isEmpty with
  | true => exact .error (.one h.endSpan _)
  | false => exact ofTokens_alike (h.scan lexicon)

end Calculator.Formula
