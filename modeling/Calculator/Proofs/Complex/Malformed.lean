import Calculator.Proofs.Complex.Derivation
import Calculator.Proofs.Complex.Placement
import Calculator.Proofs.Complex.Scanning
import Calculator.Proofs.Text.Mending

/-!
Malformed numbers in complex arithmetic. A literal with a malformed number is no literal, and the
error is about the token that the factor starts with: the number itself, unless a sign stands in
front of it. Where a malformed number stands in place of a number of an expression, this error is
reported, whatever follows it.
-/

set_option autoImplicit false
set_option relaxedAutoImplicit false

namespace Calculator.Complex

variable {stop : Nat} {tokens rest front back outer inner : List (Token Kind)}
  {one bad token : Token Kind} {p : Phrase}

theorem numbersApart : lexicon.NumbersApart .number :=
  isTable.numbersApart (by decide) (by decide +kernel)

/-- Whether a factor has to come after tokens: there are none, or they end with an operator or an
opening parenthesis. -/
def factorFollows (tokens : List (Token Kind)) : Bool :=
  match tokens.getLast? with
  | none => true
  | some token =>
    match token.kind with
    | .operator _ | .opening => true
    | _ => false

/-- The `+` or `-` that tokens end with, if it is the sign of a literal: a factor has to come after
the tokens before it. -/
def literalSign? (tokens : List (Token Kind)) : Option (Token Kind) :=
  tokens.getLast?.filter fun sign =>
    (signOf? sign.kind).isSome && factorFollows tokens.dropLast

def malformedAfter (front : List (Token Kind)) (bad : Token Kind) : Diagnostic :=
  match literalSign? front with
  | none => bad.notANumber
  | some sign => .one sign.span (.unexpectedToken .complexFactor sign.text)

/-- Tokens that a factor follows and that end with no sign. -/
structure Leads (outer : List (Token Kind)) : Prop where
  follows : factorFollows outer = true
  unsigned : literalSign? outer = none

theorem factorFollows_append (outer : List (Token Kind)) (hne : inner ≠ []) :
    factorFollows (outer ++ inner) = factorFollows inner := by
  rw [factorFollows, List.getLast?_append_of_ne_nil _ hne]
  rfl

theorem literalSign?_concat (tokens : List (Token Kind)) (last : Token Kind) :
    literalSign? (tokens ++ [last]) =
      (some last).filter fun sign => (signOf? sign.kind).isSome && factorFollows tokens := by
  simp [literalSign?]

theorem Derives.factorFollows {e : Expr} (h : Derives p tokens e) :
    factorFollows tokens = false := by
  have last {token : Token Kind} (kind : Complex.factorFollows [token] = false)
      (before : List (Token Kind)) : Complex.factorFollows (before ++ [token]) = false := by
    rwa [factorFollows_append before (List.cons_ne_nil token [])]
  have join {ls rs : List (Token Kind)} (token : Token Kind)
      (h : Complex.factorFollows rs = false) :
        Complex.factorFollows (ls ++ token :: rs) = false := by
    cases rs with
    | nil => cases h
    | cons first rs =>
      rwa [List.append_cons, factorFollows_append _ (List.cons_ne_nil first rs)]
  induction h with
  | imaginary _ _ kind =>
    rw [← List.append_assoc]
    exact last (by simp [Complex.factorFollows, kind]) _
  | real _ kind => exact last (by simp [Complex.factorFollows, kind]) _
  | conj _ _ closes | abs _ _ closes | group _ closes =>
    simp only [← List.cons_append]
    exact last (by simp [Complex.factorFollows, closes]) _
  | factor _ ih | term _ ih => exact ih
  | times _ _ _ _ ih | divided _ _ _ _ ih | plus _ _ _ _ ih | minus _ _ _ _ ih => exact join _ ih

namespace Leads

theorem opening (before : List (Token Kind)) (opens : token.kind = .opening) :
    Leads (before ++ [token]) where
  follows := by simp [factorFollows, opens]
  unsigned := by simp [literalSign?, opens, signOf?]

theorem operator {op : Operator} {e : Expr} (lhs : Derives p tokens e)
    (kind : token.kind = .operator op) : Leads (tokens ++ [token]) where
  follows := by simp [factorFollows, kind]
  unsigned := by
    rw [literalSign?_concat, lhs.factorFollows]
    simp

theorem literalSign?_append (h : Leads outer) (inner : List (Token Kind)) :
    literalSign? (outer ++ inner) = literalSign? inner := by
  rcases List.eq_nil_or_concat' inner with rfl | ⟨before, last, rfl⟩
  · rw [List.append_nil, h.unsigned]
    rfl
  · have hfollows : factorFollows (outer ++ before) = factorFollows before := by
      by_cases hne : before = []
      · rw [hne, List.append_nil, h.follows]
        rfl
      · exact factorFollows_append outer hne
    rw [← List.append_assoc, literalSign?_concat, literalSign?_concat, hfollows]

theorem malformedAfter_append (h : Leads outer) (inner : List (Token Kind)) (bad : Token Kind) :
    malformedAfter (outer ++ inner) bad = malformedAfter inner bad := by
  rw [malformedAfter, malformedAfter, h.literalSign?_append]

end Leads

theorem literalAt_malformed (hbad : bad.isMalformed .number = true) (factor : Float)
    (rest : List (Token Kind)) : literalAt factor (bad :: rest) = none := by
  obtain ⟨number, unread⟩ := Token.isMalformed_iff.mp hbad
  simp [literalAt, unitAt, numberAt, readNumber?, number, unread]

theorem found_factor_malformed {signs : List (Token Kind)} {sign : Option Sign}
    (h : Signs signs sign)
    (hbad : bad.isMalformed .number = true) (stop : Nat) (rest : List (Token Kind)) :
    found (factor stop (signs ++ bad :: rest)) = .error (malformedAfter signs bad) := by
  have number := (Token.isMalformed_iff.mp hbad).1
  have unsigned : ∀ token ∈ (bad :: rest).head?, signOf? token.kind = none := by
    simp [number, signOf?]
  have hnone := literalAt_malformed hbad (Sign.factor sign) rest
  have hread := readSign_append h unsigned
  cases h with
  | none =>
    rw [List.nil_append] at hread ⊢
    rw [found_factor_literal (by simp [number]) (by simp [number]) (by simp [number]), hread, hnone]
    simp only [notAFactor, number]
    rfl
  | @some token sign kind =>
    rw [List.singleton_append] at hread ⊢
    rw [found_factor_literal (by simp [kind]) (by simp [kind]) (by simp [kind]), hread, hnone]
    have hsign : literalSign? [token] = some token := by
      have hsome : (signOf? token.kind).isSome = true := by
        cases sign <;> simp [kind, signOf?, Sign.operator]
      simp [literalSign?, Option.filter, hsome, factorFollows]
    simp only [malformedAfter, hsign, notAFactor, kind]

theorem exists_found_term {e : Expr} {z : Complex} (h : Derives .term tokens e)
    (value : e.value? = some z) (stop : Nat) (hr : EndsFactor rest) :
    ∃ product, found (term stop (tokens ++ rest)) = found (termTail stop product rest) := by
  have hread := h.finds stop rest hr
  rw [value] at hread
  exact hread.imp' _ fun _ hfound => hfound

theorem exists_found_expression {e : Expr} {z : Complex} (h : Derives .expression tokens e)
    (value : e.value? = some z) (stop : Nat) (hr : EndsTerm rest) :
    ∃ sum, found (expression stop (tokens ++ rest)) = found (expressionTail stop sum rest) := by
  have hread := h.finds stop rest hr
  rw [value] at hread
  exact hread.imp' _ fun _ hfound => hfound

def Phrase.found (stop : Nat) : Phrase → List (Token Kind) → Found
  | .factor, tokens => Complex.found (Complex.factor stop tokens)
  | .term, tokens => Complex.found (Complex.term stop tokens)
  | .expression, tokens => Complex.found (Complex.expression stop tokens)

/-- A malformed number in place of any number of these tokens makes a reader of the phrase fail,
whatever comes next. -/
def Stumbles (p : Phrase) (tokens : List (Token Kind)) : Prop :=
  ∀ front one back, tokens = front ++ one :: back → one.kind = .number →
    ∀ (bad : Token Kind), bad.isMalformed .number = true → ∀ stop rest,
      p.found stop (front ++ bad :: rest) = .error (malformedAfter front bad)

namespace Stumbles

variable {ls rs : List (Token Kind)} {l r e : Expr} {z : Complex}

theorem split_signs {signs : List (Token Kind)} {sign : Option Sign} (h : Signs signs sign)
    (hsplit : signs ++ tokens = front ++ one :: back) (number : one.kind = .number) :
    ∃ more, front = signs ++ more ∧ tokens = more ++ one :: back := by
  cases h with
  | none => exact ⟨front, rfl, hsplit⟩
  | some sign kind => exact Tokens.split_cons hsplit (by simp [kind, number])

theorem imaginary {signs numbers : List (Token Kind)} {unit : Token Kind} {sign : Option Sign}
    {magnitude : Option Float} (signed : Signs signs sign) (counted : Counts numbers magnitude)
    (kind : unit.kind = .unit) : Stumbles .factor (signs ++ (numbers ++ [unit])) := by
  intro front one back hsplit number bad hbad stop rest
  obtain ⟨more, rfl, hrest⟩ := split_signs signed hsplit number
  have hfront : more = [] := by
    rcases Tokens.split_between hrest (by simp [kind, number]) with
      ⟨after, hnumbers, -⟩ | ⟨after, -, hnil⟩
    · cases counted with
      | none => simp at hnumbers
      | some => exact (List.append_eq_singleton_iff.mp hnumbers.symm).elim (·.1) (by simp)
    · simp at hnil
  rw [hfront, List.append_nil]
  exact found_factor_malformed signed hbad stop rest

theorem real {signs : List (Token Kind)} {sign : Option Sign} (signed : Signs signs sign) :
    Stumbles .factor (signs ++ [token]) := by
  intro front one back hsplit number bad hbad stop rest
  obtain ⟨more, rfl, hrest⟩ := split_signs signed hsplit number
  have hfront : more = [] := by
    cases more with
    | nil => rfl
    | cons first more => simp at hrest
  rw [hfront, List.append_nil]
  exact found_factor_malformed signed hbad stop rest

theorem inGroup {opening : Token Kind} (h : Stumbles .expression tokens)
    (nonempty : ∃ token tail, tokens = token :: tail ∧ token.kind ≠ .closing)
    (hsplit : tokens = front ++ one :: back) (kind : one.kind = .number)
    (hbad : bad.isMalformed .number = true) (stop : Nat) (rest : List (Token Kind)) :
    found (Complex.group stop opening (front ++ bad :: rest)) =
      .error (malformedAfter front bad) := by
  obtain ⟨first, tail, rfl, ne⟩ := nonempty
  obtain ⟨token, more, htokens, hkind⟩ := Tokens.exists_front_kind hsplit
    (kind.trans (Token.isMalformed_iff.mp hbad).1.symm) rest
  have hfound : found (Complex.expression stop (front ++ bad :: rest)) =
      .error (malformedAfter front bad) := h front one back hsplit kind bad hbad stop rest
  rw [htokens] at hfound ⊢
  rw [found_group (hkind ▸ ne), hfound]
  rfl

theorem group {opening closing : Token Kind} (opens : opening.kind = .opening)
    (closes : closing.kind = .closing)
    (nonempty : ∃ token tail, tokens = token :: tail ∧ token.kind ≠ .closing)
    (h : Stumbles .expression tokens) : Stumbles .factor (opening :: (tokens ++ [closing])) := by
  intro front one back hsplit number bad hbad stop rest
  obtain ⟨inside, last, rfl, hinner, -⟩ :=
    Tokens.split_enclosed hsplit (by simp [opens, number]) (by simp [closes, number])
  have houter : malformedAfter (opening :: inside) bad = malformedAfter inside bad :=
    (Leads.opening [] opens).malformedAfter_append inside bad
  rw [Phrase.found, List.cons_append, found_factor_opening opens,
    h.inGroup nonempty hinner number hbad, houter]

theorem call {name opening closing : Token Kind} (kind : name.kind = .conj ∨ name.kind = .abs)
    (opens : opening.kind = .opening) (closes : closing.kind = .closing)
    (nonempty : ∃ token tail, tokens = token :: tail ∧ token.kind ≠ .closing)
    (h : Stumbles .expression tokens) :
    Stumbles .factor (name :: opening :: (tokens ++ [closing])) := by
  intro front one back hsplit number bad hbad stop rest
  have named : name.kind ≠ one.kind := by rcases kind with kind | kind <;> simp [kind, number]
  obtain ⟨more, rfl, hrest⟩ := Tokens.split_cons hsplit named
  obtain ⟨inside, last, rfl, hinner, -⟩ :=
    Tokens.split_enclosed hrest (by simp [opens, number]) (by simp [closes, number])
  have houter : malformedAfter (name :: opening :: inside) bad = malformedAfter inside bad :=
    (Leads.opening [name] opens).malformedAfter_append inside bad
  rw [Phrase.found, List.cons_append, List.cons_append]
  rcases kind with kind | kind
  · rw [found_factor_conj kind, found_argument_open opens,
      h.inGroup nonempty hinner number hbad, houter]
    rfl
  · rw [found_factor_abs kind, found_argument_open opens,
      h.inGroup nonempty hinner number hbad, houter]
    rfl

theorem factor (h : Stumbles .factor tokens) : Stumbles .term tokens := by
  intro front one back hsplit number bad hbad stop rest
  have hfound : found (Complex.factor stop (front ++ bad :: rest)) =
      .error (malformedAfter front bad) := h front one back hsplit number bad hbad stop rest
  rw [Phrase.found, found_term, hfound]
  rfl

theorem term (h : Stumbles .term tokens) : Stumbles .expression tokens := by
  intro front one back hsplit number bad hbad stop rest
  have hfound : found (Complex.term stop (front ++ bad :: rest)) =
      .error (malformedAfter front bad) := h front one back hsplit number bad hbad stop rest
  rw [Phrase.found, found_expression, hfound]
  rfl

theorem scaled {op : Operator} (derived : Derives .term ls l) (value : l.value? = some z)
    (lhs : Stumbles .term ls) (kind : token.kind = .operator op) (scales : op = .mul ∨ op = .div)
    (rhs : Stumbles .factor rs) : Stumbles .term (ls ++ token :: rs) := by
  intro front one back hsplit number bad hbad stop rest
  rcases Tokens.split_between hsplit (by simp [kind, number]) with
    ⟨more, hls, -⟩ | ⟨more, rfl, hrs⟩
  · exact lhs front one more hls number bad hbad stop rest
  · have hfound : found (Complex.factor stop (more ++ bad :: rest)) =
        .error (malformedAfter more bad) := rhs more one back hrs number bad hbad stop rest
    have houter : malformedAfter (ls ++ token :: more) bad = malformedAfter more bad := by
      rw [List.append_cons]
      exact (Leads.operator derived kind).malformedAfter_append more bad
    have hop : EndsFactor (token :: (more ++ bad :: rest)) := by simp [EndsFactor, kind]
    obtain ⟨product, hread⟩ := exists_found_term derived value stop hop
    rw [Phrase.found, List.append_assoc, List.cons_append, hread, houter]
    rcases scales with rfl | rfl
    · rw [found_termTail_mul kind, hfound]
      rfl
    · rw [found_termTail_div kind, hfound]
      rfl

theorem shifted {op : Operator} (derived : Derives .expression ls l) (value : l.value? = some z)
    (lhs : Stumbles .expression ls) (kind : token.kind = .operator op)
    (shifts : op = .add ∨ op = .sub) (rhs : Stumbles .term rs) :
    Stumbles .expression (ls ++ token :: rs) := by
  intro front one back hsplit number bad hbad stop rest
  rcases Tokens.split_between hsplit (by simp [kind, number]) with
    ⟨more, hls, -⟩ | ⟨more, rfl, hrs⟩
  · exact lhs front one more hls number bad hbad stop rest
  · have hfound : found (Complex.term stop (more ++ bad :: rest)) =
        .error (malformedAfter more bad) := rhs more one back hrs number bad hbad stop rest
    have houter : malformedAfter (ls ++ token :: more) bad = malformedAfter more bad := by
      rw [List.append_cons]
      exact (Leads.operator derived kind).malformedAfter_append more bad
    have hop : EndsTerm (token :: (more ++ bad :: rest)) := by
      rcases shifts with rfl | rfl <;> simp [EndsTerm, kind]
    obtain ⟨sum, hread⟩ := exists_found_expression derived value stop hop
    rw [Phrase.found, List.append_assoc, List.cons_append, hread, houter]
    rcases shifts with rfl | rfl
    · rw [found_expressionTail_add kind, hfound]
      rfl
    · rw [found_expressionTail_sub kind, hfound]
      rfl

end Stumbles

theorem Derives.stumbles {e : Expr} {z : Complex} (h : Derives p tokens e)
    (value : e.value? = some z) : Stumbles p tokens := by
  induction h generalizing z with
  | imaginary signed counted kind => exact .imaginary signed counted kind
  | real signed => exact .real signed
  | conj kind opens closes inside ih =>
    obtain ⟨w, hw, -⟩ := Option.bind_eq_some_iff.mp value
    exact (ih hw).call (.inl kind) opens closes inside.head_ne_closing
  | abs kind opens closes inside ih =>
    obtain ⟨w, hw, -⟩ := Option.bind_eq_some_iff.mp value
    exact (ih hw).call (.inr kind) opens closes inside.head_ne_closing
  | group opens closes inside ih => exact (ih value).group opens closes inside.head_ne_closing
  | factor _ ih => exact (ih value).factor
  | term _ ih => exact (ih value).term
  | times lhs kind _ ihl ihr =>
    obtain ⟨w, hw, hrest⟩ := Option.bind_eq_some_iff.mp value
    obtain ⟨w', hw', -⟩ := Option.bind_eq_some_iff.mp hrest
    exact (ihl hw).scaled lhs hw kind (.inl rfl) (ihr hw')
  | divided lhs kind _ ihl ihr =>
    obtain ⟨w, hw, hrest⟩ := Option.bind_eq_some_iff.mp value
    obtain ⟨w', hw', -⟩ := Option.bind_eq_some_iff.mp hrest
    exact (ihl hw).scaled lhs hw kind (.inr rfl) (ihr hw')
  | plus lhs kind _ ihl ihr =>
    obtain ⟨w, hw, hrest⟩ := Option.bind_eq_some_iff.mp value
    obtain ⟨w', hw', -⟩ := Option.bind_eq_some_iff.mp hrest
    exact (ihl hw).shifted lhs hw kind (.inl rfl) (ihr hw')
  | minus lhs kind _ ihl ihr =>
    obtain ⟨w, hw, hrest⟩ := Option.bind_eq_some_iff.mp value
    obtain ⟨w', hw', -⟩ := Option.bind_eq_some_iff.mp hrest
    exact (ihl hw).shifted lhs hw kind (.inr rfl) (ihr hw')

theorem ofTokens_malformed {one : Token Kind} {e : Expr} {z : Complex}
    (derived : Derives .expression (front ++ one :: back) e) (value : e.value? = some z)
    (kind : one.kind = .number) (hbad : bad.isMalformed .number = true) (stop : Nat)
    (rest : List (Token Kind)) :
    ofTokens stop (front ++ bad :: rest) = .error (malformedAfter front bad) := by
  have hfound : found (expression stop (front ++ bad :: rest)) =
      .error (malformedAfter front bad) :=
    derived.stumbles value front one back rfl kind bad hbad stop rest
  rw [ofTokens_eq, hfound]
  rfl

theorem parse_malformed {input : String} {z : Complex}
    (h : FirstMalformed .number (tokensOf input) front bad)
    (accepted : parse (Source.withOnes (Tokens.malformed .number (tokensOf input)) input) = .ok z) :
    parse input = .error (malformedAfter front bad) := by
  obtain ⟨back, htokens, hmended⟩ := h.map_mend
  generalize hinput : Source.withOnes (Tokens.malformed .number (tokensOf input)) input = mended
    at accepted
  have halike : Tokens.Alike (.loose 0 (Source.strip mended).stop)
      ((tokensOf input).map (Token.mend .number)) (tokensOf mended) := by
    rw [← hinput]
    exact Source.scan_withOnes numbersApart input
  have hread : SameOutcome _ Eq (ofTokens 0 ((tokensOf input).map (Token.mend .number)))
      (ofTokens (Source.strip mended).stop (tokensOf mended)) := ofTokens_alike halike
  rw [← parse_eq_ofTokens fun hnil => parse_ne_ok_of_nil hnil accepted, accepted, hmended] at hread
  obtain ⟨w, hw, -⟩ := hread.exists_ok
  obtain ⟨e, derived, value⟩ := derives_of_ofTokens hw
  have kind : (bad.mend .number).kind = .number :=
    (Token.kind_mend _ _).trans (Token.isMalformed_iff.mp h.malformed).1
  rw [parse_eq_ofTokens (by simp [htokens]), htokens]
  exact ofTokens_malformed derived value kind h.malformed _ _

end Calculator.Complex
