import Calculator.Proofs.Formula.Derivation

/-!
What the readers of formulas leave. A reader goes on as long as the next token can be part of what
it reads, so each of them leaves a token that cannot: after a power no `^`, after a product no
operator that binds as tightly and no start of a factor, and after an expression only a closing
delimiter or a character that is no token of the grammar. All of these have an error of their own
behind a complete formula, and the general one never arises there; the readers do not know it.
-/

set_option autoImplicit false
set_option relaxedAutoImplicit false

namespace Calculator.Formula

variable {stop : Nat} {token : Token Kind} {tokens rest : List (Token Kind)} {f : Formula}

/-- What comes next goes on with no expression: it closes a group, or is no token of the grammar. -/
def EndsSum (rest : List (Token Kind)) : Prop :=
  ∀ token ∈ rest.head?, token.kind = .symbol ∨ ∃ delimiter, token.kind = .closing delimiter

theorem endsPower_nil : EndsPower [] := fun _ hmem => by cases hmem

theorem endsTerm_nil : EndsTerm [] := fun _ hmem => by cases hmem

theorem endsSum_nil : EndsSum [] := fun _ hmem => by cases hmem

theorem endsPower_of_ne (pow : token.kind ≠ .operator .pow) : EndsPower (token :: rest) := by
  rintro _ ⟨rfl⟩
  exact pow

theorem EndsPower.endsTerm (h : EndsPower (token :: rest)) (mul : token.kind ≠ .operator .mul)
    (div : token.kind ≠ .operator .div) (starts : token.kind.startsFactor = false) :
    EndsTerm (token :: rest) := by
  rintro _ ⟨rfl⟩
  exact ⟨h token rfl, mul, div, starts⟩

theorem EndsTerm.endsSum (h : EndsTerm (token :: rest)) (add : token.kind ≠ .operator .add)
    (sub : token.kind ≠ .operator .sub) : EndsSum (token :: rest) := by
  rintro _ ⟨rfl⟩
  obtain ⟨pow, mul, div, starts⟩ := h token rfl
  cases kind : token.kind with
  | symbol => exact .inl rfl
  | closing delimiter => exact .inr ⟨delimiter, rfl⟩
  | operator op => cases op <;> contradiction
  | number | «variable» | euler | function | opening => simp [kind, Kind.startsFactor] at starts

/-- A formula before tokens with a property, or an error that is not about what follows a complete
formula. -/
inductive Leaves (P : List (Token Kind) → Prop) : Found → Prop
  | ok {f : Formula} {rest : List (Token Kind)} (h : P rest) : Leaves P (.ok (f, rest))
  | error {d : Diagnostic} (h : d.cause ≠ .expectedEnd) : Leaves P (.error d)

namespace Leaves

variable {P Q : List (Token Kind) → Prop} {x : Found}

theorem bind {next : Formula × List (Token Kind) → Found} (h : Leaves P x)
    (hnext : ∀ read, x = .ok read → P read.2 → Leaves Q (next read)) : Leaves Q (x >>= next) := by
  cases h with
  | ok h => exact hnext _ rfl h
  | error h => exact .error h

theorem one {span : Span} {cause : Cause} (h : cause ≠ .expectedEnd) :
    Leaves P (.error (.one span cause)) := .error h

end Leaves

theorem cause_atom {d : Diagnostic} (h : atom token = .error d) : d.cause ≠ .expectedEnd := by
  cases kind : token.kind with
  | number =>
    cases read : Number.read? token.lexeme with
    | none =>
      simp only [atom, kind, read, Except.error.injEq] at h
      simp [← h, Diagnostic.one]
    | some value => simp [atom, kind, read] at h
  | function | operator | opening | closing | symbol =>
    simp only [atom, kind, Except.error.injEq] at h
    simp [← h, Diagnostic.one]
  | _ => simp [atom, kind] at h

theorem atom_leaves : Leaves (fun _ => True) ((atom token).map fun f => (f, rest)) := by
  cases h : atom token with
  | ok f => exact .ok trivial
  | error d => exact .error (cause_atom h)

theorem closingAfter_leaves {delimiter : Delimiter} {opening : Token Kind} :
    Leaves (fun _ => True) (closingAfter delimiter opening f tokens) := by
  cases tokens with
  | nil => exact .one nofun
  | cons token rest =>
    rw [closingAfter]
    split
    · exact .ok trivial
    · exact .one nofun

mutual

theorem expression_leaves (tokens : List (Token Kind)) :
    Leaves EndsSum (found (expression stop tokens)) := by
  rw [found_expression]
  refine (term_leaves tokens).bind fun first hfirst hrest => ?_
  have := length_lt_of_found hfirst
  exact expressionTail_leaves first.1 first.2 hrest
termination_by (tokens.length, 6)

theorem expressionTail_leaves (sum : Formula) (tokens : List (Token Kind)) (h : EndsTerm tokens) :
    Leaves EndsSum (found (expressionTail stop sum tokens)) := by
  match tokens with
  | [] =>
    rw [found_expressionTail_nil]
    exact .ok endsSum_nil
  | token :: rest =>
    by_cases shift : ∃ op, token.kind = .operator op ∧ (op = .add ∨ op = .sub)
    · obtain ⟨op, kind, shifts⟩ := shift
      rw [found_expressionTail_shift kind shifts]
      refine (term_leaves rest).bind fun next hnext hrest => ?_
      have := length_lt_of_found hnext
      exact expressionTail_leaves _ next.2 hrest
    · have add : token.kind ≠ .operator .add := fun kind => shift ⟨_, kind, .inl rfl⟩
      have sub : token.kind ≠ .operator .sub := fun kind => shift ⟨_, kind, .inr rfl⟩
      rw [found_expressionTail_stay add sub]
      exact .ok (h.endsSum add sub)
termination_by (tokens.length, 5)

theorem term_leaves (tokens : List (Token Kind)) :
    Leaves EndsTerm (found (term stop tokens)) := by
  rw [found_term]
  refine (unary_leaves tokens).bind fun first hfirst hrest => ?_
  have := length_lt_of_found hfirst
  exact termTail_leaves first.1 first.2 hrest
termination_by (tokens.length, 5)

theorem termTail_leaves (product : Formula) (tokens : List (Token Kind)) (h : EndsPower tokens) :
    Leaves EndsTerm (found (termTail stop product tokens)) := by
  match tokens with
  | [] =>
    rw [found_termTail_nil]
    exact .ok endsTerm_nil
  | token :: rest =>
    by_cases scale : ∃ op, token.kind = .operator op ∧ (op = .mul ∨ op = .div)
    · obtain ⟨op, kind, scales⟩ := scale
      rw [found_termTail_scale kind scales]
      refine (unary_leaves rest).bind fun next hnext hrest => ?_
      have := length_lt_of_found hnext
      exact termTail_leaves _ next.2 hrest
    cases starts : token.kind.startsFactor with
    | true =>
      rw [found_termTail_factor starts]
      refine (power_leaves (token :: rest)).bind fun next hnext hrest => ?_
      have := length_lt_of_found hnext
      exact termTail_leaves _ next.2 hrest
    | false =>
      have mul : token.kind ≠ .operator .mul := fun kind => scale ⟨_, kind, .inl rfl⟩
      have div : token.kind ≠ .operator .div := fun kind => scale ⟨_, kind, .inr rfl⟩
      rw [found_termTail_stay mul div starts]
      exact .ok (h.endsTerm mul div starts)
termination_by (tokens.length, 4)

theorem unary_leaves (tokens : List (Token Kind)) :
    Leaves EndsPower (found (unary stop tokens)) := by
  match tokens with
  | [] =>
    rw [found_unary_nil]
    exact power_leaves []
  | token :: rest =>
    by_cases minus : token.kind = .operator .sub
    · rw [found_unary_minus minus]
      exact (unary_leaves rest).bind fun _ _ hrest => .ok hrest
    by_cases plus : token.kind = .operator .add
    · rw [found_unary_plus plus]
      exact unary_leaves rest
    · rw [found_unary_power plus minus]
      exact power_leaves (token :: rest)
termination_by (tokens.length, 4)

theorem power_leaves (tokens : List (Token Kind)) :
    Leaves EndsPower (found (power stop tokens)) := by
  rw [found_power]
  refine (primary_leaves tokens).bind fun base hbase _ => ?_
  obtain ⟨base, left⟩ := base
  match left with
  | [] => exact .ok endsPower_nil
  | token :: rest =>
    have : rest.length < tokens.length := Nat.lt_of_succ_lt (length_lt_of_found hbase)
    rw [exponentAfter]
    split
    · exact (unary_leaves rest).bind fun _ _ hrest => .ok hrest
    · next pow => exact .ok (endsPower_of_ne pow)
termination_by (tokens.length, 3)

theorem primary_leaves (tokens : List (Token Kind)) :
    Leaves (fun _ => True) (found (primary stop tokens)) := by
  match tokens with
  | [] =>
    rw [found_primary_nil]
    exact .one nofun
  | token :: rest =>
    by_cases function : ∃ g, token.kind = .function g
    · obtain ⟨g, kind⟩ := function
      rw [found_primary_function kind]
      exact (argument_leaves rest).bind fun _ _ _ => .ok trivial
    by_cases opening : ∃ delimiter, token.kind = .opening delimiter
    · obtain ⟨delimiter, opens⟩ := opening
      rw [found_primary_opening opens]
      exact group_leaves rest
    · rw [found_primary_atom (fun g kind => function ⟨g, kind⟩)
        fun delimiter kind => opening ⟨delimiter, kind⟩]
      exact atom_leaves
termination_by (tokens.length, 2)

theorem argument_leaves {name : Token Kind} (tokens : List (Token Kind)) :
    Leaves (fun _ => True) (found (argument stop name tokens)) := by
  match tokens with
  | [] =>
    rw [found_argument_missing (by simp)]
    exact .one nofun
  | opening :: rest =>
    by_cases opens : opening.kind = .opening .parenthesis
    · rw [found_argument_open opens]
      exact group_leaves rest
    · rw [found_argument_missing (by simpa using opens)]
      exact .one nofun
termination_by (tokens.length, 1)

theorem group_leaves {delimiter : Delimiter} {opening : Token Kind} (tokens : List (Token Kind)) :
    Leaves (fun _ => True) (found (group stop delimiter opening tokens)) := by
  match tokens with
  | [] =>
    rw [found_group_nil]
    exact .one nofun
  | token :: rest =>
    by_cases closes : token.kind = .closing delimiter
    · rw [found_group_empty closes]
      exact .one nofun
    · rw [found_group closes]
      exact (expression_leaves (token :: rest)).bind fun _ _ _ => closingAfter_leaves
termination_by (tokens.length, 7)

end

theorem exists_next_of_found {cursor : Nat}
    (h : found (expression stop (tokens.drop cursor)) = .ok (f, rest)) :
    ∃ next, cursor < next ∧ next ≤ tokens.length ∧ rest = tokens.drop next ∧ EndsSum rest := by
  obtain ⟨read, hread, derived⟩ := starts_expression (m := .tree) h
  have hpos := List.length_pos_iff.mpr derived.ne_nil
  have hlength := congrArg List.length hread
  rw [List.length_drop, List.length_append] at hlength
  have hends : EndsSum rest := by
    have hleaves : Leaves EndsSum (.ok (f, rest)) := h ▸ expression_leaves (tokens.drop cursor)
    cases hleaves with
    | ok hends => exact hends
  refine ⟨cursor + read.length, by omega, by omega, ?_, hends⟩
  rw [← List.drop_drop, hread, List.drop_left]

theorem cause_trailing (h : EndsSum (token :: rest)) :
    (trailing stop token).cause ≠ .expectedEnd := by
  rw [trailing]
  rcases h token rfl with kind | ⟨delimiter, kind⟩
  · rw [kind]
    nofun
  · rw [kind]
    nofun

theorem cause_ofTokens {d : Diagnostic} (h : (ofTokens stop tokens).outcome = .error d) :
    d.cause ≠ .expectedEnd := by
  have hleaves : Leaves EndsSum (found (expression stop tokens)) := expression_leaves tokens
  rw [outcome_ofTokens] at h
  generalize found (expression stop tokens) = x at h hleaves
  cases hleaves with
  | error hcause =>
    cases h
    exact hcause
  | @ok f rest hends =>
    cases rest with
    | nil => cases h
    | cons token rest =>
      cases h
      exact cause_trailing hends

theorem cause_parse {input : String} {d : Diagnostic} (h : parse input = .error d) :
    d.cause ≠ .expectedEnd := by
  rw [parse, ofSource] at h
  by_cases empty : (sourceOf input).isEmpty
  · rw [if_pos empty] at h
    cases h
    simp [Diagnostic.one]
  · rw [if_neg empty] at h
    exact cause_ofTokens h

/-- The reader of groups, at the tokens from the opening one on. It looks for this one once more,
and finds `missing` where there is none. -/
def groupAt (missing : Found) (stop : Nat) (delimiter : Delimiter) : List (Token Kind) → Found
  | [] => missing
  | opening :: rest => found (group stop delimiter opening rest)

def primaryOver (group : Delimiter → List (Token Kind) → Found) (stop : Nat) :
    List (Token Kind) → Found
  | [] => .error (.one (Span.point stop) .unexpectedEnd)
  | token :: rest =>
    match token.kind with
    | .function g =>
      if rest.head?.map Token.kind = some (.opening .parenthesis) then
        group .parenthesis rest >>= fun read => .ok (.call g read.1, read.2)
      else .error (.one token.span (.missingArgument token.text))
    | .opening delimiter => group delimiter (token :: rest)
    | _ => (atom token).map fun f => (f, rest)

theorem found_primary (missing : Found) :
    found (primary stop tokens) = primaryOver (groupAt missing stop) stop tokens := by
  match tokens with
  | [] => exact found_primary_nil
  | token :: rest =>
    rw [primaryOver]
    split
    · next g kind =>
      rw [found_primary_function kind]
      split
      · next hopen =>
        obtain ⟨opening, hhead, opens⟩ := Option.map_eq_some_iff.mp hopen
        obtain ⟨inside, rfl⟩ := List.head?_eq_some_iff.mp hhead
        rw [found_argument_open opens]
        rfl
      · next hopen =>
        rw [found_argument_missing fun opening hmem opens => hopen (by rw [hmem, ← opens]; rfl)]
        rfl
    · next delimiter kind => exact found_primary_opening kind
    · next function opening => exact found_primary_atom function opening

/-- An expression that is found behind some of the tokens ends behind a later one of them: behind
the last, or in front of a closing delimiter or a character that is no token of the grammar. So what
follows a complete formula always has an error of its own, whatever the tokens or the text; and a
group is read only where one is opened, whatever its reader would find elsewhere. -/
theorem expression_remainder (stop : Nat) (tokens : List (Token Kind)) :
    (∀ (cursor : Nat) (f : Formula) (rest : List (Token Kind)),
      found (expression stop (tokens.drop cursor)) = .ok (f, rest) →
        ∃ next, cursor < next ∧ next ≤ tokens.length ∧ rest = tokens.drop next ∧ EndsSum rest) ∧
    (∀ d : Diagnostic, (ofTokens stop tokens).outcome = .error d → d.cause ≠ .expectedEnd) ∧
    (∀ (maxPower : Nat) (input : String) (d : Diagnostic),
      RealFunction.parse maxPower input = .error d → d.cause ≠ .expectedEnd) ∧
    ∀ missing : Found,
      found (primary stop tokens) = primaryOver (groupAt missing stop) stop tokens := by
  refine ⟨fun cursor f rest h => exists_next_of_found h, fun d h => cause_ofTokens h, ?_,
    found_primary⟩
  intro maxPower input d h
  rw [RealFunction.parse] at h
  cases hparse : Formula.parse input with
  | ok f => simp [hparse, Except.map] at h
  | error d' =>
    rw [hparse] at h
    cases h
    exact cause_parse hparse

theorem expression_remainder_of_brace :
    let tokens := lexicon.scan (sourceOf "2(x-1\x7d")
    let rest : List (Token Kind) := [⟨.closing .brace, ['\x7d'], ⟨5, 6⟩⟩]
    found (expression 6 (tokens.drop 3)) = .ok (.binary .sub .variable (.number 1), rest) ∧
      ∃ next, 3 < next ∧ next ≤ tokens.length ∧ rest = tokens.drop next ∧ EndsSum rest := by
  intro tokens rest
  have htokens : tokens.drop 3 = ([⟨.variable, ['x'], ⟨2, 3⟩⟩] ++
      ⟨.operator .sub, ['-'], ⟨3, 4⟩⟩ :: [⟨.number, ['1'], ⟨4, 5⟩⟩]) ++ rest := by
    decide +kernel
  have hone : Number.read? ['1'] = some 1 := by decide +kernel
  have x : Finds .term [⟨.variable, ['x'], ⟨2, 3⟩⟩] .variable :=
    ((Finds.x rfl).primary.power ⟨_, _, rfl, rfl⟩).unary
  have one : Finds .term [⟨.number, ['1'], ⟨4, 5⟩⟩] (.number 1) :=
    ((Finds.number rfl hone).primary.power ⟨_, _, rfl, rfl⟩).unary
  have hfound : found (expression 6 (tokens.drop 3)) =
      .ok (.binary .sub .variable (.number 1), rest) := by
    rw [htokens]
    exact (x.term.shifted rfl (.inr rfl) one).complete fun _ hmem => ⟨.brace, by cases hmem; rfl⟩
  exact ⟨hfound, (expression_remainder 6 tokens).1 3 _ rest hfound⟩

end Calculator.Formula
