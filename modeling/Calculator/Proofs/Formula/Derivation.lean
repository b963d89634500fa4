import Calculator.Proofs.Formula.Grammar
import Calculator.Proofs.Formula.Reading

/-!
Reading formulas follows their grammar. One direction is an induction over the readers: what one of
them finds at the front of the tokens is a phrase of its kind, and a reader of a repetition extends
the phrase before it. The other is an induction over the derivation: a phrase is found wherever what
comes after it does not go on with it. A repetition is not found as a whole there, but handed on to
its reader with the phrase so far, since only what follows decides whether it is complete.
-/

set_option autoImplicit false
set_option relaxedAutoImplicit false

namespace Calculator.Formula

variable {α : Type} {m : Meaning α} {stop : Nat} {tokens rest : List (Token Kind)} {f : Formula}

/-! What is found is derived. -/

/-- The tokens start with a phrase that means what the formula does. -/
def Starts (m : Meaning α) (p : Phrase) (tokens : List (Token Kind)) (f : Formula)
    (rest : List (Token Kind)) : Prop :=
  ∃ read, tokens = read ++ rest ∧ Derives m p read (f.fold m)

def Extends (m : Meaning α) (p : Phrase) (before tokens : List (Token Kind)) (f : Formula)
    (rest : List (Token Kind)) : Prop :=
  ∃ read, tokens = read ++ rest ∧ Derives m p (before ++ read) (f.fold m)

theorem Derives.extends {p : Phrase} (h : Derives m p tokens (f.fold m)) :
    Extends m p tokens rest f rest :=
  ⟨[], rfl, (List.append_nil tokens).symm ▸ h⟩

theorem Extends.append {p : Phrase} {before between read : List (Token Kind)}
    (h : Extends m p (before ++ read) between f rest) (hr : tokens = read ++ between) :
    Extends m p before tokens f rest := by
  obtain ⟨more, hm, derived⟩ := h
  exact ⟨read ++ more, by rw [hr, hm, List.append_assoc], by rwa [← List.append_assoc]⟩

theorem Extends.starts {p : Phrase} {between read : List (Token Kind)}
    (h : Extends m p read between f rest) (hr : tokens = read ++ between) :
    Starts m p tokens f rest := by
  obtain ⟨more, hm, derived⟩ := h
  exact ⟨read ++ more, by rw [hr, hm, List.append_assoc], derived⟩

theorem derives_atom {token : Token Kind} (h : atom token = .ok f) :
    Derives m .primary [token] (f.fold m) := by
  cases kind : token.kind with
  | number =>
    cases read : Number.read? token.lexeme with
    | none => simp [atom, kind, read] at h
    | some value =>
      simp only [atom, kind, read, Except.ok.injEq] at h
      subst h
      exact .number kind read
  | euler =>
    simp only [atom, kind, Except.ok.injEq] at h
    subst h
    exact .euler kind
  | function | operator | opening | closing | symbol => simp [atom, kind] at h
  | _ =>
    simp only [atom, kind, Except.ok.injEq] at h
    subst h
    exact .x kind

mutual

theorem starts_expression {tokens rest : List (Token Kind)} {f : Formula}
    (h : found (expression stop tokens) = .ok (f, rest)) : Starts m .expression tokens f rest := by
  rw [found_expression] at h
  obtain ⟨⟨first, between⟩, hfirst, hmore⟩ := bind_eq_ok_iff.mp h
  have := length_lt_of_found hfirst
  obtain ⟨read, hread, derived⟩ := starts_term hfirst
  exact (extends_expression (.term derived) hmore).starts hread
termination_by (tokens.length, 6)

theorem extends_expression {before tokens rest : List (Token Kind)} {sum f : Formula}
    (hb : Derives m .expression before (sum.fold m))
    (h : found (expressionTail stop sum tokens) = .ok (f, rest)) :
    Extends m .expression before tokens f rest := by
  match tokens with
  | [] =>
    rw [found_expressionTail_nil] at h
    cases h
    exact hb.extends
  | token :: tail =>
    by_cases shift : ∃ op, token.kind = .operator op ∧ (op = .add ∨ op = .sub)
    · obtain ⟨op, kind, shifts⟩ := shift
      rw [found_expressionTail_shift kind shifts] at h
      obtain ⟨⟨next, between⟩, hnext, hmore⟩ := bind_eq_ok_iff.mp h
      have := length_lt_of_found hnext
      obtain ⟨read, hread, derived⟩ := starts_term hnext
      exact (extends_expression (.shifted hb kind shifts derived) hmore).append
        (by rw [hread, List.cons_append])
    · rw [found_expressionTail_stay (fun kind => shift ⟨_, kind, .inl rfl⟩)
        (fun kind => shift ⟨_, kind, .inr rfl⟩)] at h
      cases h
      exact hb.extends
termination_by (tokens.length, 5)

theorem starts_term {tokens rest : List (Token Kind)} {f : Formula}
    (h : found (term stop tokens) = .ok (f, rest)) : Starts m .term tokens f rest := by
  rw [found_term] at h
  obtain ⟨⟨first, between⟩, hfirst, hmore⟩ := bind_eq_ok_iff.mp h
  have := length_lt_of_found hfirst
  obtain ⟨read, hread, derived⟩ := starts_unary hfirst
  exact (extends_term (.unary derived) hmore).starts hread
termination_by (tokens.length, 5)

theorem extends_term {before tokens rest : List (Token Kind)} {product f : Formula}
    (hb : Derives m .term before (product.fold m))
    (h : found (termTail stop product tokens) = .ok (f, rest)) :
    Extends m .term before tokens f rest := by
  match tokens with
  | [] =>
    rw [found_termTail_nil] at h
    cases h
    exact hb.extends
  | token :: tail =>
    by_cases scale : ∃ op, token.kind = .operator op ∧ (op = .mul ∨ op = .div)
    · obtain ⟨op, kind, scales⟩ := scale
      rw [found_termTail_scale kind scales] at h
      obtain ⟨⟨next, between⟩, hnext, hmore⟩ := bind_eq_ok_iff.mp h
      have := length_lt_of_found hnext
      obtain ⟨read, hread, derived⟩ := starts_unary hnext
      exact (extends_term (.scaled hb kind scales derived) hmore).append
        (by rw [hread, List.cons_append])
    · cases starts : token.kind.startsFactor with
      | true =>
        rw [found_termTail_factor starts] at h
        obtain ⟨⟨next, between⟩, hnext, hmore⟩ := bind_eq_ok_iff.mp h
        have := length_lt_of_found hnext
        obtain ⟨read, hread, derived⟩ := starts_power hnext
        exact (extends_term (.juxtaposed hb derived) hmore).append hread
      | false =>
        rw [found_termTail_stay (fun kind => scale ⟨_, kind, .inl rfl⟩)
          (fun kind => scale ⟨_, kind, .inr rfl⟩) starts] at h
        cases h
        exact hb.extends
termination_by (tokens.length, 4)

theorem starts_unary {tokens rest : List (Token Kind)} {f : Formula}
    (h : found (unary stop tokens) = .ok (f, rest)) : Starts m .unary tokens f rest := by
  match tokens with
  | [] =>
    rw [found_unary_nil] at h
    obtain ⟨read, hread, derived⟩ := starts_power h
    exact ⟨read, hread, .power derived⟩
  | token :: tail =>
    by_cases minus : token.kind = .operator .sub
    · rw [found_unary_minus minus] at h
      obtain ⟨⟨operand, between⟩, hoperand, hf⟩ := bind_eq_ok_iff.mp h
      cases hf
      obtain ⟨read, hread, derived⟩ := starts_unary hoperand
      exact ⟨token :: read, by rw [hread, List.cons_append], .minus minus derived⟩
    by_cases plus : token.kind = .operator .add
    · rw [found_unary_plus plus] at h
      obtain ⟨read, hread, derived⟩ := starts_unary h
      exact ⟨token :: read, by rw [hread, List.cons_append], .plus plus derived⟩
    · rw [found_unary_power plus minus] at h
      obtain ⟨read, hread, derived⟩ := starts_power h
      exact ⟨read, hread, .power derived⟩
termination_by (tokens.length, 4)

theorem starts_power {tokens rest : List (Token Kind)} {f : Formula}
    (h : found (power stop tokens) = .ok (f, rest)) : Starts m .power tokens f rest := by
  rw [found_power] at h
  obtain ⟨⟨base, between⟩, hbase, hexp⟩ := bind_eq_ok_iff.mp h
  have := length_lt_of_found hbase
  obtain ⟨read, hread, derived⟩ := starts_primary hbase
  match between with
  | [] =>
    cases hexp
    exact ⟨read, hread, .primary derived⟩
  | token :: tail =>
    by_cases kind : token.kind = .operator .pow
    · simp only [exponentAfter, kind, if_true] at hexp
      obtain ⟨⟨exponent, after⟩, hexponent, hf⟩ := bind_eq_ok_iff.mp hexp
      cases hf
      have : tail.length < tokens.length := Nat.lt_of_succ_lt this
      obtain ⟨read', hread', derived'⟩ := starts_unary hexponent
      exact ⟨read ++ token :: read', by simp [hread, hread'], .raised derived kind derived'⟩
    · simp only [exponentAfter, kind, if_false] at hexp
      cases hexp
      exact ⟨read, hread, .primary derived⟩
termination_by (tokens.length, 3)

theorem starts_primary {tokens rest : List (Token Kind)} {f : Formula}
    (h : found (primary stop tokens) = .ok (f, rest)) : Starts m .primary tokens f rest := by
  match tokens with
  | [] =>
    rw [found_primary_nil] at h
    cases h
  | token :: tail =>
    by_cases function : ∃ g, token.kind = .function g
    · obtain ⟨g, kind⟩ := function
      rw [found_primary_function kind] at h
      obtain ⟨⟨arg, between⟩, harg, hf⟩ := bind_eq_ok_iff.mp h
      cases hf
      obtain ⟨opening, inner, closing, htail, opens, closes, derived⟩ := derives_argument harg
      exact ⟨token :: opening :: (inner ++ [closing]), by simp [htail],
        .call kind opens closes derived⟩
    by_cases opens : ∃ delimiter, token.kind = .opening delimiter
    · obtain ⟨delimiter, opens⟩ := opens
      rw [found_primary_opening opens] at h
      obtain ⟨inner, closing, htail, closes, derived⟩ := derives_group h
      exact ⟨token :: (inner ++ [closing]), by simp [htail], .group opens closes derived⟩
    · rw [found_primary_atom (fun g kind => function ⟨g, kind⟩)
        (fun delimiter kind => opens ⟨delimiter, kind⟩)] at h
      cases ha : atom token with
      | error d => simp [ha, Except.map] at h
      | ok g =>
        simp only [ha, Except.map, Except.ok.injEq, Prod.mk.injEq] at h
        obtain ⟨rfl, rfl⟩ := h
        exact ⟨[token], rfl, derives_atom ha⟩
termination_by (tokens.length, 2)

theorem derives_argument {name : Token Kind} {tokens rest : List (Token Kind)} {f : Formula}
    (h : found (argument stop name tokens) = .ok (f, rest)) :
    ∃ opening inner closing, tokens = opening :: (inner ++ closing :: rest) ∧
      opening.kind = .opening .parenthesis ∧ closing.kind = .closing .parenthesis ∧
      Derives m .expression inner (f.fold m) := by
  match tokens with
  | [] =>
    rw [found_argument_missing (by simp)] at h
    cases h
  | opening :: inside =>
    by_cases opens : opening.kind = .opening .parenthesis
    · rw [found_argument_open opens] at h
      obtain ⟨inner, closing, hinside, closes, derived⟩ := derives_group h
      exact ⟨opening, inner, closing, by rw [hinside], opens, closes, derived⟩
    · rw [found_argument_missing (by simpa using opens)] at h
      cases h
termination_by (tokens.length, 1)

theorem derives_group {delimiter : Delimiter} {opening : Token Kind}
    {tokens rest : List (Token Kind)} {f : Formula}
    (h : found (group stop delimiter opening tokens) = .ok (f, rest)) :
    ∃ inner closing, tokens = inner ++ closing :: rest ∧ closing.kind = .closing delimiter ∧
      Derives m .expression inner (f.fold m) := by
  match tokens with
  | [] =>
    rw [found_group_nil] at h
    cases h
  | token :: tail =>
    by_cases closes : token.kind = .closing delimiter
    · rw [found_group_empty closes] at h
      cases h
    · rw [found_group closes] at h
      obtain ⟨⟨inner, between⟩, hinner, hclose⟩ := bind_eq_ok_iff.mp h
      obtain ⟨read, hread, derived⟩ := starts_expression hinner
      match between with
      | [] => cases hclose
      | closing :: after =>
        by_cases closes : closing.kind = .closing delimiter
        · simp only [closingAfter, closes, if_true] at hclose
          cases hclose
          exact ⟨read, closing, hread, closes, derived⟩
        · simp only [closingAfter, closes, if_false] at hclose
          cases hclose
termination_by (tokens.length, 7)

end

/-! What is derived is found. -/

namespace Derives

variable {p : Phrase} {a : α}

theorem startsFactor (h : Derives m p tokens a) (hp : p = .power ∨ p = .primary) :
    ∃ token tail, tokens = token :: tail ∧ token.kind.startsFactor = true := by
  induction h with
  | number kind | x kind | euler kind | call kind | group kind =>
    exact ⟨_, _, rfl, by rw [kind]; rfl⟩
  | primary _ ih => exact ih (.inr rfl)
  | raised _ _ _ ih =>
    obtain ⟨token, tail, rfl, starts⟩ := ih (.inr rfl)
    exact ⟨token, _, List.cons_append, starts⟩
  | power | plus | minus | unary | scaled | juxtaposed | term | shifted => simp at hp

theorem head_ne_closing (h : Derives m p tokens a) :
    ∃ token tail, tokens = token :: tail ∧ ∀ delimiter, token.kind ≠ .closing delimiter := by
  have factor {token : Token Kind} (starts : token.kind.startsFactor = true)
      (delimiter : Delimiter) : token.kind ≠ .closing delimiter := by
    intro kind
    simp [kind, Kind.startsFactor] at starts
  induction h with
  | number kind | x kind | euler kind | call kind | group kind =>
    exact ⟨_, _, rfl, factor (by rw [kind]; rfl)⟩
  | primary _ ih | power _ ih | unary _ ih | term _ ih => exact ih
  | plus kind | minus kind => exact ⟨_, _, rfl, by simp [kind]⟩
  | raised _ _ _ ih | scaled _ _ _ _ ih | juxtaposed _ _ ih | shifted _ _ _ _ ih =>
    obtain ⟨token, tail, rfl, ne⟩ := ih
    exact ⟨token, _, List.cons_append, ne⟩

theorem ne_nil (h : Derives m p tokens a) : tokens ≠ [] := by
  obtain ⟨token, tail, rfl, -⟩ := h.head_ne_closing
  exact List.cons_ne_nil token tail

end Derives

def EndsPower (rest : List (Token Kind)) : Prop :=
  ∀ token ∈ rest.head?, token.kind ≠ .operator .pow

def EndsTerm (rest : List (Token Kind)) : Prop :=
  ∀ token ∈ rest.head?, token.kind ≠ .operator .pow ∧ token.kind ≠ .operator .mul ∧
    token.kind ≠ .operator .div ∧ token.kind.startsFactor = false

/-- What comes next closes a group, if anything does. -/
def EndsExpression (rest : List (Token Kind)) : Prop :=
  ∀ token ∈ rest.head?, ∃ delimiter, token.kind = .closing delimiter

theorem EndsTerm.endsPower (h : EndsTerm rest) : EndsPower rest := fun token ht => (h token ht).1

theorem EndsExpression.endsTerm (h : EndsExpression rest) : EndsTerm rest := by
  intro token ht
  obtain ⟨delimiter, kind⟩ := h token ht
  simp [kind, Kind.startsFactor]

theorem EndsPower.exponentAfter (h : EndsPower rest) :
    exponentAfter stop f rest = .ok (f, rest) := by
  cases rest with
  | nil => rfl
  | cons token rest => exact if_neg (h token rfl)

theorem EndsTerm.found_termTail (h : EndsTerm rest) :
    found (termTail stop f rest) = .ok (f, rest) := by
  cases rest with
  | nil => exact found_termTail_nil
  | cons token rest =>
    obtain ⟨-, mul, div, starts⟩ := h token rfl
    exact found_termTail_stay mul div starts

theorem EndsExpression.found_expressionTail (h : EndsExpression rest) :
    found (expressionTail stop f rest) = .ok (f, rest) := by
  cases rest with
  | nil => exact found_expressionTail_nil
  | cons token rest =>
    obtain ⟨delimiter, kind⟩ := h token rfl
    exact found_expressionTail_stay (by simp [kind]) (by simp [kind])

/-- Readers find this formula in the tokens of a phrase, whatever comes next that does not go on
with it. -/
def Finds : Phrase → List (Token Kind) → Formula → Prop
  | .primary, tokens, f => ∀ stop rest, found (primary stop (tokens ++ rest)) = .ok (f, rest)
  | .power, tokens, f => ∀ stop rest, EndsPower rest →
      found (power stop (tokens ++ rest)) = .ok (f, rest)
  | .unary, tokens, f => ∀ stop rest, EndsPower rest →
      found (unary stop (tokens ++ rest)) = .ok (f, rest)
  | .term, tokens, f => ∀ stop rest, EndsPower rest →
      found (term stop (tokens ++ rest)) = found (termTail stop f rest)
  | .expression, tokens, f => ∀ stop rest, EndsTerm rest →
      found (expression stop (tokens ++ rest)) = found (expressionTail stop f rest)

namespace Finds

variable {f g : Formula} {ls rs : List (Token Kind)} {token : Token Kind} {op : Operator}

theorem complete (h : Finds .expression tokens f) (hr : EndsExpression rest) :
    found (expression stop (tokens ++ rest)) = .ok (f, rest) :=
  (h stop rest hr.endsTerm).trans hr.found_expressionTail

theorem atom {g : Formula} (function : ∀ f : Builtin, token.kind ≠ .function f)
    (opening : ∀ delimiter : Delimiter, token.kind ≠ .opening delimiter)
    (h : Formula.atom token = .ok g) : Finds .primary [token] g := by
  intro stop rest
  rw [List.singleton_append, found_primary_atom function opening, h]
  rfl

theorem group {delimiter : Delimiter} {opening closing : Token Kind}
    (closes : closing.kind = .closing delimiter)
    (head : ∃ token tail, tokens = token :: tail ∧ ∀ delimiter, token.kind ≠ .closing delimiter)
    (h : Finds .expression tokens f) :
    found (Formula.group stop delimiter opening (tokens ++ closing :: rest)) = .ok (f, rest) := by
  obtain ⟨token, tail, rfl, ne⟩ := head
  have hr : EndsExpression (closing :: rest) := by simp [EndsExpression, closes]
  rw [List.cons_append, found_group (ne delimiter), ← List.cons_append, h.complete hr]
  simp [bind, Except.bind, closingAfter, closes]

theorem number {value : Float} (kind : token.kind = .number)
    (read : Number.read? token.lexeme = some value) : Finds .primary [token] (.number value) :=
  .atom (by simp [kind]) (by simp [kind]) (by simp [Formula.atom, kind, read])

theorem x (kind : token.kind = .variable) : Finds .primary [token] .variable :=
  .atom (by simp [kind]) (by simp [kind]) (by simp [Formula.atom, kind])

theorem euler (kind : token.kind = .euler) : Finds .primary [token] (.number Formula.euler) :=
  .atom (by simp [kind]) (by simp [kind]) (by simp [Formula.atom, kind])

theorem call {name opening closing : Token Kind} {b : Builtin} (kind : name.kind = .function b)
    (opens : opening.kind = .opening .parenthesis) (closes : closing.kind = .closing .parenthesis)
    (head : ∃ token tail, tokens = token :: tail ∧ ∀ delimiter, token.kind ≠ .closing delimiter)
    (h : Finds .expression tokens f) :
    Finds .primary (name :: opening :: (tokens ++ [closing])) (.call b f) := by
  intro stop rest
  rw [List.cons_append, List.cons_append, List.append_assoc, List.singleton_append,
    found_primary_function kind, found_argument_open opens, h.group closes head]
  rfl

theorem primary (h : Finds .primary tokens f) : Finds .power tokens f := by
  intro stop rest hr
  rw [found_power, h]
  exact hr.exponentAfter

theorem raised (lhs : Finds .primary ls f) (kind : token.kind = .operator .pow)
    (rhs : Finds .unary rs g) : Finds .power (ls ++ token :: rs) (.binary .pow f g) := by
  intro stop rest hr
  rw [found_power, List.append_assoc, lhs]
  simp only [bind, Except.bind, exponentAfter, List.cons_append, kind, if_true, rhs stop rest hr]

theorem power (h : Finds .power tokens f)
    (head : ∃ token tail, tokens = token :: tail ∧ token.kind.startsFactor = true) :
    Finds .unary tokens f := by
  intro stop rest hr
  obtain ⟨token, tail, rfl, starts⟩ := head
  have unsigned (op : Operator) : token.kind ≠ .operator op := by
    intro kind
    simp [kind, Kind.startsFactor] at starts
  rw [List.cons_append, found_unary_power (unsigned _) (unsigned _), ← List.cons_append]
  exact h stop rest hr

theorem plus (kind : token.kind = .operator .add) (h : Finds .unary tokens f) :
    Finds .unary (token :: tokens) f := by
  intro stop rest hr
  rw [List.cons_append, found_unary_plus kind]
  exact h stop rest hr

theorem minus (kind : token.kind = .operator .sub) (h : Finds .unary tokens f) :
    Finds .unary (token :: tokens) (.neg f) := by
  intro stop rest hr
  rw [List.cons_append, found_unary_minus kind, h stop rest hr]
  rfl

theorem unary (h : Finds .unary tokens f) : Finds .term tokens f := by
  intro stop rest hr
  rw [found_term, h stop rest hr]
  rfl

theorem scaled (lhs : Finds .term ls f) (kind : token.kind = .operator op)
    (scales : op = .mul ∨ op = .div) (rhs : Finds .unary rs g) :
    Finds .term (ls ++ token :: rs) (.binary op f g) := by
  intro stop rest hr
  have hop : EndsPower (token :: (rs ++ rest)) := by
    rcases scales with rfl | rfl <;> simp [EndsPower, kind]
  rw [List.append_assoc, List.cons_append, lhs stop _ hop, found_termTail_scale kind scales,
    rhs stop rest hr]
  rfl

theorem juxtaposed (lhs : Finds .term ls f) (rhs : Finds .power rs g)
    (head : ∃ token tail, rs = token :: tail ∧ token.kind.startsFactor = true) :
    Finds .term (ls ++ rs) (.binary .mul f g) := by
  intro stop rest hr
  obtain ⟨token, tail, rfl, starts⟩ := head
  have hfactor : EndsPower (token :: (tail ++ rest)) := by
    rintro _ ⟨rfl⟩ kind
    simp [kind, Kind.startsFactor] at starts
  rw [List.append_assoc, List.cons_append, lhs stop _ hfactor, found_termTail_factor starts,
    ← List.cons_append, rhs stop rest hr]
  rfl

theorem term (h : Finds .term tokens f) : Finds .expression tokens f := by
  intro stop rest hr
  rw [found_expression, h stop rest hr.endsPower, hr.found_termTail]
  rfl

theorem shifted (lhs : Finds .expression ls f) (kind : token.kind = .operator op)
    (shifts : op = .add ∨ op = .sub) (rhs : Finds .term rs g) :
    Finds .expression (ls ++ token :: rs) (.binary op f g) := by
  intro stop rest hr
  have hop : EndsTerm (token :: (rs ++ rest)) := by
    rcases shifts with rfl | rfl <;> simp [EndsTerm, kind, Kind.startsFactor]
  rw [List.append_assoc, List.cons_append, lhs stop _ hop, found_expressionTail_shift kind shifts,
    rhs stop rest hr.endsPower, hr.found_termTail]
  rfl

end Finds

theorem Derives.finds {p : Phrase} {a : α} (h : Derives m p tokens a) :
    ∃ f : Formula, f.fold m = a ∧ Finds p tokens f := by
  induction h with
  | number kind read => exact ⟨_, rfl, .number kind read⟩
  | x kind => exact ⟨_, rfl, .x kind⟩
  | euler kind => exact ⟨_, rfl, .euler kind⟩
  | call kind opens closes inside ih =>
    obtain ⟨f, rfl, hf⟩ := ih
    exact ⟨_, rfl, hf.call kind opens closes inside.head_ne_closing⟩
  | group opens closes inside ih =>
    obtain ⟨f, rfl, hf⟩ := ih
    refine ⟨f, rfl, fun stop rest => ?_⟩
    rw [List.cons_append, List.append_assoc, List.singleton_append, found_primary_opening opens]
    exact hf.group closes inside.head_ne_closing
  | primary _ ih =>
    obtain ⟨f, rfl, hf⟩ := ih
    exact ⟨f, rfl, hf.primary⟩
  | raised _ kind _ ihl ihr =>
    obtain ⟨f, rfl, hf⟩ := ihl
    obtain ⟨g, rfl, hg⟩ := ihr
    exact ⟨_, rfl, hf.raised kind hg⟩
  | power h ih =>
    obtain ⟨f, rfl, hf⟩ := ih
    exact ⟨f, rfl, hf.power (h.startsFactor (.inl rfl))⟩
  | plus kind _ ih =>
    obtain ⟨f, rfl, hf⟩ := ih
    exact ⟨f, rfl, hf.plus kind⟩
  | minus kind _ ih =>
    obtain ⟨f, rfl, hf⟩ := ih
    exact ⟨_, rfl, hf.minus kind⟩
  | unary _ ih =>
    obtain ⟨f, rfl, hf⟩ := ih
    exact ⟨f, rfl, hf.unary⟩
  | scaled _ kind scales _ ihl ihr =>
    obtain ⟨f, rfl, hf⟩ := ihl
    obtain ⟨g, rfl, hg⟩ := ihr
    exact ⟨_, rfl, hf.scaled kind scales hg⟩
  | juxtaposed _ factor ihl ihr =>
    obtain ⟨f, rfl, hf⟩ := ihl
    obtain ⟨g, rfl, hg⟩ := ihr
    exact ⟨_, rfl, hf.juxtaposed hg (factor.startsFactor (.inl rfl))⟩
  | term _ ih =>
    obtain ⟨f, rfl, hf⟩ := ih
    exact ⟨f, rfl, hf.term⟩
  | shifted _ kind shifts _ ihl ihr =>
    obtain ⟨f, rfl, hf⟩ := ihl
    obtain ⟨g, rfl, hg⟩ := ihr
    exact ⟨_, rfl, hf.shifted kind shifts hg⟩

theorem derives_of_ofTokens (h : (ofTokens stop tokens).outcome = .ok f) :
    Derives m .expression tokens (f.fold m) := by
  rw [outcome_ofTokens] at h
  obtain ⟨⟨g, rest⟩, hfound, hend⟩ := bind_eq_ok_iff.mp h
  obtain ⟨read, rfl, derived⟩ := starts_expression (m := m) hfound
  cases rest with
  | nil =>
    cases hend
    rwa [List.append_nil]
  | cons token rest => cases hend

theorem Derives.ofTokens {a : α} (h : Derives m .expression tokens a) :
    ∃ f : Formula, f.fold m = a ∧ ∀ stop, (ofTokens stop tokens).outcome = .ok f := by
  obtain ⟨f, rfl, hf⟩ := h.finds
  refine ⟨f, rfl, fun stop => ?_⟩
  have hfound : found (expression stop (tokens ++ [])) = .ok (f, []) :=
    hf.complete (by simp [EndsExpression])
  rw [List.append_nil] at hfound
  rw [outcome_ofTokens, hfound]
  rfl

/-- Reading and compiling accepts exactly what the grammar derives, as exactly the function it
derives, whatever the bound on the powers that are expanded. -/
theorem compile_ofTokens_eq_ok_iff {maxPower : Nat} {F : RealFunction Float} :
    (ofTokens stop tokens).outcome.map (compile maxPower) = .ok F ↔
      Derives (.function maxPower) .expression tokens F := by
  constructor
  · intro h
    cases hf : (Formula.ofTokens stop tokens).outcome with
    | error d => simp [hf, Except.map] at h
    | ok f =>
      simp only [hf, Except.map, Except.ok.injEq, compile_eq_fold] at h
      exact h ▸ derives_of_ofTokens hf
  · intro h
    obtain ⟨f, rfl, hf⟩ := h.ofTokens
    simp only [hf, Except.map, compile_eq_fold]

theorem derives_tree_iff :
    Derives .tree .expression tokens f ↔ (ofTokens stop tokens).outcome = .ok f := by
  constructor
  · intro h
    obtain ⟨g, rfl, hread⟩ := h.ofTokens
    rw [hread, fold_tree]
  · intro h
    have derived := derives_of_ofTokens (m := .tree) h
    rwa [fold_tree] at derived

theorem parse_eq_ok_iff {input : String} :
    parse input = .ok f ↔ Derives .tree .expression (lexicon.scan (sourceOf input)) f := by
  rw [parse, ofSource]
  split
  · next hempty =>
    have hnone : (sourceOf input).glyphs = [] := List.isEmpty_iff.mp hempty
    constructor
    · intro h
      cases h
    · intro h
      rw [Lexicon.scan, hnone] at h
      exact absurd rfl h.ne_nil
  · exact derives_tree_iff.symm

end Calculator.Formula
