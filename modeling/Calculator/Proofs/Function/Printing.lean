import Calculator.Proofs.Formula.Derivation
import Calculator.Proofs.Formula.Placement
import Calculator.Proofs.Formula.Products
import Calculator.Proofs.Formula.Scanning
import Calculator.Proofs.Function.Degrees
import Calculator.Proofs.Number.Exact
import Calculator.Proofs.Number.ReadBack
import Calculator.Proofs.Text.Stripping

/-!
The text of a polynomial is a formula for it. Each term is read as a polynomial with one coefficient
other than zero; adding it to what was read before changes one zero coefficient and adds zeros to
the rest, which is exact.
-/

set_option autoImplicit false
set_option relaxedAutoImplicit false

namespace Calculator

open Binary64 (IsZero)
open RealFunction (defaultMaxPower)

namespace Polynomial

abbrev Equal : List Float → List Float → Prop := List.Forall₂ fun a b => (a == b) = true

theorem beq_of_equal {first second : List Float} (h : Equal first second) :
    (first == second) = true := by
  induction h with
  | nil => rfl
  | cons head _ ih =>
    rw [List.cons_beq_cons, head, ih]
    rfl

def trimmed (p : Polynomial Float) : Polynomial Float := ofCoeffs (p.coeffs.dropWhile (· == 0))

def monomial (c : Float) (power : Nat) : Polynomial Float := ⟨c :: List.replicate power 0, by simp⟩

theorem equal_replicate (count : Nat) {a b : Float} (h : (a == b) = true) :
    Equal (List.replicate count a) (List.replicate count b) := by
  induction count with
  | zero => exact .nil
  | succ count ih => exact .cons h ih

theorem addRows_zeros (k : Nat) :
    addRows [(1 : Float), 0] (List.replicate k 0) (List.replicate (k + 1) 0) =
      List.replicate (k + 1) 0 := by
  have hone : (0 : Float) + 0 * 1 = 0 := rfl
  have hzero : (0 : Float) + 0 * 0 = 0 := rfl
  induction k with
  | zero => rfl
  | succ k ih =>
    have hrow : addRow (0 : Float) [1, 0] (List.replicate (k + 2) 0) =
        List.replicate (k + 2) 0 := by
      simp only [List.replicate_succ, addRow, hone, hzero]
    rw [List.replicate_succ, addRows, hrow, List.replicate_succ]
    dsimp only
    rw [ih]

theorem monomial_mul_identity (k : Nat) : monomial 1 k * identity = monomial 1 (k + 1) := by
  have hone : (0 : Float) + 1 * 1 = 1 := rfl
  have hzero : (0 : Float) + 1 * 0 = 0 := rfl
  have hcells : (monomial 1 k).coeffs.length + [(1 : Float), 0].length - 1 = k + 2 := by
    simp [monomial]
  have hcoeffs : (monomial 1 k * identity).coeffs = (monomial 1 (k + 1)).coeffs := by
    change addRows [1, 0] (1 :: List.replicate k 0)
      (List.replicate ((monomial 1 k).coeffs.length + [(1 : Float), 0].length - 1) 0) = _
    rw [hcells]
    simp only [List.replicate_succ, addRows, addRow, hone, hzero]
    rw [← List.replicate_succ, addRows_zeros]
    rfl
  exact eq_of_coeffs_eq hcoeffs

theorem identity_pow (k : Nat) : identity.pow k = monomial 1 k := by
  induction k with
  | zero => rfl
  | succ k ih => rw [pow, ih, monomial_mul_identity]

theorem addRow_zeros {c : Float} (finite : c.isFinite = true) (k : Nat) :
    Equal (addRow c (List.replicate k 0) (List.replicate k 0)) (List.replicate k 0) := by
  induction k with
  | zero => exact .nil
  | succ k ih =>
    have hproduct : IsZero (c * 0) := Binary64.isZero_mul_of_isFinite finite
    have hcell : ((0 : Float) + c * 0 == 0) = true :=
      Binary64.beq_add_of_isZero Binary64.isZero_zero (Binary64.isZero_iff.mp hproduct)
    exact .cons hcell ih

theorem equal_constant_mul {c : Float} (finite : c.isFinite = true) (k : Nat) :
    Equal (constant c * monomial 1 k).coeffs (monomial c k).coeffs := by
  have hcells : [c].length + (monomial 1 k).coeffs.length - 1 = k + 1 := by
    simp [monomial]
  have hone : ((0 : Float) + c * 1 == c) = true := by
    rw [Binary64.mul_one_of_isFinite finite]
    exact Binary64.beq_add_of_isZero Binary64.isZero_zero (Binary64.beq_self_of_isFinite finite)
  change Equal (addRows (1 :: List.replicate k 0) [c]
    (List.replicate ([c].length + (monomial 1 k).coeffs.length - 1) 0)) _
  rw [hcells]
  simp only [List.replicate_succ, addRows, addRow]
  exact .cons hone (addRow_zeros finite k)

section Combine

variable {f : Float → Float → Float}

theorem equal_zipWith_zeros
    (keeps : ∀ {a b z : Float}, (a == b) = true → IsZero z → (f a z == b) = true)
    {sum expected zeros : List Float} (h : Equal sum expected)
    (hzeros : Equal zeros (List.replicate sum.length 0)) :
    Equal (List.zipWith f sum zeros) expected := by
  induction h generalizing zeros with
  | nil => exact .nil
  | cons head _ ih =>
    rw [List.length_cons, List.replicate_succ] at hzeros
    cases hzeros with
    | cons hz hzeros => exact .cons (keeps head (Binary64.isZero_iff.mpr hz)) (ih hzeros)

/-- Combining a sum with a term that has its coefficient where the sum has a zero puts that
coefficient there and leaves the others as they are. -/
theorem equal_zipAligned
    (keeps : ∀ {a b z : Float}, (a == b) = true → IsZero z → (f a z == b) = true)
    {t c : Float} (places : ∀ {z a : Float}, IsZero z → (a == t) = true → (f z a == c) = true)
    {sum term : Polynomial Float} {before : List Float} {power : Nat}
    (hsum : Equal sum.coeffs (before ++ List.replicate (power + 1) 0))
    (hterm : Equal term.coeffs (monomial t power).coeffs) :
    Equal (zipAligned f sum term).coeffs (before ++ c :: List.replicate power 0) := by
  have hsumLength : sum.coeffs.length = before.length + (power + 1) := by
    rw [hsum.length_eq, List.length_append, List.length_replicate]
  have htermLength : term.coeffs.length = power + 1 := by
    rw [hterm.length_eq, monomial, List.length_cons, List.length_replicate]
  have hpadSum : padTo term.coeffs.length sum.coeffs = sum.coeffs := by
    have hnone : term.coeffs.length - sum.coeffs.length = 0 := by omega
    rw [padTo, hnone]
    rfl
  have hpadTerm : padTo sum.coeffs.length term.coeffs =
      List.replicate before.length 0 ++ term.coeffs := by
    have hfront : sum.coeffs.length - term.coeffs.length = before.length := by omega
    rw [padTo, hfront]
  have hfront := List.forall₂_take_append _ _ _ hsum
  have hback := List.forall₂_drop_append _ _ _ hsum
  have hfrontLength : (sum.coeffs.take before.length).length = before.length :=
    hfront.length_eq
  have hzeros : Equal (List.replicate before.length (0 : Float))
      (List.replicate (sum.coeffs.take before.length).length 0) := by
    rw [hfrontLength]
    exact equal_replicate _ rfl
  change Equal (List.zipWith f (padTo term.coeffs.length sum.coeffs)
    (padTo sum.coeffs.length term.coeffs)) _
  rw [hpadSum, hpadTerm, ← List.take_append_drop before.length sum.coeffs,
    List.zipWith_append (by rw [hfrontLength, List.length_replicate])]
  refine List.rel_append (equal_zipWith_zeros keeps hfront hzeros) ?_
  generalize sum.coeffs.drop before.length = rest at hback
  generalize term.coeffs = coeffs at hterm
  rw [List.replicate_succ] at hback
  cases hback with
  | cons hz hback =>
    cases hterm with
    | cons ht hterm =>
      refine .cons (places (Binary64.isZero_iff.mpr hz) ht) (equal_zipWith_zeros keeps hback ?_)
      rwa [hback.length_eq, List.length_replicate]

end Combine

open Formula (Decides Derives tokensOf)

/-- Tokens that form a phrase which stands for a polynomial. -/
abbrev Denotes (phrase : Formula.Phrase) (tokens : List (Token Formula.Kind))
    (p : Polynomial Float) : Prop :=
  Derives (.function defaultMaxPower) phrase tokens (.exact p)

def powerText : Nat → List Char
  | 0 => []
  | 1 => ['x']
  | power + 2 => 'x' :: '^' :: Decimal.digits (power + 2)

def factorText (c : Float) (power : Nat) : List Char :=
  if c.abs != 1 || power = 0 then (Number.plain c.abs).toList else []

theorem numeral_digits (n : Nat) : Number.Numeral (Decimal.digits n) :=
  ⟨Decimal.digits_ne_nil n, fun _ => Decimal.isNumeral_of_mem_digits⟩

theorem chars_strip_term {c : Float} (finite : c.isFinite = true) (power : Nat) :
    (Source.strip (term c power)).chars = factorText c power ++ powerText power := by
  have hx : (Source.strip "x").chars = ['x'] := rfl
  have hcaret : (Source.strip "x^").chars = ['x', '^'] := rfl
  have hdigits (n : Nat) : (Source.strip (String.ofList (Decimal.digits n))).chars =
      Decimal.digits n := by
    rw [Source.chars_strip, String.toList_ofList, (numeral_digits n).filter_not_isBlank]
  have hfactor (power : Nat) :
      (Source.strip (if c.abs != 1 || power = 0 then Number.plain c.abs else "")).chars =
        factorText c power := by
    obtain ⟨habs, hsign⟩ := Binary64.abs_unsigned finite
    rw [factorText]
    split
    · rw [Source.chars_strip, (Number.numeral_plain habs hsign).filter_not_isBlank]
    · rfl
  match power with
  | 0 => rw [term, hfactor, powerText, List.append_nil]
  | 1 => rw [term, Source.chars_strip_append, hfactor, hx, powerText]
  | power + 2 =>
    rw [term, Source.chars_strip_append, Source.chars_strip_append, hfactor, hcaret, hdigits,
      powerText]
    · simp
    · omega
    · omega

theorem read?_exponent {power : Nat} (h : power ≤ defaultMaxPower) :
    ∃ value, Number.read? (Decimal.digits power) = some value ∧
      Binary64.nearestNat? value = some power := by
  have hall : ∀ n : Fin (defaultMaxPower + 1),
      (Number.read? (Decimal.digits n)).bind Binary64.nearestNat? = some n.val := by
    decide +kernel
  have hpower := hall ⟨power, Nat.lt_succ_of_le h⟩
  exact Option.bind_eq_some_iff.mp hpower

theorem pow_identity {power : Nat} (h : power ≤ defaultMaxPower) {value : Float}
    (hvalue : Binary64.nearestNat? value = some power) :
    RealFunction.pow defaultMaxPower .identity (.constant value) = .exact (monomial 1 power) := by
  have hexact : RealFunction.exactPower? defaultMaxPower (constant value) = some power := by
    have hbound : decide (power ≤ defaultMaxPower) = true := decide_eq_true h
    change (Binary64.nearestNat? value).filter (· ≤ defaultMaxPower) = some power
    rw [hvalue, Option.filter_some, if_pos hbound]
  rw [RealFunction.identity, RealFunction.constant, RealFunction.pow, hexact, ← identity_pow]

theorem denotes_power {power : Nat} (positive : 0 < power) (h : power ≤ defaultMaxPower)
    {next : List Char} (hnext : ∀ c ∈ next.head?, Pattern.isNumeral c = false) :
    ∃ tokens, tokensOf (powerText power ++ next) = tokens ++ tokensOf next ∧
      Denotes .power tokens (monomial 1 power) := by
  have hx : Decides (['x'], .variable) := by decide
  have hcaret : Decides (['^'], .operator .pow) := by decide
  match power with
  | 1 =>
    obtain ⟨token, htokens, kind⟩ := Formula.tokensOf_mark hx next
    exact ⟨[token], htokens, .primary (.x kind)⟩
  | power + 2 =>
    obtain ⟨x, hx, hxKind⟩ := Formula.tokensOf_mark hx ('^' :: (Decimal.digits (power + 2) ++ next))
    obtain ⟨caret, hcaret, hcaretKind⟩ :=
      Formula.tokensOf_mark hcaret (Decimal.digits (power + 2) ++ next)
    have hnumeral := numeral_digits (power + 2)
    obtain ⟨exponent, hexponent, kind, lexeme⟩ :=
      Formula.tokensOf_numeral hnumeral.ne_nil hnumeral.numerals hnext
    obtain ⟨value, hread, hvalue⟩ := read?_exponent h
    refine ⟨[x, caret, exponent], ?_, ?_⟩
    · rw [powerText, List.cons_append, List.cons_append, hx, hcaret, hexponent]
      rfl
    · have base : Derives (.function defaultMaxPower) .primary [x] RealFunction.identity :=
        .x hxKind
      have raised := Derives.raised base hcaretKind
        (.power (.primary (.number kind (lexeme ▸ hread))))
      have hpow := pow_identity h hvalue
      rw [Denotes, ← hpow]
      exact raised

def signText (negative : Bool) : List Char := if negative then ['-'] else []

def signed (negative : Bool) (x : Float) : Float := if negative then -x else x

theorem denotes_signed (negative : Bool) {text : List Char} {rest : List Char}
    {tokens : List (Token Formula.Kind)} {p : Polynomial Float}
    (htokens : tokensOf (text ++ rest) = tokens ++ tokensOf rest)
    (derived : Denotes .power tokens p) :
    ∃ front q, tokensOf (signText negative ++ (text ++ rest)) = front ++ tokensOf rest ∧
      Denotes .unary front q ∧ q.coeffs = p.coeffs.map (signed negative) := by
  cases negative with
  | false =>
    refine ⟨tokens, p, htokens, .power derived, ?_⟩
    exact (List.map_id _).symm
  | true =>
    have hminus : Decides (['-'], .operator .sub) := by decide
    obtain ⟨minus, hscan, kind⟩ := Formula.tokensOf_mark hminus (text ++ rest)
    refine ⟨minus :: tokens, -p, ?_, .minus kind (.power derived), rfl⟩
    rw [signText, if_pos rfl, List.singleton_append, hscan, htokens, List.cons_append]

theorem signed_beq {a c : Float} (negative : Bool) (hc : c.isFinite = true)
    (h : (a == c) = true) : (signed negative a == signed negative c) = true := by
  cases negative with
  | false => exact h
  | true => exact Binary64.neg_beq_neg hc h

theorem isFinite_signed {c : Float} (negative : Bool) (hc : c.isFinite = true) :
    (signed negative c).isFinite = true := by
  cases negative with
  | false => exact hc
  | true => exact Binary64.isFinite_neg hc

theorem equal_signed_monomial (negative : Bool) {c : Float} (hc : c.isFinite = true)
    (hone : (c == 1) = true) (power : Nat) :
    Equal ((monomial 1 power).coeffs.map (signed negative))
      (monomial (signed negative c) power).coeffs := by
  have hself : c = 1 := by
    obtain ⟨-, heq | ⟨-, s, hzero⟩⟩ := Binary64.beq_eq_true_iff.mp hone
    · exact heq
    · rw [Binary64.unpacked_one] at hzero
      cases hzero
  subst hself
  refine .cons (signed_beq negative hc rfl) ?_
  rw [List.map_replicate]
  exact equal_replicate power (by cases negative <;> rfl)

theorem head_powerText (power : Nat) {next : List Char}
    (hnext : ∀ c ∈ next.head?, Pattern.isNumeral c = false) :
    ∀ c ∈ (powerText power ++ next).head?, Pattern.isNumeral c = false := by
  match power with
  | 0 => exact hnext
  | 1 =>
    intro c hc
    cases hc
    rfl
  | power + 2 =>
    intro c hc
    cases hc
    rfl

theorem denotes_term (negative : Bool) {c : Float} (finite : c.isFinite = true) {power : Nat}
    (h : power ≤ defaultMaxPower) {next : List Char}
    (hnext : ∀ c ∈ next.head?, Pattern.isNumeral c = false) :
    ∃ tokens q, tokensOf (signText negative ++ ((Source.strip (term c power)).chars ++ next)) =
        tokens ++ tokensOf next ∧
      Denotes .term tokens q ∧ Equal q.coeffs (monomial (signed negative c.abs) power).coeffs := by
  obtain ⟨habs, hsign⟩ := Binary64.abs_unsigned finite
  rw [chars_strip_term finite, factorText]
  by_cases hfactor : (c.abs != 1 || decide (power = 0)) = true
  · have hnumeral := Number.numeral_plain habs hsign
    obtain ⟨number, hnumber, kind, lexeme⟩ := Formula.tokensOf_numeral hnumeral.ne_nil
      hnumeral.numerals (head_powerText power hnext)
    have factor : Denotes .power [number] (constant c.abs) :=
      .primary (.number kind (lexeme ▸ Number.read?_plain habs hsign))
    obtain ⟨front, q, hfront, derived, hq⟩ := denotes_signed negative hnumber factor
    have hconstant : q = constant (signed negative c.abs) := eq_of_coeffs_eq hq
    subst hconstant
    rw [if_pos hfactor, List.append_assoc]
    by_cases hpower : power = 0
    · subst hpower
      refine ⟨front, _, hfront, .unary derived, ?_⟩
      exact .cons (Binary64.beq_self_of_isFinite (isFinite_signed negative habs)) .nil
    · obtain ⟨tokens, htokens, scale⟩ := denotes_power (Nat.pos_of_ne_zero hpower) h hnext
      refine ⟨front ++ tokens, _, ?_, .juxtaposed (.unary derived) scale,
        equal_constant_mul (isFinite_signed negative habs) power⟩
      rw [hfront, htokens, List.append_assoc]
  · have hone : (c.abs == 1) = true ∧ power ≠ 0 := by
      rw [Bool.or_eq_true_iff, not_or, decide_eq_true_eq] at hfactor
      exact ⟨by simpa [bne] using hfactor.1, hfactor.2⟩
    obtain ⟨tokens, htokens, derived⟩ := denotes_power (Nat.pos_of_ne_zero hone.2) h hnext
    obtain ⟨front, q, hfront, derived, hq⟩ := denotes_signed negative htokens derived
    refine ⟨front, q, ?_, .unary derived, ?_⟩
    · rw [if_neg hfactor, List.nil_append, hfront]
    · rw [hq]
      exact equal_signed_monomial negative habs hone.1 power

theorem chars_strip_joint {c : Float} (h : c.isFinite = true) (hc : ¬IsZero c) :
    (Source.strip (joint true c)).chars = signText (Binary64.isNegative c) ∧
      (Source.strip (joint false c)).chars = [if Binary64.isNegative c then '-' else '+'] := by
  rcases Binary64.pos_or_neg h hc with ⟨hpos, hneg, hsign⟩ | ⟨hpos, hneg, hsign⟩
  · rw [joint, joint, if_pos rfl, if_neg hneg, if_neg Bool.false_ne_true, if_pos hpos, hsign]
    exact ⟨rfl, rfl⟩
  · rw [joint, joint, if_pos rfl, if_pos hneg, if_neg Bool.false_ne_true, if_neg hpos, hsign]
    exact ⟨rfl, rfl⟩

theorem signed_abs {c : Float} (h : c.isFinite = true) :
    signed (Binary64.isNegative c) c.abs = c := by
  rw [Binary64.abs_eq_of_isFinite h]
  cases Binary64.isNegative c with
  | true => rw [signed, if_pos rfl, if_pos rfl, Binary64.neg_neg_of_isFinite h]
  | false => rw [signed, if_neg Bool.false_ne_true, if_neg Bool.false_ne_true]

theorem renderFrom_zero (first : Bool) {c : Float} (h : IsZero c) (rest : List Float) :
    renderFrom first (c :: rest) = renderFrom first rest := by
  rw [renderFrom, if_pos (Binary64.isZero_iff.mp h)]

theorem renderFrom_term (first : Bool) {c : Float} (h : ¬IsZero c) (rest : List Float) :
    renderFrom first (c :: rest) =
      joint first c ++ term c rest.length ++ renderFrom false rest := by
  rw [renderFrom, if_neg fun hzero => h (Binary64.isZero_iff.mpr hzero)]

theorem head_renderFrom {rest : List Float} (finite : ∀ c ∈ rest, c.isFinite = true) :
    ∀ c ∈ (Source.strip (renderFrom false rest)).chars.head?, Pattern.isNumeral c = false := by
  induction rest with
  | nil =>
    intro c hc
    cases hc
  | cons c rest ih =>
    by_cases hzero : IsZero c
    · rw [renderFrom_zero false hzero]
      exact ih fun c hc => finite c (List.mem_cons_of_mem _ hc)
    · rw [renderFrom_term false hzero, Source.chars_strip_append, Source.chars_strip_append,
        (chars_strip_joint (finite c List.mem_cons_self) hzero).2]
      intro d hd
      cases hd
      cases Binary64.isNegative c <;> rfl

theorem equal_replace_zero {sum before after : List Float} {c : Float} (hc : IsZero c)
    (hsum : Equal sum (before ++ 0 :: after)) : Equal sum (before ++ c :: after) := by
  have hfront := List.forall₂_take_append _ _ _ hsum
  have hback := List.forall₂_drop_append _ _ _ hsum
  rw [← List.take_append_drop before.length sum]
  refine List.rel_append hfront ?_
  generalize sum.drop before.length = rest at hback
  cases hback with
  | cons hz hback => exact .cons ((Binary64.isZero_iff.mpr hz).beq hc) hback

/-- One more term: its coefficient takes the place of a zero. -/
theorem denotes_shifted {c : Float} (finite : c.isFinite = true) (hc : ¬IsZero c) {power : Nat}
    (h : power ≤ defaultMaxPower) {next : List Char}
    (hnext : ∀ c ∈ next.head?, Pattern.isNumeral c = false)
    {tokens : List (Token Formula.Kind)} {sum : Polynomial Float} {before : List Float}
    (derived : Denotes .expression tokens sum)
    (hsum : Equal sum.coeffs (before ++ List.replicate (power + 1) 0)) :
    ∃ more q, tokensOf ((Source.strip (joint false c)).chars ++
        ((Source.strip (term c power)).chars ++ next)) = more ++ tokensOf next ∧
      Denotes .expression (tokens ++ more) q ∧
      Equal q.coeffs (before ++ c :: List.replicate power 0) := by
  obtain ⟨termTokens, t, hterm, derivedTerm, ht⟩ := denotes_term false finite h hnext
  rw [signed, if_neg Bool.false_ne_true] at ht
  rw [(chars_strip_joint finite hc).2]
  have hvalue := signed_abs finite
  cases hsign : Binary64.isNegative c with
  | false =>
    have hplus : Decides (['+'], .operator .add) := by decide
    obtain ⟨plus, hscan, kind⟩ :=
      Formula.tokensOf_mark hplus ((Source.strip (term c power)).chars ++ next)
    rw [hsign, signed, if_neg Bool.false_ne_true] at hvalue
    refine ⟨plus :: termTokens, sum + t, ?_, .shifted derived kind (.inl rfl) derivedTerm, ?_⟩
    · rw [if_neg Bool.false_ne_true, List.singleton_append, hscan, ← List.nil_append
        ((Source.strip (term c power)).chars ++ next)]
      exact congrArg (plus :: ·) hterm
    · refine equal_zipAligned Binary64.add_beq_of_isZero (fun hz ha => ?_) hsum ht
      rw [hvalue] at ha
      exact Binary64.beq_add_of_isZero hz ha
  | true =>
    have hminus : Decides (['-'], .operator .sub) := by decide
    obtain ⟨minus, hscan, kind⟩ :=
      Formula.tokensOf_mark hminus ((Source.strip (term c power)).chars ++ next)
    rw [hsign, signed, if_pos rfl] at hvalue
    refine ⟨minus :: termTokens, sum - t, ?_, .shifted derived kind (.inr rfl) derivedTerm, ?_⟩
    · rw [if_pos rfl, List.singleton_append, hscan]
      exact congrArg (minus :: ·) hterm
    · refine equal_zipAligned Binary64.sub_beq_of_isZero (fun hz ha => ?_) hsum ht
      have hneg := Binary64.neg_beq_neg (Binary64.abs_unsigned finite).1 ha
      rw [hvalue] at hneg
      exact Binary64.beq_sub_of_isZero hz hneg

/-- The terms after the first: reading them on puts their coefficients in the places of zeros. -/
theorem denotes_renderFrom {rest : List Float} (finite : ∀ c ∈ rest, c.isFinite = true)
    (h : rest.length ≤ defaultMaxPower) {tokens : List (Token Formula.Kind)}
    {sum : Polynomial Float} {before : List Float} (derived : Denotes .expression tokens sum)
    (hsum : Equal sum.coeffs (before ++ List.replicate rest.length 0)) :
    ∃ q, Denotes .expression (tokens ++ tokensOf (Source.strip (renderFrom false rest)).chars) q ∧
      Equal q.coeffs (before ++ rest) := by
  induction rest generalizing tokens sum before with
  | nil =>
    have hnone : tokensOf (Source.strip (renderFrom false [])).chars = [] := rfl
    rw [hnone, List.append_nil]
    exact ⟨sum, derived, hsum⟩
  | cons c rest ih =>
    have finite' : ∀ c ∈ rest, c.isFinite = true := fun c hc => finite c (List.mem_cons_of_mem _ hc)
    have h' : rest.length ≤ defaultMaxPower := Nat.le_of_succ_le h
    have hmove : before ++ c :: rest = before ++ [c] ++ rest := by
      rw [List.append_assoc, List.singleton_append]
    rw [List.length_cons] at hsum
    rw [hmove]
    by_cases hzero : IsZero c
    · rw [renderFrom_zero false hzero]
      refine ih finite' h' derived ?_
      rw [List.append_assoc]
      exact equal_replace_zero hzero hsum
    · obtain ⟨more, q, hmore, derivedMore, hq⟩ :=
        denotes_shifted (finite c List.mem_cons_self) hzero
        h' (head_renderFrom finite') derived hsum
      rw [renderFrom_term false hzero, Source.chars_strip_append, Source.chars_strip_append,
        List.append_assoc, hmore, ← List.append_assoc]
      refine ih finite' h' derivedMore ?_
      rw [List.append_assoc]
      exact hq

theorem denotes_render {coeffs : List Float} (finite : ∀ c ∈ coeffs, c.isFinite = true)
    (h : (ofCoeffs (coeffs.dropWhile (· == 0))).degree ≤ defaultMaxPower) :
    ∃ q, Denotes .expression (tokensOf (Source.strip (renderFrom true coeffs)).chars) q ∧
      Equal q.coeffs (ofCoeffs (coeffs.dropWhile (· == 0))).coeffs := by
  induction coeffs with
  | nil =>
    refine ⟨constant 0, ?_, .cons rfl .nil⟩
    have hscan : tokensOf (Source.strip (renderFrom true [])).chars =
        [⟨.number, ['0'], Span.point 0⟩] := rfl
    have hread : Number.read? ['0'] = some 0 := rfl
    rw [hscan]
    exact .term (.unary (.power (.primary (.number rfl hread))))
  | cons c rest ih =>
    have finite' : ∀ c ∈ rest, c.isFinite = true := fun c hc => finite c (List.mem_cons_of_mem _ hc)
    by_cases hzero : IsZero c
    · have hdrop : (c :: rest).dropWhile (· == 0) = rest.dropWhile (· == 0) :=
        List.dropWhile_cons_of_pos (Binary64.isZero_iff.mp hzero)
      rw [hdrop] at h ⊢
      rw [renderFrom_zero true hzero]
      exact ih finite' h
    · have hdrop : (c :: rest).dropWhile (· == 0) = c :: rest :=
        List.dropWhile_cons_of_neg fun heq => hzero (Binary64.isZero_iff.mpr heq)
      rw [hdrop] at h ⊢
      have hpower : rest.length ≤ defaultMaxPower := h
      have hc := finite c List.mem_cons_self
      obtain ⟨tokens, t, htokens, derived, ht⟩ :=
        denotes_term (Binary64.isNegative c) hc hpower (head_renderFrom finite')
      rw [signed_abs hc] at ht
      have hsum : Equal t.coeffs ([c] ++ List.replicate rest.length 0) := ht
      rw [renderFrom_term true hzero, Source.chars_strip_append, Source.chars_strip_append,
        (chars_strip_joint hc hzero).1, List.append_assoc, htokens]
      exact denotes_renderFrom finite' hpower (.term derived) hsum

end Polynomial

namespace RealFunction

theorem parse_of_derives {maxPower : Nat} {input : String} {F : RealFunction Float}
    (h : Formula.Derives (.function maxPower) .expression
      (Formula.tokensOf (Source.strip input).chars) F) : parse maxPower input = .ok F := by
  obtain ⟨f, rfl, hread⟩ := h.ofTokens
  let other : Source := ⟨(Source.strip input).chars.map fun c => ⟨c, Span.point 0⟩, 0⟩
  have hchars : (Source.strip input).chars = other.chars := by
    change _ = ((Source.strip input).chars.map fun c => (⟨c, Span.point 0⟩ : Glyph)).map Glyph.char
    rw [List.map_map]
    exact (List.map_id _).symm
  have hempty : other.isEmpty = false := by
    refine Bool.eq_false_iff.mpr fun hnone => h.ne_nil ?_
    have hglyphs : other.glyphs = [] := List.isEmpty_iff.mp hnone
    change Formula.lexicon.scanFrom 0 other.glyphs = []
    rw [hglyphs]
    rfl
  have hother : (Formula.ofSource other).outcome = .ok f := by
    rw [Formula.ofSource, hempty, if_neg Bool.false_ne_true]
    exact hread other.stop
  have hsame := Formula.ofSource_alike (Source.alike_of_chars_eq hchars)
  rw [hother] at hsame
  have houtcome : (Formula.ofSource (Source.strip input)).outcome = .ok f := by
    generalize (Formula.ofSource (Source.strip input)).outcome = outcome at hsame
    cases hsame with
    | ok heq => rw [heq]
  rw [parse, Formula.parse, Formula.sourceOf, Formula.outcome_ofSource_withProducts, houtcome,
    ← Formula.compile_eq_fold]
  rfl

/-- The text of a polynomial with finite coefficients is read as a polynomial with the same
coefficients, without zeros in front, if its powers are within the bound of those that are
expanded. -/
theorem parse_render_eq_exact (p : Polynomial Float) (finite : ∀ c ∈ p.coeffs, c.isFinite = true)
    (h : p.trimmed.degree ≤ defaultMaxPower) :
    ∃ q, parse defaultMaxPower p.render = .ok (.exact q) ∧ (q == p.trimmed) = true := by
  obtain ⟨q, derived, hq⟩ := Polynomial.denotes_render finite h
  exact ⟨q, parse_of_derives derived, Polynomial.beq_of_equal hq⟩

/-- Zeros in front, in the middle, and a minus before the first term. -/
theorem parse_render_of_gap :
    let p : Polynomial Float := ⟨[0, -0.5, 0, -1], by simp⟩
    (∀ c ∈ p.coeffs, c.isFinite = true) ∧ p.trimmed.degree ≤ defaultMaxPower ∧
      p.render = "-0.5x^2 - 1" ∧ p.trimmed.coeffs = [-0.5, 0, -1] ∧
      ∃ q, parse defaultMaxPower p.render = .ok (.exact q) ∧ (q == p.trimmed) = true := by
  intro p
  have hfinite : ∀ c ∈ p.coeffs, c.isFinite = true := by decide
  have hdegree : p.trimmed.degree ≤ defaultMaxPower := by decide
  have hrender : p.render = "-0.5x^2 - 1" := rfl
  have hcoeffs : p.trimmed.coeffs = [-0.5, 0, -1] := rfl
  exact ⟨hfinite, hdegree, hrender, hcoeffs, parse_render_eq_exact p hfinite hdegree⟩

end RealFunction

end Calculator
