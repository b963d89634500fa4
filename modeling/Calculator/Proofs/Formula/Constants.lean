import Calculator.Proofs.Formula.Expansion
import Calculator.Proofs.Number.Zeros

/-!
Formulas without the variable. Every polynomial in them is a constant, but a constant too is
evaluated by Horner's rule, which multiplies `x` by zero before it adds the constant. Of a finite
`x` that leaves a zero with its sign, of any other `x` a NaN. So there is one value for each sign
and one for what is not finite; the sign is lost in the sum unless the constant is the negative
zero.
-/

set_option autoImplicit false
set_option relaxedAutoImplicit false

namespace Calculator

open Binary64 (Same isNegative)

variable {α : Type} {P : α → Prop}

namespace Node

/-- A tree without `x`: every polynomial in it is a constant with a given property. A difference
quotient is none, since it is evaluated beside `x`. -/
def Closed (P : α → Prop) : Node α → Prop
  | .polynomial p => ∃ c, p = .constant c ∧ P c
  | .neg operand => operand.Closed P
  | .binary _ lhs rhs => lhs.Closed P ∧ rhs.Closed P
  | .call _ arg => arg.Closed P
  | .difference _ _ => False

/-- A tree without `x` cannot tell places apart that its constants cannot tell apart. -/
theorem Closed.eval_eq [Zero α] [NatCast α] [Neg α] [Add α] [Sub α] [Mul α] [Div α] [Elementary α]
    {node : Node α} {a b : α} (h : node.Closed P)
    (hP : ∀ c, P c → 0 * a + c = 0 * b + c) : node.eval a = node.eval b := by
  induction node with
  | polynomial p =>
    obtain ⟨c, rfl, hc⟩ := h
    exact hP c hc
  | neg operand ih => rw [eval, eval, ih h]
  | binary op lhs rhs ihl ihr => rw [eval, eval, ihl h.1, ihr h.2]
  | call f arg ih => rw [eval, eval, ih h]
  | difference inner step => exact h.elim

end Node

namespace RealFunction

variable {f g : RealFunction α} {maxPower : Nat}

def Closed (P : α → Prop) (f : RealFunction α) : Prop := f.toNode.Closed P

theorem Closed.eval_eq [Zero α] [NatCast α] [Neg α] [Add α] [Sub α] [Mul α] [Div α] [Elementary α]
    {a b : α} (h : f.Closed P) (hP : ∀ c, P c → 0 * a + c = 0 * b + c) : f.eval a = f.eval b := by
  cases f with
  | exact p => exact Node.Closed.eval_eq h hP
  | numeric node => exact Node.Closed.eval_eq h hP

theorem closed_exact_iff {p : Polynomial α} :
    (exact p).Closed (fun _ => True) ↔ p.degree = 0 := by
  simp only [Closed, toNode, Node.Closed, and_true, Polynomial.degree_eq_zero_iff]

theorem Closed.neg [Neg α] (h : f.Closed fun _ => True) : f.neg.Closed fun _ => True := by
  cases f with
  | exact p => exact closed_exact_iff.mpr ((Polynomial.degree_neg p).trans (closed_exact_iff.mp h))
  | numeric node => exact h

section

variable [Zero α] [One α] [Add α] [Mul α] [Elementary α] (hf : f.Closed fun _ => True)
  (hg : g.Closed fun _ => True)

include hf hg

theorem Closed.pow : (pow maxPower f g).Closed fun _ => True := by
  cases f with
  | numeric node => exact ⟨hf, hg⟩
  | exact p =>
    cases g with
    | numeric node => exact ⟨hf, hg⟩
    | exact q =>
      rw [RealFunction.pow]
      cases exactPower? maxPower q with
      | none => exact ⟨hf, hg⟩
      | some n =>
        refine closed_exact_iff.mpr ?_
        rw [Polynomial.degree_pow, closed_exact_iff.mp hf, Nat.mul_zero]

theorem Closed.binary [Sub α] (op : Operator) : (binary op f g).Closed fun _ => True := by
  cases op with
  | pow => exact hf.pow hg
  | div => exact ⟨hf, hg⟩
  | add | sub | mul =>
    cases f with
    | numeric node => exact ⟨hf, hg⟩
    | exact p =>
      cases g with
      | numeric node => exact ⟨hf, hg⟩
      | exact q =>
        refine closed_exact_iff.mpr ?_
        have hp := closed_exact_iff.mp hf
        have hq := closed_exact_iff.mp hg
        simp only [Polynomial.degree_add, Polynomial.degree_sub, Polynomial.degree_mul, hp, hq,
          Nat.max_self]

end

end RealFunction

namespace Formula

variable {f g : Formula} {tokens : List (Token Kind)} {op : Operator} {maxPower : Nat}

theorem variable_mem_parts_neg :
    Formula.variable ∈ (neg f).parts ↔ Formula.variable ∈ f.parts := by
  simp [parts]

theorem variable_mem_parts_binary : Formula.variable ∈ (binary op f g).parts ↔
    Formula.variable ∈ f.parts ∨ Formula.variable ∈ g.parts := by
  simp [parts]

theorem variable_mem_parts_call {b : Builtin} :
    Formula.variable ∈ (call b f).parts ↔ Formula.variable ∈ f.parts := by
  simp [parts]

theorem Derives.variable_mem_tokens {p : Phrase} (h : Derives .tree p tokens f)
    (hpart : Formula.variable ∈ f.parts) : ∃ token ∈ tokens, token.kind = .variable := by
  induction h with
  | number | euler => simp [parts, Meaning.tree] at hpart
  | x kind => exact ⟨_, List.mem_cons_self, kind⟩
  | call _ _ _ _ ih =>
    obtain ⟨token, ht, kind⟩ := ih (variable_mem_parts_call.mp hpart)
    exact ⟨token, by simp [ht], kind⟩
  | group _ _ _ ih =>
    obtain ⟨token, ht, kind⟩ := ih hpart
    exact ⟨token, by simp [ht], kind⟩
  | primary _ ih | power _ ih | unary _ ih | term _ ih => exact ih hpart
  | plus _ _ ih =>
    obtain ⟨token, ht, kind⟩ := ih hpart
    exact ⟨token, List.mem_cons_of_mem _ ht, kind⟩
  | minus _ _ ih =>
    obtain ⟨token, ht, kind⟩ := ih (variable_mem_parts_neg.mp hpart)
    exact ⟨token, List.mem_cons_of_mem _ ht, kind⟩
  | raised _ _ _ ihl ihr | scaled _ _ _ _ ihl ihr | juxtaposed _ _ ihl ihr
    | shifted _ _ _ _ ihl ihr =>
    rcases variable_mem_parts_binary.mp hpart with hl | hr
    · obtain ⟨token, ht, kind⟩ := ihl hl
      exact ⟨token, List.mem_append_left _ ht, kind⟩
    · obtain ⟨token, ht, kind⟩ := ihr hr
      exact ⟨token, by simp [ht], kind⟩

theorem closed_compile (h : Formula.variable ∉ f.parts) :
    (f.compile maxPower).Closed fun _ => True := by
  induction f with
  | number value => exact ⟨value, rfl, trivial⟩
  | «variable» => exact absurd List.mem_cons_self h
  | neg operand ih => exact (ih (mt variable_mem_parts_neg.mpr h)).neg
  | call b arg ih => exact ih (mt variable_mem_parts_call.mpr h)
  | binary op lhs rhs ihl ihr =>
    rw [variable_mem_parts_binary, not_or] at h
    cases op with
    | pow => exact (ihl h.1).pow (ihr h.2)
    | add | sub | mul | div => exact (ihl h.1).binary (ihr h.2) _

end Formula

namespace Binary64

open Float.Model.UnpackedFloat

variable {x c : Float}

theorem zero_mul_of_isFinite (h : x.isFinite = true) : 0 * x = if isNegative x then -0 else 0 := by
  have hzero : unpacked 0 = .zero .positive := rfl
  have hmul : mul .binary64 (.zero .positive) (unpacked x) =
      .zero (if isNegative x then .negative else .positive) := by
    have hcanonical := canonical_unpacked h
    generalize (if isNegative x then Sign.negative else Sign.positive) = s at hcanonical ⊢
    generalize unpacked x = u at hcanonical ⊢
    cases s <;> cases hcanonical <;> rfl
  rw [mul_eq, hzero, hmul]
  cases isNegative x <;> rfl

theorem zero_mul_of_not_isFinite (h : x.isFinite = false) :
    0 * x = ofUnpacked .notANumber := by
  have hzero : unpacked 0 = .zero .positive := rfl
  rw [isFinite_eq] at h
  rw [mul_eq, hzero]
  cases hx : unpacked x with
  | notANumber | infinity => rfl
  | zero | finite => rw [hx] at h; cases h

theorem zero_mul_add (h : x.isFinite = true) (hc : c ≠ -0) : 0 * x + c = c := by
  rcases isZero_add (isZero_zero_mul h) with hsame | ⟨-, hzero⟩
  · exact hsame
  · obtain rfl | rfl := isZero_iff_eq.mp hzero
    · rw [zero_mul_of_isFinite h]
      cases isNegative x <;> decide +kernel
    · exact absurd rfl hc

theorem isNaN_notANumber_add (c : Float) : (ofUnpacked .notANumber + c).isNaN = true := by
  have hsum : ofUnpacked .notANumber + c = ofUnpacked .notANumber := by
    have hnone : unpacked (ofUnpacked .notANumber) = .notANumber := rfl
    rw [add_eq, hnone]
    cases unpacked c <;> rfl
  rw [hsum]
  rfl

end Binary64

namespace RealFunction

open Formula (sourceOf)

/-- What is read from a text without the variable has one value at the finite places of each sign,
and one at all places that are not finite. The sign makes no difference unless a constant in it is
the negative zero. If it is read as a polynomial it is one constant, and its value is that constant
at every finite place and NaN at any other. -/
theorem eval_of_no_variable {maxPower : Nat} {input : String} {f : RealFunction Float}
    (h : parse maxPower input = .ok f)
    (hvariable : ∀ token ∈ Formula.lexicon.scan (sourceOf input), token.kind ≠ .variable) :
    (∀ a b : Float, a.isFinite = true → b.isFinite = true → isNegative a = isNegative b →
        f.eval a = f.eval b) ∧
      (∀ a b : Float, a.isFinite = false → b.isFinite = false → f.eval a = f.eval b) ∧
      (f.Closed (· ≠ -0) → ∀ a b : Float, a.isFinite = true → b.isFinite = true →
        f.eval a = f.eval b) ∧
      ∀ p, f = .exact p → ∃ c, p = .constant c ∧ ∀ a : Float,
        if a.isFinite then Same (f.eval a) c else (f.eval a).isNaN := by
  obtain ⟨formula, hread, rfl⟩ := map_eq_ok_iff.mp h
  have hclosed : (formula.compile maxPower).Closed fun _ => True := by
    refine Formula.closed_compile fun hpart => ?_
    obtain ⟨token, ht, kind⟩ :=
      (Formula.parse_eq_ok_iff.mp hread).variable_mem_tokens hpart
    exact hvariable token ht kind
  refine ⟨fun a b ha hb hsign => ?_, fun a b ha hb => ?_, fun hconstants a b ha hb => ?_,
    fun p hp => ?_⟩
  · refine hclosed.eval_eq fun c _ => ?_
    rw [Binary64.zero_mul_of_isFinite ha, Binary64.zero_mul_of_isFinite hb, hsign]
  · refine hclosed.eval_eq fun c _ => ?_
    rw [Binary64.zero_mul_of_not_isFinite ha, Binary64.zero_mul_of_not_isFinite hb]
  · refine hconstants.eval_eq fun c hc => ?_
    rw [Binary64.zero_mul_add ha hc, Binary64.zero_mul_add hb hc]
  · rw [hp] at hclosed ⊢
    obtain ⟨c, rfl⟩ := Polynomial.degree_eq_zero_iff.mp (closed_exact_iff.mp hclosed)
    refine ⟨c, rfl, fun a => ?_⟩
    cases ha : a.isFinite with
    | true => exact Same.zero_add (Binary64.isZero_zero_mul ha)
    | false =>
      have hvalue : (exact (Polynomial.constant c)).eval a = 0 * a + c := rfl
      rw [if_neg (by decide), hvalue, Binary64.zero_mul_of_not_isFinite ha]
      exact Binary64.isNaN_notANumber_add c

theorem eval_of_quotient : ∃ f, parse defaultMaxPower "2/4" = .ok f ∧
    f.eval 1 = f.eval (-1) ∧ f.eval Binary64.infinity = f.eval (-Binary64.infinity) := by
  have htokens : Formula.lexicon.scan (sourceOf "2/4") = [⟨.number, ['2'], ⟨0, 1⟩⟩] ++
      ⟨.operator .div, ['/'], ⟨1, 2⟩⟩ :: [⟨.number, ['4'], ⟨2, 3⟩⟩] := by
    decide +kernel
  have htwo : Number.read? ['2'] = some 2 := by decide +kernel
  have hfour : Number.read? ['4'] = some 4 := by decide +kernel
  have derived : Formula.Derives .tree .expression (Formula.lexicon.scan (sourceOf "2/4"))
      (.binary .div (.number 2) (.number 4)) := by
    rw [htokens]
    exact .term (.scaled (.unary (.power (.primary (.number rfl htwo)))) rfl (.inr rfl)
      (.power (.primary (.number rfl hfour))))
  have hparse : parse defaultMaxPower "2/4" = .ok
      (.numeric (.binary .div (.polynomial (.constant 2)) (.polynomial (.constant 4)))) :=
    parse_of_tree derived rfl
  have hclosed : Closed (· ≠ (-0 : Float)) (.numeric (.binary .div
      (.polynomial (.constant 2)) (.polynomial (.constant 4)))) :=
    ⟨⟨2, rfl, by decide +kernel⟩, ⟨4, rfl, by decide +kernel⟩⟩
  have hvariable : ∀ token ∈ Formula.lexicon.scan (sourceOf "2/4"), token.kind ≠ .variable := by
    decide +kernel
  obtain ⟨-, hinfinite, hfinite, -⟩ := eval_of_no_variable hparse hvariable
  exact ⟨_, hparse, hfinite hclosed 1 (-1) (by decide +kernel) (by decide +kernel),
    hinfinite _ _ (by decide +kernel) (by decide +kernel)⟩

/-- The negative zero keeps the sign of `x`, and the quotient by it shows the sign. -/
example : (numeric (.binary .div (.polynomial (.constant (1 : Float)))
    (.polynomial (.constant (-0))))).eval 1 ≠ (numeric (.binary .div
      (.polynomial (.constant (1 : Float))) (.polynomial (.constant (-0))))).eval (-1) := by
  decide +kernel

/-- At an infinity even a number alone is no constant. -/
theorem eval_of_number_at_infinity : ¬∀ (input : String) (f : RealFunction Float),
    parse defaultMaxPower input = .ok f →
      (∀ token ∈ Formula.lexicon.scan (sourceOf input), token.kind ≠ .variable) →
        ∀ a b : Float, (f.eval a == f.eval b) = true ∨
          (f.eval a).isNaN = true ∧ (f.eval b).isNaN = true := by
  intro hall
  have htokens : Formula.lexicon.scan (sourceOf "5") = [⟨.number, ['5'], ⟨0, 1⟩⟩] := by
    decide +kernel
  have hfive : Number.read? ['5'] = some 5 := by decide +kernel
  have derived : Formula.Derives .tree .expression (Formula.lexicon.scan (sourceOf "5"))
      (.number 5) := by
    rw [htokens]
    exact .term (.unary (.power (.primary (.number rfl hfive))))
  have hparse : parse defaultMaxPower "5" = .ok (.constant 5) := parse_of_tree derived rfl
  rcases hall "5" _ hparse (by decide +kernel) 0 Binary64.infinity with hequal | ⟨hnone, -⟩
  · exact absurd hequal (by decide +kernel)
  · exact absurd hnone (by decide +kernel)

end RealFunction

end Calculator
