import Calculator.Proofs.Formula.Derivation
import Calculator.Proofs.Function.Degrees
import Calculator.Proofs.Number.Exact

/-!
Formulas that are expanded. A formula is kept as a polynomial exactly if it has no division, no
call, and no power but those whose exponent has the degree zero and a value that rounds to a natural
number within the bound. A higher bound expands more formulas, and those that were expanded before
to the same polynomials.
-/

set_option autoImplicit false
set_option relaxedAutoImplicit false

namespace Calculator

namespace RealFunction

variable {α : Type} {f g : RealFunction α} {p : Polynomial α} {op : Operator} {maxPower n : Nat}

theorem neg_eq_exact_iff [Neg α] : f.neg = .exact p ↔ ∃ q, f = .exact q ∧ p = -q := by
  cases f with
  | exact q => simp [neg, eq_comm]
  | numeric node => simp [neg]

theorem exactPower?_eq_some_iff [Elementary α] {q : Polynomial α} :
    exactPower? maxPower q = some n ↔
      ∃ c, q = .constant c ∧ Elementary.nearestNat? c = some n ∧ n ≤ maxPower := by
  simp only [exactPower?, Option.filter_eq_some_iff, Option.bind_eq_some_iff,
    Polynomial.constant?_eq_some_iff, decide_eq_true_eq]
  tauto

variable [Zero α] [One α] [Add α] [Mul α] [Elementary α]

theorem pow_eq_exact_iff : pow maxPower f g = .exact p ↔
    ∃ q r n, f = .exact q ∧ g = .exact r ∧ exactPower? maxPower r = some n ∧ p = q.pow n := by
  cases f with
  | numeric node => simp [pow]
  | exact q =>
    cases g with
    | numeric node => simp [pow]
    | exact r =>
      cases h : exactPower? maxPower r with
      | none => simp [pow, h]
      | some n => simp [pow, h, eq_comm]

theorem binary_eq_exact [Sub α] (hop : op ≠ .pow) (h : binary op f g = .exact p) :
    ∃ q r, f = .exact q ∧ g = .exact r ∧
      (op = .add ∧ p = q + r ∨ op = .sub ∧ p = q - r ∨ op = .mul ∧ p = q * r) := by
  cases f with
  | numeric node => cases op <;> simp [binary] at h hop
  | exact q =>
    cases g with
    | numeric node => cases op <;> simp [binary] at h hop
    | exact r => cases op <;> simp_all [binary]

end RealFunction

namespace Formula

open RealFunction (exactPower?)

variable {f g : Formula} {p q : Polynomial Float} {maxPower larger n : Nat}

/-- The formulas that are kept as polynomials, and the polynomials they are kept as. -/
inductive Kept (maxPower : Nat) : Formula → Polynomial Float → Prop
  | number (value : Float) : Kept maxPower (.number value) (.constant value)
  | x : Kept maxPower .variable .identity
  | neg {f : Formula} {p : Polynomial Float} (operand : Kept maxPower f p) :
      Kept maxPower (.neg f) (-p)
  | add {f g : Formula} {p q : Polynomial Float} (lhs : Kept maxPower f p)
      (rhs : Kept maxPower g q) : Kept maxPower (.binary .add f g) (p + q)
  | sub {f g : Formula} {p q : Polynomial Float} (lhs : Kept maxPower f p)
      (rhs : Kept maxPower g q) : Kept maxPower (.binary .sub f g) (p - q)
  | mul {f g : Formula} {p q : Polynomial Float} (lhs : Kept maxPower f p)
      (rhs : Kept maxPower g q) : Kept maxPower (.binary .mul f g) (p * q)
  | pow {f g : Formula} {p q : Polynomial Float} {n : Nat} (base : Kept maxPower f p)
      (exponent : Kept maxPower g q) (expanded : exactPower? maxPower q = some n) :
      Kept maxPower (.binary .pow f g) (p.pow n)

theorem Kept.compile_eq (h : Kept maxPower f p) : f.compile maxPower = .exact p := by
  induction h with
  | number | x => rfl
  | neg _ ih => rw [compile, ih, RealFunction.neg]
  | add _ _ ihl ihr | sub _ _ ihl ihr | mul _ _ ihl ihr =>
    simp only [compile, ihl, ihr, RealFunction.binary]
  | pow _ _ expanded ihl ihr => rw [compile, ihl, ihr, RealFunction.pow, expanded]

theorem kept_of_compile (h : f.compile maxPower = .exact p) : Kept maxPower f p := by
  induction f generalizing p with
  | number value =>
    cases h
    exact .number value
  | «variable» =>
    cases h
    exact .x
  | neg operand ih =>
    obtain ⟨q, hq, rfl⟩ := RealFunction.neg_eq_exact_iff.mp h
    exact .neg (ih hq)
  | call b arg _ => cases h
  | binary op lhs rhs ihl ihr =>
    by_cases hop : op = .pow
    · subst hop
      obtain ⟨q, r, n, hq, hr, hn, rfl⟩ := RealFunction.pow_eq_exact_iff.mp h
      exact .pow (ihl hq) (ihr hr) hn
    · rw [compile] at h
      · obtain ⟨q, r, hq, hr, ⟨rfl, rfl⟩ | ⟨rfl, rfl⟩ | ⟨rfl, rfl⟩⟩ :=
          RealFunction.binary_eq_exact hop h
        · exact .add (ihl hq) (ihr hr)
        · exact .sub (ihl hq) (ihr hr)
        · exact .mul (ihl hq) (ihr hr)
      · exact hop

/-- A power that is expanded is expanded by a higher bound too, with the same exponent. -/
theorem exactPower?_of_le (h : maxPower ≤ larger) (hn : exactPower? maxPower q = some n) :
    exactPower? larger q = some n := by
  obtain ⟨c, hq, hc, hle⟩ := RealFunction.exactPower?_eq_some_iff.mp hn
  exact RealFunction.exactPower?_eq_some_iff.mpr ⟨c, hq, hc, hle.trans h⟩

theorem Kept.of_le (h : maxPower ≤ larger) (hf : Kept maxPower f p) : Kept larger f p := by
  induction hf with
  | number value => exact .number value
  | x => exact .x
  | neg _ ih => exact .neg ih
  | add _ _ ihl ihr => exact .add ihl ihr
  | sub _ _ ihl ihr => exact .sub ihl ihr
  | mul _ _ ihl ihr => exact .mul ihl ihr
  | pow _ _ expanded ihl ihr => exact .pow ihl ihr (exactPower?_of_le h expanded)

def parts : Formula → List Formula
  | .number value => [.number value]
  | .variable => [.variable]
  | .neg operand => .neg operand :: operand.parts
  | .binary op lhs rhs => .binary op lhs rhs :: (lhs.parts ++ rhs.parts)
  | .call f arg => .call f arg :: arg.parts

/-- The natural number that the value of an exponent at zero rounds to. An exponent that is constant
rounds to the same number everywhere. -/
def rounded? (maxPower : Nat) (exponent : Formula) : Option Nat :=
  Binary64.nearestNat? ((exponent.compile maxPower).eval 0)

/-- The degree of a formula by its shape, and by what the exponents in it round to. Divisions and
calls, which are never expanded, have none and count as zero. -/
def degree (maxPower : Nat) : Formula → Nat
  | .number _ => 0
  | .variable => 1
  | .neg operand => operand.degree maxPower
  | .binary .add lhs rhs | .binary .sub lhs rhs => max (lhs.degree maxPower) (rhs.degree maxPower)
  | .binary .mul lhs rhs => lhs.degree maxPower + rhs.degree maxPower
  | .binary .pow base exponent => (exponent.rounded? maxPower).getD 0 * base.degree maxPower
  | .binary .div _ _ | .call _ _ => 0

/-- Whether a formula is expanded once its parts are: it is no division and no call, and if it is a
power, the exponent has the degree zero and rounds to a natural number within the bound. -/
def Expandable (maxPower : Nat) : Formula → Prop
  | .binary .div _ _ | .call _ _ => False
  | .binary .pow _ exponent =>
    exponent.degree maxPower = 0 ∧ ∃ n ≤ maxPower, exponent.rounded? maxPower = some n
  | _ => True

/-- There is nothing in a formula that cannot be expanded. -/
def Expands (maxPower : Nat) (f : Formula) : Prop := ∀ g ∈ f.parts, g.Expandable maxPower

theorem Kept.nearestNat?_eval {c x : Float} (h : Kept maxPower f (.constant c))
    (finite : x.isFinite = true) :
    Binary64.nearestNat? ((f.compile maxPower).eval x) = Binary64.nearestNat? c := by
  rw [h.compile_eq]
  exact Binary64.nearestNat?_add_of_isZero (Binary64.isZero_zero_mul finite)

theorem Kept.exactPower?_iff (h : Kept maxPower f p) :
    exactPower? maxPower p = some n ↔
      p.degree = 0 ∧ f.rounded? maxPower = some n ∧ n ≤ maxPower := by
  have hrounded (c : Float) (hp : p = .constant c) :
      f.rounded? maxPower = Binary64.nearestNat? c := by
    subst hp
    exact h.nearestNat?_eval rfl
  rw [RealFunction.exactPower?_eq_some_iff, Polynomial.degree_eq_zero_iff]
  constructor
  · rintro ⟨c, hp, hc, hle⟩
    exact ⟨⟨c, hp⟩, (hrounded c hp).trans hc, hle⟩
  · rintro ⟨⟨c, hp⟩, hn, hle⟩
    exact ⟨c, hp, (hrounded c hp).symm.trans hn, hle⟩

theorem Kept.degree_eq (h : Kept maxPower f p) : p.degree = f.degree maxPower := by
  induction h with
  | number value => exact Polynomial.degree_constant value
  | x => exact Polynomial.degree_identity
  | neg _ ih => rw [Polynomial.degree_neg, ih, degree]
  | add _ _ ihl ihr => rw [Polynomial.degree_add, ihl, ihr, degree]
  | sub _ _ ihl ihr => rw [Polynomial.degree_sub, ihl, ihr, degree]
  | mul _ _ ihl ihr => rw [Polynomial.degree_mul, ihl, ihr, degree]
  | pow _ exponent expanded ihl _ =>
    obtain ⟨-, hn, -⟩ := exponent.exactPower?_iff.mp expanded
    rw [Polynomial.degree_pow, ihl, degree, hn, Option.getD_some]

/-- It makes no difference where an exponent of degree zero is evaluated. -/
theorem Kept.rounded?_eq (h : Kept maxPower f p) (hdegree : f.degree maxPower = 0) {x : Float}
    (finite : x.isFinite = true) :
    f.rounded? maxPower = Binary64.nearestNat? ((f.compile maxPower).eval x) := by
  obtain ⟨c, rfl⟩ := Polynomial.degree_eq_zero_iff.mp (h.degree_eq.trans hdegree)
  rw [rounded?, h.nearestNat?_eval rfl, h.nearestNat?_eval finite]

theorem Kept.expands (h : Kept maxPower f p) : f.Expands maxPower := by
  induction h with
  | number | x => exact List.forall_mem_singleton.mpr trivial
  | neg _ ih => exact List.forall_mem_cons.mpr ⟨trivial, ih⟩
  | add _ _ ihl ihr | sub _ _ ihl ihr | mul _ _ ihl ihr =>
    exact List.forall_mem_cons.mpr ⟨trivial, List.forall_mem_append.mpr ⟨ihl, ihr⟩⟩
  | pow _ exponent expanded ihl ihr =>
    obtain ⟨hdegree, hn, hle⟩ := exponent.exactPower?_iff.mp expanded
    rw [exponent.degree_eq] at hdegree
    exact List.forall_mem_cons.mpr ⟨⟨hdegree, _, hle, hn⟩, List.forall_mem_append.mpr ⟨ihl, ihr⟩⟩

theorem Expands.kept (h : f.Expands maxPower) : ∃ p, Kept maxPower f p := by
  induction f with
  | number value => exact ⟨_, .number value⟩
  | «variable» => exact ⟨_, .x⟩
  | neg operand ih =>
    obtain ⟨-, hoperand⟩ := List.forall_mem_cons.mp h
    obtain ⟨p, hp⟩ := ih hoperand
    exact ⟨_, .neg hp⟩
  | call b arg _ => exact (h _ List.mem_cons_self).elim
  | binary op lhs rhs ihl ihr =>
    obtain ⟨hself, hparts⟩ := List.forall_mem_cons.mp h
    obtain ⟨hl, hr⟩ := List.forall_mem_append.mp hparts
    obtain ⟨p, hp⟩ := ihl hl
    obtain ⟨q, hq⟩ := ihr hr
    cases op with
    | add => exact ⟨_, .add hp hq⟩
    | sub => exact ⟨_, .sub hp hq⟩
    | mul => exact ⟨_, .mul hp hq⟩
    | div => exact hself.elim
    | pow =>
      -- The degree makes the exponent one coefficient, which is its value.
      obtain ⟨hdegree, n, hle, hn⟩ := hself
      exact ⟨_, .pow hp hq (hq.exactPower?_iff.mpr ⟨hq.degree_eq.trans hdegree, hn, hle⟩)⟩

end Formula

namespace RealFunction

open Formula (sourceOf)

theorem parse_of_tree {maxPower : Nat} {input : String} {f : Formula} {F : RealFunction Float}
    (h : Formula.Derives .tree .expression (Formula.lexicon.scan (sourceOf input)) f)
    (hf : f.compile maxPower = F) : parse maxPower input = .ok F :=
  map_eq_ok_iff.mpr ⟨f, Formula.parse_eq_ok_iff.mpr h, hf⟩

/-- An input is read as a polynomial exactly if the formula derived from it is one that is expanded,
and then as one of its degree. -/
theorem parse_exact_iff_expands {maxPower : Nat} {input : String} {F : RealFunction Float}
    (h : parse maxPower input = .ok F) : ∃ f : Formula,
    (∀ g, Formula.Derives .tree .expression (Formula.lexicon.scan (sourceOf input)) g ↔ g = f) ∧
      match F with
      | .exact p => f.Expands maxPower ∧ p.degree = f.degree maxPower
      | .numeric _ => ¬f.Expands maxPower := by
  obtain ⟨f, hread, hf⟩ := map_eq_ok_iff.mp h
  refine ⟨f, fun g => ?_, ?_⟩
  · rw [← Formula.parse_eq_ok_iff, hread, Except.ok.injEq, eq_comm]
  cases F with
  | exact p =>
    have hkept := Formula.kept_of_compile hf
    exact ⟨hkept.expands, hkept.degree_eq⟩
  | numeric node =>
    intro hexpands
    obtain ⟨p, hkept⟩ := hexpands.kept
    rw [hkept.compile_eq] at hf
    cases hf

/-- The exponent has an `x`, and has the degree zero nonetheless. -/
theorem parse_exact_of_power_zero : ∃ p f,
    parse 2 "(x+1)^(x^0+1)" = .ok (.exact p) ∧ p.degree = 2 ∧
      (∀ g, Formula.Derives .tree .expression
        (Formula.lexicon.scan (sourceOf "(x+1)^(x^0+1)")) g ↔ g = f) ∧
      f.Expands 2 ∧ p.degree = f.degree 2 := by
  have htokens : Formula.lexicon.scan (sourceOf "(x+1)^(x^0+1)") =
      (⟨.opening .parenthesis, ['('], ⟨0, 1⟩⟩ ::
        ([⟨.variable, ['x'], ⟨1, 2⟩⟩] ++ ⟨.operator .add, ['+'], ⟨2, 3⟩⟩ ::
          [⟨.number, ['1'], ⟨3, 4⟩⟩] ++ [⟨.closing .parenthesis, [')'], ⟨4, 5⟩⟩])) ++
      ⟨.operator .pow, ['^'], ⟨5, 6⟩⟩ ::
        (⟨.opening .parenthesis, ['('], ⟨6, 7⟩⟩ ::
          (([⟨.variable, ['x'], ⟨7, 8⟩⟩] ++ ⟨.operator .pow, ['^'], ⟨8, 9⟩⟩ ::
            [⟨.number, ['0'], ⟨9, 10⟩⟩]) ++ ⟨.operator .add, ['+'], ⟨10, 11⟩⟩ ::
              [⟨.number, ['1'], ⟨11, 12⟩⟩] ++ [⟨.closing .parenthesis, [')'], ⟨12, 13⟩⟩])) := by
    decide +kernel
  have hzero : Number.read? ['0'] = some 0 := by decide +kernel
  have hone : Number.read? ['1'] = some 1 := by decide +kernel
  have derived : Formula.Derives .tree .expression
      (Formula.lexicon.scan (sourceOf "(x+1)^(x^0+1)"))
      (.binary .pow (.binary .add .variable (.number 1))
        (.binary .add (.binary .pow .variable (.number 0)) (.number 1))) := by
    rw [htokens]
    refine .term (.unary (.power (.raised (.group rfl rfl ?_) rfl
      (.power (.primary (.group rfl rfl ?_))))))
    · exact .shifted (.term (.unary (.power (.primary (.x rfl))))) rfl (.inl rfl)
        (.unary (.power (.primary (.number rfl hone))))
    · exact .shifted (.term (.unary (.power (.raised (.x rfl) rfl
        (.power (.primary (.number rfl hzero))))))) rfl (.inl rfl)
        (.unary (.power (.primary (.number rfl hone))))
  have hcompile : (Formula.binary .pow (.binary .add .variable (.number 1))
      (.binary .add (.binary .pow .variable (.number 0)) (.number 1))).compile 2 =
        .exact ⟨[1, 2, 1], by simp⟩ := rfl
  have hparse := parse_of_tree derived hcompile
  obtain ⟨f, hf, hexpands, hdegree⟩ := parse_exact_iff_expands hparse
  exact ⟨_, f, hparse, rfl, hf, hexpands, hdegree⟩

/-- A higher bound on the powers that are expanded makes no difference to what is refused and why,
and none to what is a polynomial already. -/
theorem parse_of_le {maxPower larger : Nat} (h : maxPower ≤ larger) (input : String) :
    (∀ d, parse maxPower input = .error d ↔ parse larger input = .error d) ∧
      ∀ p, parse maxPower input = .ok (.exact p) → parse larger input = .ok (.exact p) := by
  rw [parse, parse]
  cases Formula.parse input with
  | error d => simp [Except.map]
  | ok f =>
    constructor
    · simp [Except.map]
    · intro p hp
      have hkept := Formula.kept_of_compile (Except.ok.inj hp)
      exact congrArg Except.ok (hkept.of_le h).compile_eq

theorem parse_of_le_of_square : 2 ≤ 3 ∧
    (∀ d, parse 2 "3x^2" = .error d ↔ parse 3 "3x^2" = .error d) ∧
      ∃ p, parse 2 "3x^2" = .ok (.exact p) ∧ parse 3 "3x^2" = .ok (.exact p) := by
  have hle : 2 ≤ 3 := by decide
  have htokens : Formula.lexicon.scan (sourceOf "3x^2") =
      [⟨.number, ['3'], ⟨0, 1⟩⟩] ++ ([⟨.variable, ['x'], ⟨1, 2⟩⟩] ++
        ⟨.operator .pow, ['^'], ⟨2, 3⟩⟩ :: [⟨.number, ['2'], ⟨3, 4⟩⟩]) := by
    decide +kernel
  have htwo : Number.read? ['2'] = some 2 := by decide +kernel
  have hthree : Number.read? ['3'] = some 3 := by decide +kernel
  have derived : Formula.Derives .tree .expression (Formula.lexicon.scan (sourceOf "3x^2"))
      (.binary .mul (.number 3) (.binary .pow .variable (.number 2))) := by
    rw [htokens]
    exact .term (.juxtaposed (.unary (.power (.primary (.number rfl hthree))))
      (.raised (.x rfl) rfl (.power (.primary (.number rfl htwo)))))
  have hkept : Formula.Kept 2 (.binary .mul (.number 3) (.binary .pow .variable (.number 2)))
      (.constant 3 * Polynomial.identity.pow 2) :=
    .mul (.number 3) (.pow .x (.number 2) (by decide +kernel))
  have hparse := parse_of_tree derived hkept.compile_eq
  obtain ⟨herror, hexact⟩ := parse_of_le hle "3x^2"
  exact ⟨hle, herror, _, hparse, hexact _ hparse⟩

end RealFunction

end Calculator
