import Calculator.Proofs.Function.Pointwise
import Mathlib.Algebra.DualNumber
import Mathlib.Algebra.MvPolynomial.Eval
import Mathlib.Algebra.Polynomial.Identities
import Mathlib.Data.Fin.VecNotation

/-!
Derivatives of coefficients. The power rule gives the slope of the values that Horner's rule
computes: what is left of a value at `x + h` besides the value and the slope at `x` is a multiple of
the square of `h`. Over a ring in which `h` has no square the slope is therefore read off the
values, which is how the rule for products follows from the values of a product.
-/

set_option autoImplicit false
set_option relaxedAutoImplicit false

namespace Calculator.Polynomial

/-- The polynomial with every coefficient replaced by its image. -/
def map {α β : Type} (f : α → β) (p : Polynomial α) : Polynomial β :=
  ⟨p.coeffs.map f, by simpa using p.nonempty⟩

section Map

variable {R S : Type} [CommRing R] [CommRing S] (f : R →+* S)

theorem horner_map (x : R) (coeffs : List R) :
    horner (f x) (coeffs.map f) = f (horner x coeffs) := by
  induction coeffs with
  | nil => simp [horner]
  | cons c coeffs ih =>
    rw [List.map_cons, horner_cons, horner_cons, ih, List.length_map, map_add, map_mul, map_pow]

theorem eval_map (p : Polynomial R) (x : R) : (p.map f).eval (f x) = f (p.eval x) :=
  horner_map f x p.coeffs

theorem powerRule_map (coeffs : List R) : powerRule (coeffs.map f) = (powerRule coeffs).map f := by
  induction coeffs with
  | nil => rfl
  | cons c coeffs ih =>
    cases coeffs with
    | nil => rfl
    | cons d rest =>
      have hlead : f c * ((rest.map f).length + 1 : Nat) = f (c * (rest.length + 1 : Nat)) := by
        rw [map_mul, map_natCast, List.length_map]
      exact congrArg₂ List.cons hlead ih

theorem addRow_map (a : R) (row cells : List R) :
    addRow (f a) (row.map f) (cells.map f) = (addRow a row cells).map f := by
  induction row generalizing cells with
  | nil => cases cells <;> rfl
  | cons b row ih =>
    cases cells with
    | nil => rfl
    | cons cell cells =>
      rw [List.map_cons, List.map_cons, addRow, ih, addRow, List.map_cons, map_add, map_mul]

theorem addRows_map (row factors cells : List R) :
    addRows (row.map f) (factors.map f) (cells.map f) = (addRows row factors cells).map f := by
  induction factors generalizing cells with
  | nil => rfl
  | cons a factors ih =>
    rw [List.map_cons, addRows, addRows, addRow_map]
    cases addRow a row cells with
    | nil => rfl
    | cons cell cells => exact congrArg (f cell :: ·) (ih cells)

theorem mul_map (p q : Polynomial R) : (p * q).map f = p.map f * q.map f := by
  have hzeros (n : Nat) : List.replicate n (0 : S) = (List.replicate n (0 : R)).map f := by
    rw [List.map_replicate, map_zero]
  have hcoeffs : ((p * q).map f).coeffs = (p.map f * q.map f).coeffs := by
    change (addRows _ _ _).map f = addRows (q.coeffs.map f) (p.coeffs.map f) _
    rw [map, map, List.length_map, List.length_map, hzeros, addRows_map]
  exact eq_of_coeffs_eq hcoeffs

end Map

section Ring

variable {R : Type} [CommRing R]

theorem eval_ofCoeffs (x : R) (coeffs : List R) : (ofCoeffs coeffs).eval x = horner x coeffs := by
  cases coeffs with
  | nil => rw [ofCoeffs, eval_constant, horner, List.foldl_nil]
  | cons c coeffs => rfl

theorem horner_add (x h : R) (coeffs : List R) :
    ∃ k, horner (x + h) coeffs = horner x coeffs + h * horner x (powerRule coeffs) + h ^ 2 * k := by
  induction coeffs with
  | nil => exact ⟨0, by simp [horner, powerRule]⟩
  | cons c coeffs ih =>
    cases coeffs with
    | nil => exact ⟨0, by simp [horner, powerRule]⟩
    | cons d rest =>
      obtain ⟨k, hrest⟩ := ih
      obtain ⟨r, hpower⟩ := Polynomial.powAddExpansion x h (rest.length + 1)
      refine ⟨c * r + k, ?_⟩
      rw [powerRule, horner_cons, hrest, horner_cons x c, horner_cons x (c * _), length_powerRule,
        List.length_cons, hpower, Nat.add_sub_cancel]
      ring

theorem eval_add_argument (p : Polynomial R) (x h : R) :
    ∃ k, p.eval (x + h) = p.eval x + h * p.derivative.eval x + h ^ 2 * k := by
  obtain ⟨k, hk⟩ := horner_add x h p.coeffs
  exact ⟨k, by rw [derivative, eval_ofCoeffs]; exact hk⟩

theorem derivative_map {S : Type} [CommRing S] (f : R →+* S) (p : Polynomial R) (x : R) :
    (p.map f).derivative.eval (f x) = f (p.derivative.eval x) := by
  rw [derivative, derivative, eval_ofCoeffs, eval_ofCoeffs, ← horner_map, ← powerRule_map]
  rfl

/-- What is left besides the value and the slope is the same polynomial in both variables, whatever
they are. -/
theorem exists_remainder (p : Polynomial R) :
    ∃ r : MvPolynomial (Fin 2) R, ∀ x h : R,
      p.eval (x + h) = p.eval x + h * p.derivative.eval x +
        h ^ 2 * MvPolynomial.eval ![x, h] r := by
  obtain ⟨r, hr⟩ := (p.map MvPolynomial.C).eval_add_argument (.X 0) (.X 1 : MvPolynomial (Fin 2) R)
  refine ⟨r, fun x h => ?_⟩
  -- The equation of the polynomials is taken to that of their values.
  have hback : (p.map MvPolynomial.C).map (MvPolynomial.eval ![x, h]) = p := by
    cases p
    simp [map, Function.comp_def]
  have hvalue := congrArg (MvPolynomial.eval ![x, h]) hr
  rw [map_add, map_add, map_mul, map_mul, map_pow, ← eval_map, ← eval_map, ← derivative_map,
    hback] at hvalue
  simpa using hvalue

/-! The rule for products, from values over dual numbers. -/

open DualNumber TrivSqZeroExt

theorem eval_dual (p : Polynomial R) (x : R) :
    (p.map (inlHom R R)).eval (inlHom R R x + ε) =
      inlHom R R (p.eval x) + ε * inlHom R R (p.derivative.eval x) := by
  obtain ⟨k, hk⟩ := (p.map (inlHom R R)).eval_add_argument (inlHom R R x) ε
  rw [hk, eval_map, derivative_map, eps_pow_two, zero_mul, add_zero]

theorem derivative_mul (p q : Polynomial R) (x : R) :
    (p * q).derivative.eval x =
      p.derivative.eval x * q.eval x + p.eval x * q.derivative.eval x := by
  have hproduct := (p * q).eval_dual x
  rw [mul_map, eval_mul, eval_dual, eval_dual] at hproduct
  have hslope := congrArg TrivSqZeroExt.snd hproduct
  simp only [inlHom_apply, DualNumber.snd_mul, fst_add, snd_add, fst_mul, fst_inl, snd_inl, fst_eps,
    snd_eps, zero_mul, mul_zero, one_mul, add_zero, zero_add] at hslope
  linear_combination -hslope

end Ring

/-- The derivative of coefficients is that of their values. The value at a sum is the value at the
first summand, the slope times the second summand and a multiple of its square, which is a
polynomial in both; the slope of a product is given by the values and slopes of its factors. -/
theorem derivative_slope_and_product {R : Type} [CommRing R] (p q : Polynomial R) :
    (∃ r : MvPolynomial (Fin 2) R, ∀ x h : R,
      p.eval (x + h) =
        p.eval x + h * p.derivative.eval x + h ^ 2 * MvPolynomial.eval ![x, h] r) ∧
      ∀ x : R, (p * q).derivative.eval x =
        p.derivative.eval x * q.eval x + p.eval x * q.derivative.eval x :=
  ⟨p.exists_remainder, p.derivative_mul q⟩

end Calculator.Polynomial
