import Calculator.Proofs.Function.Degrees
import Calculator.RealFunction
import Mathlib.Algebra.Field.Basic
import Mathlib.Tactic.LinearCombination
import Mathlib.Tactic.Ring

/-!
Coefficients instead of values. In exact arithmetic, which a field with any powers, named functions
and rounding stands for, evaluating coefficients by Horner's rule turns sums, differences, products
and powers of polynomials into those of their values. Whether a function is kept as coefficients or
as a tree therefore makes no difference to its values.
-/

set_option autoImplicit false
set_option relaxedAutoImplicit false

namespace Calculator

namespace Polynomial

section Ring

variable {R : Type} [CommRing R]

def horner (x : R) (coeffs : List R) : R := coeffs.foldl (fun value c => value * x + c) 0

theorem foldl_horner (x value : R) (coeffs : List R) :
    coeffs.foldl (fun value c => value * x + c) value =
      value * x ^ coeffs.length + horner x coeffs := by
  induction coeffs generalizing value with
  | nil => simp [horner]
  | cons c coeffs ih =>
    have hrest : horner x (c :: coeffs) = (0 * x + c) * x ^ coeffs.length + horner x coeffs := ih _
    rw [List.foldl_cons, ih, hrest, List.length_cons]
    ring

theorem horner_cons (x c : R) (coeffs : List R) :
    horner x (c :: coeffs) = c * x ^ coeffs.length + horner x coeffs := by
  have h := foldl_horner x (0 * x + c) coeffs
  rw [zero_mul, zero_add] at h
  simpa [horner] using h

theorem horner_padTo (x : R) (length : Nat) (coeffs : List R) :
    horner x (padTo length coeffs) = horner x coeffs := by
  rw [padTo]
  induction length - coeffs.length with
  | zero => rfl
  | succ n ih => rw [List.replicate_succ, List.cons_append, horner_cons, ih, zero_mul, zero_add]

theorem horner_zipWith {f : R → R → R} (s : R) (hf : ∀ a b, f a b = a + s * b) (x : R)
    {first second : List R} (h : first.length = second.length) :
    horner x (List.zipWith f first second) = horner x first + s * horner x second := by
  induction first generalizing second with
  | nil =>
    cases second with
    | nil => simp [horner]
    | cons b second => cases h
  | cons a first ih =>
    cases second with
    | nil => cases h
    | cons b second =>
      have hlength : first.length = second.length := Nat.succ.inj h
      have hzip : (List.zipWith f first second).length = second.length := by
        rw [List.length_zipWith, hlength, Nat.min_self]
      rw [List.zipWith_cons_cons, horner_cons, horner_cons, horner_cons, ih hlength, hzip, hlength,
        hf]
      ring

theorem eval_zipAligned {f : R → R → R} (s : R) (hf : ∀ a b, f a b = a + s * b)
    (p q : Polynomial R) (x : R) : (zipAligned f p q).eval x = p.eval x + s * q.eval x := by
  have hlength : (padTo q.coeffs.length p.coeffs).length =
      (padTo p.coeffs.length q.coeffs).length := by
    rw [length_padTo, length_padTo, Nat.max_comm]
  have hvalue := horner_zipWith s hf x hlength
  rw [horner_padTo, horner_padTo] at hvalue
  exact hvalue

theorem eval_add (p q : Polynomial R) (x : R) : (p + q).eval x = p.eval x + q.eval x := by
  have h := eval_zipAligned (f := (· + ·)) (1 : R) (fun a b => by ring) p q x
  rwa [one_mul] at h

theorem eval_sub (p q : Polynomial R) (x : R) : (p - q).eval x = p.eval x - q.eval x := by
  have h := eval_zipAligned (f := (· - ·)) (-1 : R) (fun a b => by ring) p q x
  rwa [neg_one_mul, ← sub_eq_add_neg] at h

theorem eval_neg (p : Polynomial R) (x : R) : (-p).eval x = -p.eval x := by
  have hcoeffs (coeffs : List R) : horner x (coeffs.map (- ·)) = -horner x coeffs := by
    induction coeffs with
    | nil => simp [horner]
    | cons c coeffs ih =>
      rw [List.map_cons, horner_cons, horner_cons, ih, List.length_map]
      ring
  exact hcoeffs p.coeffs

theorem horner_addRow (x a : R) {row cells : List R} (h : row.length ≤ cells.length) :
    horner x (addRow a row cells) =
      horner x cells + a * horner x row * x ^ (cells.length - row.length) := by
  induction row generalizing cells with
  | nil => cases cells <;> simp [addRow, horner]
  | cons b row ih =>
    cases cells with
    | nil => cases h
    | cons cell cells =>
      have hle : row.length ≤ cells.length := Nat.le_of_succ_le_succ h
      have hpower : x ^ cells.length = x ^ row.length * x ^ (cells.length - row.length) := by
        rw [← pow_add, Nat.add_sub_cancel' hle]
      rw [addRow, horner_cons, horner_cons, horner_cons, length_addRow, ih hle, List.length_cons,
        List.length_cons, Nat.succ_sub_succ, hpower]
      ring

/-- Every row is added one cell further on than the one before, so the rows together add the product
of both values. -/
theorem horner_addRows (x : R) (row : List R) {factors cells : List R}
    (h : cells.length + 1 = factors.length + row.length) :
    horner x (addRows row factors cells) = horner x cells + horner x factors * horner x row := by
  induction factors generalizing cells with
  | nil => simp [addRows, horner]
  | cons a factors ih =>
    rw [List.length_cons] at h
    have hlength : (addRow a row cells).length = cells.length := length_addRow a row cells
    have hplaces : cells.length - row.length = factors.length := by omega
    have hfits : row.length ≤ cells.length := by omega
    have hrow := horner_addRow x a hfits
    rw [hplaces] at hrow
    cases hcells : addRow a row cells with
    | nil =>
      -- No cell is left, so this is the last factor and the row is empty.
      rw [hcells] at hlength hrow
      have hnone : row = [] := List.length_eq_zero_iff.mp (by simp at hlength; omega)
      subst hnone
      simp only [addRows, hcells]
      simpa [horner] using hrow
    | cons cell rest =>
      rw [hcells, horner_cons] at hrow
      rw [hcells, List.length_cons] at hlength
      have hplaced : rest.length + 1 = factors.length + row.length := by omega
      have hrest := ih hplaced
      simp only [addRows, hcells]
      rw [horner_cons, length_addRows, hrest, horner_cons]
      linear_combination hrow

theorem eval_mul (p q : Polynomial R) (x : R) : (p * q).eval x = p.eval x * q.eval x := by
  have hp := List.length_pos_iff.mpr p.nonempty
  have hzero (n : Nat) : horner x (List.replicate n 0) = 0 := by
    have h := horner_padTo x n []
    simpa [padTo, horner] using h
  have hplaced : (List.replicate (p.coeffs.length + q.coeffs.length - 1) (0 : R)).length + 1 =
      p.coeffs.length + q.coeffs.length := by
    rw [List.length_replicate]
    omega
  have h := horner_addRows x q.coeffs hplaced
  rw [hzero, zero_add] at h
  exact h

theorem eval_constant (c x : R) : (constant c).eval x = c := by
  simp [constant, eval]

theorem eval_pow (p : Polynomial R) (n : Nat) (x : R) : (p.pow n).eval x = p.eval x ^ n := by
  induction n with
  | zero => rw [pow, eval_constant, pow_zero]
  | succ n ih => rw [pow, eval_mul, ih, pow_succ]

end Ring

end Polynomial

namespace RealFunction

variable {K : Type} [Field K] [Elementary K]

/-- The exponent that a power is expanded with, if it is. -/
def expansion? (maxPower : Nat) (base exponent : RealFunction K) : Option Nat :=
  base.polynomial?.bind fun _ => exponent.polynomial?.bind (exactPower? maxPower)

theorem eval_toNode (f : RealFunction K) (x : K) : f.toNode.eval x = f.eval x := by
  cases f with
  | exact p => rfl
  | numeric node => rfl

theorem eval_binary_node (op : Operator) (f g : RealFunction K) (x : K) :
    (Node.binary op f.toNode g.toNode).eval x = op.apply (f.eval x) (g.eval x) := by
  rw [Node.eval, eval_toNode, eval_toNode]

theorem eval_binary (op : Operator) (hop : op ≠ .pow) (f g : RealFunction K) (x : K) :
    (binary op f g).eval x = op.apply (f.eval x) (g.eval x) := by
  cases op with
  | pow => exact absurd rfl hop
  | div => exact eval_binary_node .div f g x
  | add =>
    cases f with
    | numeric node => exact eval_binary_node .add (.numeric node) g x
    | exact p =>
      cases g with
      | numeric node => exact eval_binary_node .add (.exact p) (.numeric node) x
      | exact q => exact p.eval_add q x
  | sub =>
    cases f with
    | numeric node => exact eval_binary_node .sub (.numeric node) g x
    | exact p =>
      cases g with
      | numeric node => exact eval_binary_node .sub (.exact p) (.numeric node) x
      | exact q => exact p.eval_sub q x
  | mul =>
    cases f with
    | numeric node => exact eval_binary_node .mul (.numeric node) g x
    | exact p =>
      cases g with
      | numeric node => exact eval_binary_node .mul (.exact p) (.numeric node) x
      | exact q => exact p.eval_mul q x

theorem eval_neg (f : RealFunction K) (x : K) : f.neg.eval x = -f.eval x := by
  cases f with
  | exact p => exact p.eval_neg x
  | numeric node => rfl

theorem pow_of_expansion?_eq_some {maxPower n : Nat} {f g : RealFunction K}
    (h : expansion? maxPower f g = some n) :
    ∃ p, f = .exact p ∧ pow maxPower f g = .exact (p.pow n) := by
  cases f with
  | numeric node => cases h
  | exact p =>
    cases g with
    | numeric node => cases h
    | exact q =>
      have hexponent : exactPower? maxPower q = some n := h
      exact ⟨p, rfl, by rw [pow, hexponent]⟩

theorem pow_of_expansion?_eq_none {maxPower : Nat} {f g : RealFunction K}
    (h : expansion? maxPower f g = none) :
    pow maxPower f g = .numeric (.binary .pow f.toNode g.toNode) := by
  cases f with
  | numeric node => rfl
  | exact p =>
    cases g with
    | numeric node => rfl
    | exact q =>
      have hexponent : exactPower? maxPower q = none := h
      rw [pow, hexponent]
      rfl

/-- The values of a combination of functions are the combinations of their values. A power is in
exact form exactly if it is expanded, and then it has the rounded exponent. -/
theorem eval_combinations (op : Operator) (f g : RealFunction K) (maxPower : Nat) (x : K) :
    (binary op f g).eval x =
        (if op = .pow then (pow defaultMaxPower f g).eval x else op.apply (f.eval x) (g.eval x)) ∧
      f.neg.eval x = -f.eval x ∧
      (pow maxPower f g).polynomial?.isSome = (expansion? maxPower f g).isSome ∧
      (pow maxPower f g).eval x =
        match expansion? maxPower f g with
        | some n => f.eval x ^ n
        | none => Elementary.power (f.eval x) (g.eval x) := by
  refine ⟨?_, eval_neg f x, ?_⟩
  · by_cases hop : op = .pow
    · rw [if_pos hop, hop]
      cases f <;> rfl
    · rw [if_neg hop, eval_binary op hop]
  · cases h : expansion? maxPower f g with
    | some n =>
      obtain ⟨p, rfl, hpow⟩ := pow_of_expansion?_eq_some h
      rw [hpow]
      exact ⟨rfl, p.eval_pow n x⟩
    | none =>
      rw [pow_of_expansion?_eq_none h]
      exact ⟨rfl, eval_binary_node .pow f g x⟩

end RealFunction

end Calculator
