import Calculator.Polynomial

/-!
Degrees of polynomials as lists of coefficients. No operation looks at the coefficients to decide
how many of them to keep, so a degree is computed from degrees alone, over any type of numbers.
-/

set_option autoImplicit false
set_option relaxedAutoImplicit false

namespace Calculator.Polynomial

variable {α : Type}

theorem eq_of_coeffs_eq {p q : Polynomial α} (h : p.coeffs = q.coeffs) : p = q := by
  cases p
  cases q
  cases h
  rfl

theorem length_coeffs (p : Polynomial α) : p.coeffs.length = p.degree + 1 := by
  have hpositive := List.length_pos_iff.mpr p.nonempty
  rw [degree]
  omega

theorem degree_constant (c : α) : (constant c).degree = 0 := rfl

theorem constant?_eq_some_iff {p : Polynomial α} {c : α} :
    p.constant? = some c ↔ p = constant c := by
  constructor
  · intro h
    obtain ⟨coeffs, nonempty⟩ := p
    cases coeffs with
    | nil => cases h
    | cons a rest =>
      cases rest with
      | nil => cases h; rfl
      | cons b rest => cases h
  · rintro rfl
    rfl

theorem degree_eq_zero_iff {p : Polynomial α} : p.degree = 0 ↔ ∃ c, p = constant c := by
  constructor
  · intro h
    obtain ⟨c, hc⟩ := List.length_eq_one_iff.mp (p.length_coeffs.trans (congrArg Nat.succ h))
    exact ⟨c, constant?_eq_some_iff.mp (by rw [constant?, hc])⟩
  · rintro ⟨c, rfl⟩
    exact degree_constant c

theorem degree_identity [Zero α] [One α] : (identity : Polynomial α).degree = 1 := rfl

theorem degree_neg [Neg α] (p : Polynomial α) : (-p).degree = p.degree :=
  congrArg (· - 1) (List.length_map (- ·) : (p.coeffs.map (- ·)).length = p.coeffs.length)

theorem length_padTo [Zero α] {length : Nat} {coeffs : List α} :
    (padTo length coeffs).length = max length coeffs.length := by
  rw [padTo, List.length_append, List.length_replicate]
  omega

theorem degree_zipAligned [Zero α] (f : α → α → α) (p q : Polynomial α) :
    (zipAligned f p q).degree = max p.degree q.degree := by
  have hlength : (zipAligned f p q).coeffs.length = max p.coeffs.length q.coeffs.length := by
    rw [zipAligned, List.length_zipWith, length_padTo, length_padTo]
    omega
  rw [length_coeffs, length_coeffs, length_coeffs] at hlength
  omega

theorem degree_add [Zero α] [Add α] (p q : Polynomial α) :
    (p + q).degree = max p.degree q.degree :=
  degree_zipAligned (· + ·) p q

theorem degree_sub [Zero α] [Sub α] (p q : Polynomial α) :
    (p - q).degree = max p.degree q.degree :=
  degree_zipAligned (· - ·) p q

theorem length_powerRule [Mul α] [NatCast α] (c : α) (coeffs : List α) :
    (powerRule (c :: coeffs)).length = coeffs.length := by
  induction coeffs generalizing c with
  | nil => rfl
  | cons d rest ih => rw [powerRule, List.length_cons, ih, List.length_cons]

theorem degree_ofCoeffs [Zero α] (coeffs : List α) :
    (ofCoeffs coeffs).degree = coeffs.length - 1 := by
  cases coeffs <;> rfl

theorem degree_derivative [Zero α] [Mul α] [NatCast α] (p : Polynomial α) :
    p.derivative.degree = p.degree - 1 := by
  obtain ⟨coeffs, nonempty⟩ := p
  cases coeffs with
  | nil => exact absurd rfl nonempty
  | cons c rest => rw [derivative, degree_ofCoeffs, length_powerRule]; rfl

variable [Zero α] [Add α] [Mul α]

theorem degree_mul (p q : Polynomial α) : (p * q).degree = p.degree + q.degree := by
  have hlength : (p * q).coeffs.length = p.coeffs.length + q.coeffs.length - 1 := by
    change (addRows _ _ _).length = _
    rw [length_addRows, List.length_replicate]
  rw [length_coeffs, length_coeffs, length_coeffs] at hlength
  omega

theorem degree_pow [One α] (p : Polynomial α) (n : Nat) : (p.pow n).degree = n * p.degree := by
  induction n with
  | zero => rw [pow, degree_constant, Nat.zero_mul]
  | succ n ih => rw [pow, degree_mul, ih, Nat.succ_mul]

end Calculator.Polynomial
