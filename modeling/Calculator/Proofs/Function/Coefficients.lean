import Calculator.Proofs.Function.Degrees

/-!
Coefficients of sums, products and powers, over numbers without any laws. A product adds row after
row of products into cells that start at zero. Nothing is added past the last cell, and every cell
receives exactly its terms, each one once and in the order of the first factor, so the coefficients
are determined although no addition may be moved. How many of them there are is told by the way a
polynomial was made, and it is never none.
-/

set_option autoImplicit false
set_option relaxedAutoImplicit false

namespace Calculator.Polynomial

variable {α : Type}

structure Addition (α : Type) where
  cell : Nat
  amount : α

def amounts (k : Nat) (list : List (Addition α)) : List α :=
  (list.filter (·.cell = k)).map Addition.amount

theorem amounts_append (k : Nat) (first second : List (Addition α)) :
    amounts k (first ++ second) = amounts k first ++ amounts k second := by
  rw [amounts, List.filter_append, List.map_append, amounts, amounts]

theorem amounts_cons (k : Nat) (addition : Addition α) (list : List (Addition α)) :
    amounts k (addition :: list) =
      if addition.cell = k then addition.amount :: amounts k list else amounts k list := by
  by_cases hcell : addition.cell = k <;> simp [amounts, hcell]

def addAt? [Add α] (cells : List α) (addition : Addition α) : Option (List α) :=
  cells[addition.cell]?.map fun cell => cells.set addition.cell (cell + addition.amount)

/-- Additions to cells that there are leave in each cell what it held and its amounts. -/
theorem foldlM_addAt? [Add α] {list : List (Addition α)} {cells : List α}
    (h : ∀ addition ∈ list, addition.cell < cells.length) :
    ∃ next, list.foldlM addAt? cells = some next ∧
      ∀ k : Nat, next[k]? = cells[k]?.map fun cell => (amounts k list).foldl (· + ·) cell := by
  induction list generalizing cells with
  | nil => exact ⟨cells, rfl, by simp [amounts]⟩
  | cons addition list ih =>
    have hcell : addition.cell < cells.length := h _ List.mem_cons_self
    have hstep : addAt? cells addition =
        some (cells.set addition.cell (cells[addition.cell] + addition.amount)) := by
      rw [addAt?, List.getElem?_eq_getElem hcell, Option.map_some]
    have hrest : ∀ other ∈ list, other.cell <
        (cells.set addition.cell (cells[addition.cell] + addition.amount)).length := by
      intro other hmem
      rw [List.length_set]
      exact h other (List.mem_cons_of_mem _ hmem)
    obtain ⟨next, hnext, hcells⟩ := ih hrest
    refine ⟨next, ?_, fun k => ?_⟩
    · rw [List.foldlM_cons, hstep]
      exact hnext
    · rw [hcells k, amounts_cons]
      by_cases hk : addition.cell = k
      · subst hk
        rw [if_pos rfl, List.getElem?_set_self hcell, List.getElem?_eq_getElem hcell]
        rfl
      · rw [if_neg hk, List.getElem?_set_ne hk]

section Terms

variable [Mul α]

def terms (first second : List α) (k : Nat) : List α :=
  (List.range (k + 1)).filterMap fun i => first[i]?.bind fun a => second[k - i]?.map (a * ·)

example : terms [2, 3] [5, 7, 11] 2 = [2 * 11, 3 * 7] := by decide

theorem terms_nil (second : List α) (k : Nat) : terms [] second k = [] := by
  simp [terms]

theorem terms_cons_zero (a : α) (first second : List α) :
    terms (a :: first) second 0 = (second[0]?.map (a * ·)).toList := by
  cases second <;> simp [terms, List.range_succ_eq_map]

theorem terms_cons_succ (a : α) (first second : List α) (k : Nat) :
    terms (a :: first) second (k + 1) =
      (second[k + 1]?.map (a * ·)).toList ++ terms first second k := by
  have hshift : (fun i => (a :: first)[i]?.bind fun b =>
      second[k + 1 - i]?.map (b * ·)) ∘ Nat.succ =
      fun i => first[i]?.bind fun b => second[k - i]?.map (b * ·) := by
    funext i
    rw [Function.comp_apply, List.getElem?_cons_succ, Nat.succ_sub_succ]
  rw [terms, List.range_succ_eq_map, List.filterMap_cons, List.filterMap_map, hshift]
  cases second[k + 1]? <;> rfl

/-- The additions that make up a product, row by row: a product of two coefficients goes to the cell
whose index is the sum of theirs. The first row starts at the given cell. -/
def additions (start : Nat) (first second : List α) : List (Addition α) :=
  (first.zipIdx start).flatMap fun (a, i) => second.zipIdx.map fun (b, j) => ⟨i + j, a * b⟩

theorem amounts_row (a : α) (second : List α) (i start k : Nat) :
    amounts k ((second.zipIdx start).map fun (b, j) => ⟨i + j, a * b⟩) =
      if i + start ≤ k then (second[k - (i + start)]?.map (a * ·)).toList else [] := by
  induction second generalizing start with
  | nil => simp [amounts]
  | cons b second ih =>
    rw [List.zipIdx_cons, List.map_cons, amounts_cons, ih]
    dsimp only
    rcases Nat.lt_trichotomy (i + start) k with hlt | rfl | hgt
    · have hnext : k - (i + start) = k - (i + (start + 1)) + 1 := by omega
      rw [if_neg (by omega), if_pos (by omega), if_pos (by omega), hnext, List.getElem?_cons_succ]
    · rw [if_pos rfl, if_neg (by omega), if_pos (Nat.le_refl _), Nat.sub_self]
      rfl
    · rw [if_neg (by omega), if_neg (by omega), if_neg (by omega)]

theorem amounts_additions (first second : List α) (start k : Nat) :
    amounts k (additions start first second) =
      if start ≤ k then terms first second (k - start) else [] := by
  induction first generalizing start with
  | nil => simp [additions, amounts, terms_nil]
  | cons a first ih =>
    rw [additions, List.zipIdx_cons, List.flatMap_cons, amounts_append, ← additions, amounts_row,
      ih, Nat.add_zero]
    rcases Nat.lt_trichotomy start k with hlt | rfl | hgt
    · have hnext : k - start = k - (start + 1) + 1 := by omega
      rw [if_pos (by omega), if_pos (by omega), if_pos (by omega), hnext, terms_cons_succ]
    · rw [if_pos (Nat.le_refl _), if_neg (by omega), if_pos (Nat.le_refl _), Nat.sub_self,
        terms_cons_zero, List.append_nil]
    · rw [if_neg (by omega), if_neg (by omega), if_neg (by omega), List.append_nil]

theorem cell_lt_of_mem_additions {first second : List α} {addition : Addition α}
    (h : addition ∈ additions 0 first second) :
    addition.cell < first.length + second.length - 1 := by
  simp only [additions, List.mem_flatMap, List.mem_map, Prod.exists] at h
  obtain ⟨a, i, hi, b, j, hj, rfl⟩ := h
  have hrow := (List.mem_zipIdx hi).2.1
  have hcolumn := (List.mem_zipIdx hj).2.1
  dsimp only
  omega

end Terms

section Products

variable [Add α] [Mul α]

theorem getElem?_addRow (a : α) (row cells : List α) (k : Nat) :
    (addRow a row cells)[k]? =
      cells[k]?.map fun cell => (row[k]?.map (a * ·)).toList.foldl (· + ·) cell := by
  induction row generalizing cells k with
  | nil => cases cells <;> simp [addRow]
  | cons b row ih =>
    cases cells with
    | nil => simp [addRow]
    | cons cell cells =>
      cases k with
      | zero => rfl
      | succ k => simp [addRow, ih]

theorem getElem?_addRows (row factors cells : List α) (k : Nat) :
    (addRows row factors cells)[k]? =
      cells[k]?.map fun cell => (terms factors row k).foldl (· + ·) cell := by
  induction factors generalizing cells k with
  | nil => simp [addRows, terms_nil]
  | cons a factors ih =>
    have hrow := getElem?_addRow a row cells
    cases hadded : addRow a row cells with
    | nil =>
      have hlength := length_addRow a row cells
      rw [hadded] at hlength
      obtain rfl := List.length_eq_zero_iff.mp hlength.symm
      rw [List.length_eq_zero_iff.mp (length_addRows row (a :: factors) [])]
      rfl
    | cons cell rest =>
      rw [hadded] at hrow
      simp only [addRows, hadded]
      cases k with
      | zero => rw [List.getElem?_cons_zero, terms_cons_zero, ← hrow 0, List.getElem?_cons_zero]
      | succ k =>
        have hnext := hrow (k + 1)
        rw [List.getElem?_cons_succ] at hnext
        rw [List.getElem?_cons_succ, ih, hnext, terms_cons_succ, Option.map_map]
        simp only [Function.comp_def, List.foldl_append]

theorem foldlM_additions {first second cells : List α}
    (h : cells.length = first.length + second.length - 1) :
    (additions 0 first second).foldlM addAt? cells = some (addRows second first cells) := by
  have hfits : ∀ addition ∈ additions 0 first second, addition.cell < cells.length :=
    fun addition hmem => h ▸ cell_lt_of_mem_additions hmem
  obtain ⟨next, hnext, hcells⟩ := foldlM_addAt? hfits
  rw [hnext]
  refine congrArg some (List.ext_getElem? fun k => ?_)
  rw [hcells, amounts_additions, getElem?_addRows, if_pos (Nat.zero_le k), Nat.sub_zero]

variable [Zero α]

/-- The product of two polynomials, added up from zeros one product at a time. -/
structure Convolved (p q product : Polynomial α) : Prop where
  length : product.coeffs.length = p.coeffs.length + q.coeffs.length - 1
  accumulated : (additions 0 p.coeffs q.coeffs).foldlM addAt?
    (List.replicate (p.coeffs.length + q.coeffs.length - 1) 0) = some product.coeffs
  coefficient : ∀ k < p.coeffs.length + q.coeffs.length - 1,
    product.coeffs[k]? = some ((terms p.coeffs q.coeffs k).foldl (· + ·) 0)

theorem convolved_mul (p q : Polynomial α) : Convolved p q (p * q) where
  length := by
    change (addRows _ _ _).length = _
    rw [length_addRows, List.length_replicate]
  accumulated := foldlM_additions List.length_replicate
  coefficient k hk := by
    change (addRows _ _ _)[k]? = _
    rw [getElem?_addRows, List.getElem?_replicate, if_pos hk, Option.map_some]

end Products

section Sums

variable [Zero α]

/-- The coefficient of a power of `x`, zero past the degree. -/
def coefficient (p : Polynomial α) (power : Nat) : α := p.coeffs.reverse.getD power 0

theorem reverse_padTo (length : Nat) (coeffs : List α) :
    (padTo length coeffs).reverse =
      coeffs.reverse ++ List.replicate (length - coeffs.length) 0 := by
  rw [padTo, List.reverse_append, List.reverse_replicate]

theorem getElem?_reverse_padTo {length power : Nat} (p : Polynomial α)
    (h : power < max length p.coeffs.length) :
    (padTo length p.coeffs).reverse[power]? = some (p.coefficient power) := by
  rw [reverse_padTo, coefficient, List.getD_eq_getElem?_getD]
  rcases Nat.lt_or_ge power p.coeffs.reverse.length with hlt | hge
  · rw [List.getElem?_append_left hlt, List.getElem?_eq_getElem hlt, Option.getD_some]
  · have hpad : power - p.coeffs.reverse.length < length - p.coeffs.length := by
      rw [List.length_reverse] at *
      omega
    rw [List.getElem?_append_right hge, List.getElem?_eq_none hge, List.getElem?_replicate,
      if_pos hpad, Option.getD_none]

structure Aligned (f : α → α → α) (p q combined : Polynomial α) : Prop where
  length : combined.coeffs.length = max p.coeffs.length q.coeffs.length
  coefficient : ∀ power < max p.coeffs.length q.coeffs.length,
    combined.coeffs.reverse[power]? = some (f (p.coefficient power) (q.coefficient power))

theorem aligned_zipAligned (f : α → α → α) (p q : Polynomial α) :
    Aligned f p q (zipAligned f p q) where
  length := by
    rw [zipAligned, List.length_zipWith, length_padTo, length_padTo]
    omega
  coefficient power hpower := by
    have hlength : (padTo q.coeffs.length p.coeffs).length =
        (padTo p.coeffs.length q.coeffs).length := by
      rw [length_padTo, length_padTo, Nat.max_comm]
    rw [zipAligned, List.reverse_zipWith hlength, List.getElem?_zipWith,
      getElem?_reverse_padTo p (by omega), getElem?_reverse_padTo q hpower]

end Sums

inductive Construction (α : Type) where
  | coeffs (list : List α)
  | identity
  | add (first second : Construction α)
  | sub (first second : Construction α)
  | mul (first second : Construction α)
  | neg (operand : Construction α)
  | pow (base : Construction α) (exponent : Nat)
  | derivative (operand : Construction α)

namespace Construction

def degree : Construction α → Nat
  | .coeffs list => list.length - 1
  | .identity => 1
  | .add first second | .sub first second => max first.degree second.degree
  | .mul first second => first.degree + second.degree
  | .neg operand => operand.degree
  | .pow base exponent => exponent * base.degree
  | .derivative operand => operand.degree - 1

end Construction

variable [Zero α] [One α] [Add α] [Sub α] [Neg α] [Mul α] [NatCast α]

def Construction.polynomial : Construction α → Polynomial α
  | .coeffs list => ofCoeffs list
  | .identity => Polynomial.identity
  | .add first second => first.polynomial + second.polynomial
  | .sub first second => first.polynomial - second.polynomial
  | .mul first second => first.polynomial * second.polynomial
  | .neg operand => -operand.polynomial
  | .pow base exponent => base.polynomial.pow exponent
  | .derivative operand => operand.polynomial.derivative

theorem Construction.degree_polynomial (c : Construction α) : c.polynomial.degree = c.degree := by
  induction c with
  | coeffs list => rw [polynomial, degree_ofCoeffs, degree]
  | identity => rfl
  | add first second ih ih' => rw [polynomial, degree_add, ih, ih', degree]
  | sub first second ih ih' => rw [polynomial, degree_sub, ih, ih', degree]
  | mul first second ih ih' => rw [polynomial, degree_mul, ih, ih', degree]
  | neg operand ih => rw [polynomial, degree_neg, ih, degree]
  | pow base exponent ih => rw [polynomial, degree_pow, ih, degree]
  | derivative operand ih => rw [polynomial, degree_derivative, ih, degree]

/-- How many coefficients the operations give, and which ones; and that what is made of them always
has one more than its degree. -/
theorem coefficients_of_operations :
    (∀ p q : Polynomial α, Convolved p q (p * q) ∧ Aligned (· + ·) p q (p + q) ∧
      Aligned (· - ·) p q (p - q) ∧ ∀ n, (p.pow n).coeffs.length = n * p.degree + 1) ∧
    ∀ c : Construction α, c.polynomial.coeffs.length = c.degree + 1 := by
  constructor
  · intro p q
    refine ⟨convolved_mul p q, aligned_zipAligned _ p q, aligned_zipAligned _ p q, fun n => ?_⟩
    rw [length_coeffs, degree_pow]
  · intro c
    rw [length_coeffs, c.degree_polynomial]

end Calculator.Polynomial
