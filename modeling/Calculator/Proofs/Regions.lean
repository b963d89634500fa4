import Calculator.Proofs.Arith.Regions
import Calculator.Proofs.Complex.Regions
import Calculator.Proofs.Formula.Regions

/-!
What an error points at. Whatever the input, and whichever grammar it is read with, a report has a
region for each of its labels, and cutting the input at the ends of a region leaves its characters
whole.
-/

set_option autoImplicit false
set_option relaxedAutoImplicit false

namespace Calculator

/-- The errors of an input: it is no expression, no complex number or no function, or it is an
expression without a value. -/
inductive Fails (input : String) (d : Diagnostic) : Prop
  | arith (h : Arith.parse input = .error d)
  | value {e : Arith.Expr} (parsed : Arith.parse input = .ok e) (h : e.eval = .error d)
  | complex (h : Complex.parse input = .error d)
  | function (maxPower : Nat) (h : RealFunction.parse maxPower input = .error d)

theorem Fails.placed {input : String} {d : Diagnostic} (h : Fails input d) :
    d.Placed (Boundary input) input.utf8ByteSize := by
  cases h with
  | arith h => exact (h ▸ Arith.parse_located input).placed
  | @value e parsed h =>
    have hparse := Arith.parse_located input
    rw [parsed] at hparse
    cases hparse with
    | ok hparts => exact (h ▸ Arith.Expr.eval_located hparts).placed
  | complex h => exact (h ▸ Complex.parse_located input).placed
  | function maxPower h =>
    have hparse := Formula.parse_located input
    rw [RealFunction.parse] at h
    cases hf : Formula.parse input with
    | ok f =>
      rw [hf] at h
      cases h
    | error d' =>
      rw [hf] at h hparse
      cases h
      exact hparse.placed

/-- An error has as many regions as its cause has labels, so that its report shows all of them. Each
region ends where it starts or later, within the input, and between characters of it; the regions
stand one after another. -/
theorem error_regions {input : String} {d : Diagnostic} (h : Fails input d) :
    d.spans.length = d.cause.labels.length ∧ d.report.labels = d.cause.labels ∧
      (∀ span ∈ d.spans, span.start ≤ span.stop ∧ span.stop ≤ input.utf8ByteSize ∧
        String.Pos.Raw.IsValid input ⟨span.start⟩ ∧ String.Pos.Raw.IsValid input ⟨span.stop⟩) ∧
      d.spans.Pairwise fun a b => a.stop ≤ b.start := by
  have placed := h.placed
  have labels : d.report.labels = d.cause.labels := by
    rw [Diagnostic.report, placed.labels, List.take_length]
  refine ⟨placed.labels, labels, fun span hspan => ?_, placed.regions.sorted⟩
  have fits := placed.regions.fits span hspan
  exact ⟨fits.proper, fits.within, fits.start, fits.stop⟩

theorem error_regions_of_quotient :
    let input := "8 /\u00a00"
    let d := Diagnostic.two ⟨2, 3⟩ ⟨5, 6⟩ .divisionByZero
    Fails input d ∧ d.spans.length = d.cause.labels.length ∧ d.report.labels = d.cause.labels ∧
      (∀ span ∈ d.spans, span.start ≤ span.stop ∧ span.stop ≤ input.utf8ByteSize ∧
        String.Pos.Raw.IsValid input ⟨span.start⟩ ∧ String.Pos.Raw.IsValid input ⟨span.stop⟩) ∧
      d.spans.Pairwise fun a b => a.stop ≤ b.start := by
  intro input d
  have parsed : Arith.parse input =
      .ok (.binary .div ⟨2, 3⟩ (.literal 8 ⟨0, 1⟩) (.literal 0 ⟨5, 6⟩) ⟨0, 6⟩) := by
    decide +kernel
  have fails : Fails input d := .value parsed rfl
  exact ⟨fails, error_regions fails⟩

end Calculator
