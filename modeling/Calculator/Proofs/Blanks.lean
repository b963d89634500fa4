import Calculator.Proofs.Arith.Placement
import Calculator.Proofs.Complex.Placement
import Calculator.Proofs.Formula.Placement
import Calculator.Proofs.Formula.Products
import Calculator.Proofs.Text.Stripping

/-!
Blank characters mean nothing. Wherever they stand, also inside a number or a name, each of the
three grammars makes the same of an input, at the same of its other characters.
-/

set_option autoImplicit false
set_option relaxedAutoImplicit false

namespace Calculator

/-- Two inputs with the same characters other than blanks are the same expression, number or
function, or the same error, at regions that contain the same of these characters. -/
theorem parse_same_of_filter_eq {input₁ input₂ : String}
    (h : input₁.toList.filter (fun c => !Text.isBlank c) =
      input₂.toList.filter fun c => !Text.isBlank c) :
    let same := Source.SameRun (Source.strip input₁) (Source.strip input₂)
    SameOutcome same (Arith.Expr.Alike same) (Arith.parse input₁) (Arith.parse input₂) ∧
      SameOutcome same Eq (Complex.parse input₁) (Complex.parse input₂) ∧
      ∀ maxPower, SameOutcome same Eq (RealFunction.parse maxPower input₁)
        (RealFunction.parse maxPower input₂) := by
  intro same
  have chars : (Source.strip input₁).chars = (Source.strip input₂).chars := by
    rw [Source.chars_strip, Source.chars_strip, h]
  have alike := Source.alike_of_chars_eq chars
  have region (x y : Span) : (Source.places _ _).Region x y → same x y :=
    Source.sameRun_of_region (Source.strip_ordered input₁) (Source.strip_ordered input₂)
  refine ⟨?_, ?_, fun maxPower => ?_⟩
  · exact (Arith.ofSource_alike alike).mono region fun e e' he =>
      he.mono fun x y hrun => region x y (.run hrun)
  · exact (Complex.ofSource_alike alike).mono region fun _ _ => id
  · have formulas : SameOutcome same Eq (Formula.parse input₁) (Formula.parse input₂) := by
      rw [Formula.parse, Formula.parse, Formula.sourceOf, Formula.sourceOf,
        Formula.outcome_ofSource_withProducts, Formula.outcome_ofSource_withProducts]
      exact (Formula.ofSource_alike alike).mono region fun _ _ => id
    exact formulas.map _

theorem parse_same_of_blanks_in_quotient :
    let same := Source.SameRun (Source.strip "1 2 / 0") (Source.strip "12/0 ")
    SameOutcome same (Arith.Expr.Alike same) (Arith.parse "1 2 / 0") (Arith.parse "12/0 ") ∧
      SameOutcome same Eq (Complex.parse "1 2 / 0") (Complex.parse "12/0 ") ∧
      ∀ maxPower, SameOutcome same Eq (RealFunction.parse maxPower "1 2 / 0")
        (RealFunction.parse maxPower "12/0 ") :=
  parse_same_of_filter_eq (by decide +kernel)

end Calculator
