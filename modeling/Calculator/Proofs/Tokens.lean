import Calculator.Formula.Parser
import Calculator.Proofs.Arith.Scanning
import Calculator.Proofs.Complex.Scanning
import Calculator.Proofs.Formula.Scanning
import Calculator.Proofs.Text.Tiling

/-!
The tokens of the three grammars. Each reads what is left of an input without its blanks, and the
grammar of formulas what this is with its products written out.
-/

set_option autoImplicit false
set_option relaxedAutoImplicit false

namespace Calculator

/-- Every grammar reads every input without loss. -/
theorem inputs_read (input : String) :
    Arith.lexicon.Reads (Source.strip input) ∧ Complex.lexicon.Reads (Source.strip input) ∧
      Formula.lexicon.Reads (Formula.sourceOf input) :=
  ⟨Lexicon.reads Arith.unambiguous _, Lexicon.reads Complex.unambiguous _,
    Lexicon.reads Formula.unambiguous _⟩

end Calculator
