import Calculator.Complex.Token
import Calculator.Proofs.Text.Matching

/-!
The lexicon of complex arithmetic is a table of words.
-/

set_option autoImplicit false
set_option relaxedAutoImplicit false

namespace Calculator.Complex

theorem isTable : lexicon.IsTable .number where
  entries_eq := rfl
  ne_nil := by decide
  head := by decide

theorem unambiguous : lexicon.Unambiguous := isTable.unambiguous (by decide)

end Calculator.Complex
