import Calculator.Proofs.Arith.Brackets
import Calculator.Proofs.Complex.Brackets
import Calculator.Proofs.Formula.Brackets

/-!
Unclosed delimiters in the three grammars. Arithmetic counts parentheses and keeps them on a stack,
the other grammars keep them in the calls of their readers; all agree with one way to pair the
brackets of an input, and report none that has a partner.
-/

set_option autoImplicit false
set_option relaxedAutoImplicit false

namespace Calculator

open BracketAt (Balanced inText unpaired)

/-- An error about an unclosed delimiter is about one bracket without a partner and says on which
side it is; a text with properly matched brackets has no such error. -/
structure ReportsUnpaired {α : Type} (brackets : List BracketAt) (x : Except Diagnostic α) :
    Prop where
  partnerless : ∀ delimiter opening spans, x = .error ⟨.unclosed delimiter opening, spans⟩ →
    ∃ span, spans = [span] ∧ ⟨delimiter, opening, span⟩ ∈ unpaired brackets
  matched : Balanced brackets →
    ∀ delimiter opening spans, x ≠ .error ⟨.unclosed delimiter opening, spans⟩

theorem UnclosedAmong.reportsUnpaired {α : Type} {brackets : List BracketAt}
    {x : Except Diagnostic α} (h : UnclosedAmong (unpaired brackets) x) :
    ReportsUnpaired brackets x := by
  refine ⟨h, fun balanced delimiter opening spans hx => ?_⟩
  obtain ⟨span, -, hmem⟩ := h delimiter opening spans hx
  rw [balanced.unpaired] at hmem
  cases hmem

/-- Every grammar reports a delimiter as unclosed only if it has no partner among the delimiters of
the input. Braces are delimiters in the grammar of formulas only. -/
theorem parse_reportsUnpaired (input : String) (maxPower : Nat) :
    ReportsUnpaired (inText [.parenthesis] (Source.strip input).glyphs) (Arith.parse input) ∧
      ReportsUnpaired (inText [.parenthesis] (Source.strip input).glyphs) (Complex.parse input) ∧
      ReportsUnpaired (inText [.parenthesis, .brace] (Source.strip input).glyphs)
        (RealFunction.parse maxPower input) := by
  refine ⟨(Arith.ofSource_unclosed _).reportsUnpaired,
    (Complex.ofSource_unclosed _).reportsUnpaired,
    UnclosedAmong.reportsUnpaired ?_⟩
  rw [← Source.inText_withProducts]
  exact (Formula.outcome_ofSource_unclosed (Formula.sourceOf input)).map

theorem parse_reportsUnpaired_of_open_call :
    Arith.parse "ln((2)" = .error (.one ⟨2, 3⟩ (.unclosed .parenthesis true)) ∧
      ⟨.parenthesis, true, ⟨2, 3⟩⟩ ∈
        unpaired (inText [.parenthesis] (Source.strip "ln((2)").glyphs) := by
  have herror : Arith.parse "ln((2)" = .error (.one ⟨2, 3⟩ (.unclosed .parenthesis true)) := by
    decide +kernel
  obtain ⟨span, hspan, hmem⟩ :=
    (parse_reportsUnpaired "ln((2)" 0).1.partnerless .parenthesis true _ herror
  obtain rfl : ⟨2, 3⟩ = span := List.singleton_inj.mp hspan
  exact ⟨herror, hmem⟩

end Calculator
