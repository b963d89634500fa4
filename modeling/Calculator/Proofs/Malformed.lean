import Calculator.Proofs.Arith.Malformed
import Calculator.Proofs.Complex.Malformed
import Calculator.Proofs.Formula.Malformed

/-!
Malformed numbers in the three grammars. If an input would be accepted with `1` in place of every
malformed number, then it is refused because of the first of these numbers. Arithmetic and formulas
point at the number itself; complex arithmetic chooses the error by the token that the factor starts
with, so that it points at the sign of the number if there is one.
-/

set_option autoImplicit false
set_option relaxedAutoImplicit false

namespace Calculator

/-- An input with malformed numbers that is accepted with `1` in place of each of them is refused
with an error about the first one, which depends on it and on the tokens before it. -/
def ReportsMalformed {κ α : Type} [DecidableEq κ] (number : κ) (tokens : List (Token κ))
    (report : List (Token κ) → Token κ → Diagnostic) (parse : String → Except Diagnostic α)
    (input : String) : Prop :=
  ∀ front bad, FirstMalformed number tokens front bad →
    ∀ a, parse (Source.withOnes (Tokens.malformed number tokens) input) = .ok a →
      parse input = .error (report front bad)

/-- Every grammar reports the first malformed number of an input that is fine otherwise, but complex
arithmetic reports the sign of a literal with such a number. -/
theorem reportsMalformed (input : String) (maxPower : Nat) :
    ReportsMalformed .number (Arith.lexicon.scan (Source.strip input))
        (fun _ bad => .one bad.span (.invalidNumber bad.text)) Arith.parse input ∧
      ReportsMalformed .number (Complex.lexicon.scan (Source.strip input)) Complex.malformedAfter
        Complex.parse input ∧
      ReportsMalformed .number (Formula.lexicon.scan (Formula.sourceOf input))
        (fun _ bad => .one bad.span (.invalidNumber bad.text)) (RealFunction.parse maxPower)
        input := by
  refine ⟨fun front bad hfirst e accepted => Arith.parse_malformed hfirst accepted,
    fun front bad hfirst z accepted => Complex.parse_malformed hfirst accepted,
    fun front bad hfirst f accepted => ?_⟩
  obtain ⟨formula, hformula, -⟩ := map_eq_ok_iff.mp accepted
  rw [RealFunction.parse, Formula.parse_malformed hfirst hformula]
  rfl

theorem reportsMalformed_of_group :
    Arith.parse "(1.2.3)" = .error (.one ⟨1, 6⟩ (.invalidNumber "1.2.3")) ∧
      Complex.parse "(1.2.3)" = .error (.one ⟨1, 6⟩ (.invalidNumber "1.2.3")) ∧
      RealFunction.parse 8 "(1.2.3)" = .error (.one ⟨1, 6⟩ (.invalidNumber "1.2.3")) := by
  obtain ⟨arith, complex, function⟩ := reportsMalformed "(1.2.3)" 8
  refine ⟨arith [⟨.opening, ['('], ⟨0, 1⟩⟩] ⟨.number, "1.2.3".toList, ⟨1, 6⟩⟩
      ⟨⟨[⟨.closing, [')'], ⟨6, 7⟩⟩], by decide +kernel⟩, by decide +kernel, by decide +kernel⟩
      (.literal 1 ⟨1, 2⟩) (by decide +kernel),
    complex [⟨.opening, ['('], ⟨0, 1⟩⟩] ⟨.number, "1.2.3".toList, ⟨1, 6⟩⟩
      ⟨⟨[⟨.closing, [')'], ⟨6, 7⟩⟩], by decide +kernel⟩, by decide +kernel, by decide +kernel⟩
      (.real 1) ?_,
    function [⟨.opening .parenthesis, ['('], ⟨0, 1⟩⟩] ⟨.number, "1.2.3".toList, ⟨1, 6⟩⟩
      ⟨⟨[⟨.closing .parenthesis, [')'], ⟨6, 7⟩⟩], by decide +kernel⟩, by decide +kernel,
        by decide +kernel⟩
      ((Formula.number 1).compile 8) ?_⟩
  · have htokens : Complex.tokensOf (Source.withOnes (Tokens.malformed .number
        (Complex.lexicon.scan (Source.strip "(1.2.3)"))) "(1.2.3)") =
        ⟨.opening, ['('], ⟨0, 1⟩⟩ :: (([] ++ [⟨.number, ['1'], ⟨1, 2⟩⟩]) ++
          [⟨.closing, [')'], ⟨2, 3⟩⟩]) := by
      decide +kernel
    refine Complex.parse_of_derives (e := .real none 1) ?_ (by decide +kernel)
    rw [htokens]
    exact .term (.factor (.group rfl rfl (.term (.factor (.real .none rfl (by decide +kernel))))))
  · have htokens : Formula.lexicon.scan (Formula.sourceOf (Source.withOnes (Tokens.malformed .number
        (Formula.lexicon.scan (Formula.sourceOf "(1.2.3)"))) "(1.2.3)")) =
        ⟨.opening .parenthesis, ['('], ⟨0, 1⟩⟩ :: ([⟨.number, ['1'], ⟨1, 2⟩⟩] ++
          [⟨.closing .parenthesis, [')'], ⟨2, 3⟩⟩]) := by
      decide +kernel
    have one : Formula.Derives .tree .primary [⟨.number, ['1'], ⟨1, 2⟩⟩] (.number 1) :=
      .number rfl (by decide +kernel)
    refine map_eq_ok_iff.mpr ⟨.number 1, Formula.parse_eq_ok_iff.mpr ?_, rfl⟩
    rw [htokens]
    exact .term (.unary (.power (.primary
      (.group rfl rfl (.term (.unary (.power (.primary one))))))))

/-- Complex arithmetic does not report the number of `-1.2.3`, although `-1` is fine: the error is
about the sign. -/
theorem complex_sign_reported :
    Complex.parse "-1.2.3" = .error (.one ⟨0, 1⟩ (.unexpectedToken .complexFactor "-")) ∧
      ¬ReportsMalformed .number (Complex.lexicon.scan (Source.strip "-1.2.3"))
        (fun _ bad => .one bad.span (.invalidNumber bad.text)) Complex.parse "-1.2.3" := by
  let sign : Token Complex.Kind := ⟨.operator .sub, ['-'], ⟨0, 1⟩⟩
  let bad : Token Complex.Kind := ⟨.number, "1.2.3".toList, ⟨1, 6⟩⟩
  have hfirst : FirstMalformed .number (Complex.tokensOf "-1.2.3") [sign] bad :=
    ⟨⟨[], by decide +kernel⟩, by decide +kernel, by decide +kernel⟩
  have accepted : Complex.parse (Source.withOnes
      (Tokens.malformed .number (Complex.tokensOf "-1.2.3")) "-1.2.3") = .ok (.real (-1)) := by
    have htokens : Complex.tokensOf (Source.withOnes
        (Tokens.malformed .number (Complex.tokensOf "-1.2.3")) "-1.2.3") =
        [sign] ++ [⟨.number, ['1'], ⟨1, 2⟩⟩] := by
      decide +kernel
    refine Complex.parse_of_derives (e := .real (some .minus) 1) ?_ (by decide +kernel)
    rw [htokens]
    exact .term (.factor (.real (.some .minus rfl) rfl (by decide +kernel)))
  have herror : Complex.parse "-1.2.3" =
      .error (.one ⟨0, 1⟩ (.unexpectedToken .complexFactor "-")) :=
    (Complex.parse_malformed hfirst accepted).trans (by decide +kernel)
  refine ⟨herror, fun h => ?_⟩
  have hnumber := h [sign] bad hfirst _ accepted
  rw [herror] at hnumber
  exact absurd hnumber (by decide +kernel)

end Calculator
