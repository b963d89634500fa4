import Calculator.Proofs.Arith.Printing
import Calculator.Proofs.Number.Exact
import Calculator.Proofs.Session.Consistency
import Calculator.Proofs.Session.Keys

/-!
The previous result is recalled by its name. Its literal is read as the number itself or, since
arithmetic has no sign, as a subtraction from zero, which is exact; a negative zero alone comes back
as the other zero, which equals it. A session remembers finite results only, so none of them is
written as a word that arithmetic cannot read.
-/

set_option autoImplicit false
set_option relaxedAutoImplicit false

namespace Calculator

namespace Keypad

open Arith (Expr)

def literalExpr (value : Number.Signed) : Expr :=
  let place := Span.point 0
  let magnitude : Expr := .literal value.magnitude place
  if value.negative then .binary .sub place (.literal 0 place) magnitude place else magnitude

theorem chars_strip_literal (value : Number.Signed) :
    (Source.strip (literal value)).chars = (Source.strip (literalExpr value).render).chars := by
  obtain ⟨negative, magnitude⟩ := value
  cases negative with
  | false => rfl
  | true =>
    have hopen : (Source.strip "(0-").chars = ['(', '0', '-'] := by decide +kernel
    have hparen : (Source.strip "(").chars = ['('] := rfl
    have hspace : (Source.strip " ").chars = [] := rfl
    have hzero : (Source.strip (Number.plain 0)).chars = ['0'] := by decide +kernel
    simp only [literal, literalExpr, Expr.render, if_true, Source.chars_strip_append, hopen, hparen,
      hspace, hzero]
    rfl

variable {v : Float}

theorem magnitude_ofFloat (h : v.isFinite = true) :
    (Number.Signed.ofFloat v).magnitude.isFinite = true ∧
      Binary64.isNegative (Number.Signed.ofFloat v).magnitude = false := by
  rw [Number.Signed.ofFloat]
  cases hsign : Binary64.isNegative v with
  | false => exact ⟨h, hsign⟩
  | true =>
    refine ⟨Binary64.isFinite_neg h, ?_⟩
    rw [if_pos rfl, Binary64.isNegative_neg h, hsign]
    rfl

theorem eval_literalExpr (h : v.isFinite = true) :
    ∃ w, (literalExpr (.ofFloat v)).eval = .ok w ∧ (w == v) = true := by
  rw [Number.Signed.ofFloat]
  cases Binary64.isNegative v with
  | false => exact ⟨v, rfl, Binary64.beq_self_of_isFinite h⟩
  | true =>
    refine ⟨0 - -v, rfl, Binary64.beq_sub_of_isZero Binary64.isZero_zero ?_⟩
    rw [Binary64.neg_neg_of_isFinite h]
    exact Binary64.beq_self_of_isFinite h

/-- The literal of a finite number is read, and its value equals the number. -/
theorem eval_parse_literal (h : v.isFinite = true) :
    ∃ e w, Arith.parse (literal (.ofFloat v)) = .ok e ∧ e.eval = .ok w ∧ (w == v) = true := by
  obtain ⟨finite, unsigned⟩ := magnitude_ofFloat h
  have hzero : (0 : Float).isFinite = true ∧ Binary64.isNegative 0 = false := by decide +kernel
  have hliterals : ∀ x ∈ (literalExpr (.ofFloat v)).literals,
      x = 0 ∨ x = (Number.Signed.ofFloat v).magnitude := by
    rw [literalExpr]
    split <;> simp [Expr.literals]
  obtain ⟨e₁, derived, same₁⟩ := (literalExpr (.ofFloat v)).derives_render
    (fun x hx => (hliterals x hx).elim (fun h => h ▸ hzero.1) fun h => h ▸ finite)
    fun x hx => (hliterals x hx).elim (fun h => h ▸ hzero.2) fun h => h ▸ unsigned
  rw [← chars_strip_literal] at derived
  obtain ⟨e₂, hparse, same₂⟩ := (derived.loosen (Nat.zero_le _)).parse
  obtain ⟨w, hvalue, hequal⟩ := eval_literalExpr h
  obtain ⟨w', hw', hread⟩ | ⟨_, _, herror, -⟩ := (same₁.trans same₂).value
  · cases hw'.symm.trans hvalue
    exact ⟨e₂, w, hparse, hread, hequal⟩
  · cases herror.symm.trans hvalue

end Keypad

namespace Session

variable {session : Session}

theorem evaluateArith_eq_ok {line : List Char} {e : Arith.Expr} {value : Float}
    (parse : Arith.parse (String.ofList (Keypad.assemble line (session.answer.map .ofFloat))) =
      .ok e)
    (eval : e.eval = .ok value) (finite : value.isFinite = true) :
    session.evaluateArith line =
      (.ok (some (Number.plain value)), { session with answer := some value }) := by
  have hread : Arith.parse (String.ofList (Keypad.assemble line (session.answer.map .ofFloat))) >>=
      Arith.Expr.eval = .ok value := bind_eq_ok_iff.mpr ⟨e, parse, eval⟩
  rw [evaluateArith, hread]
  simp only [finite, if_true]

theorem assemble_answerName (value : Number.Signed) :
    String.ofList (Keypad.assemble Keypad.answerName (some value)) = Keypad.literal value := by
  have happend := Keypad.write_answer (Keypad.literal (.ofFloat Keypad.circle)).toList
    (Keypad.literal value).toList []
  have hnil (circle answer : List Char) : Keypad.write circle answer [] = [] := rfl
  rw [hnil, List.append_nil] at happend
  exact (congrArg String.ofList happend).trans String.ofList_toList

theorem handle_answerName {v : Float} (mode : session.mode = .arith)
    (answer : session.answer = some v) (finite : v.isFinite = true) :
    ∃ w, session.handle "ans" =
        (.ok (some (Number.plain w)), { session with answer := some w }) ∧ (w == v) = true := by
  obtain ⟨e, w, hparse, hvalue, hequal⟩ := Keypad.eval_parse_literal finite
  refine ⟨w, ?_, hequal⟩
  have htrim : Text.trim "ans".toList = 'a' :: ['n', 's'] := by decide +kernel
  rw [← assemble_answerName] at hparse
  have harith : session.evaluate Keypad.answerName = session.evaluateArith Keypad.answerName := by
    rw [evaluate, mode]
  refine (handle_expression htrim (by decide)).trans (harith.trans ?_)
  refine evaluateArith_eq_ok ?_ hvalue (Binary64.isFinite_of_beq finite hequal)
  rw [answer]
  exact hparse

/-- The literal of every finite number is read as a number that equals it. The previous result of a
session that lines lead to is therefore recalled by its name: the line is accepted, and the result
it leaves equals the one before. -/
theorem answer_recalled :
    (∀ v : Float, v.isFinite = true → ∃ e w,
      Arith.parse (Keypad.literal (.ofFloat v)) = .ok e ∧ e.eval = .ok w ∧ (w == v) = true) ∧
    ∀ (lines : List String) (v : Float),
      (initial.run lines).2.mode = .arith → (initial.run lines).2.answer = some v →
      ∃ w, (initial.run lines).2.handle "ans" =
          (.ok (some (Number.plain w)), { (initial.run lines).2 with answer := some w }) ∧
        (w == v) = true := by
  refine ⟨fun v => Keypad.eval_parse_literal, fun lines v mode answer => ?_⟩
  have consistent : (initial.run lines).2.Consistent := initial_consistent.run lines
  exact handle_answerName mode answer (consistent.answer v answer)

theorem answer_recalled_of_negative_zero :
    (∃ e w, Arith.parse "(0-0)" = .ok e ∧ e.eval = .ok w ∧ (w == -0) = true) ∧
      (initial.run ["0*(0-1)"]).2.answer = some (-0) ∧
      ∃ w, (initial.run ["0*(0-1)"]).2.handle "ans" =
          (.ok (some (Number.plain w)), { (initial.run ["0*(0-1)"]).2 with answer := some w }) ∧
        (w == -0) = true := by
  have hliteral : Keypad.literal (.ofFloat (-0)) = "(0-0)" := by decide +kernel
  have hmode : (initial.run ["0*(0-1)"]).2.mode = .arith := by decide +kernel
  have hanswer : (initial.run ["0*(0-1)"]).2.answer = some (-0) := by decide +kernel
  refine ⟨?_, hanswer, answer_recalled.2 _ _ hmode hanswer⟩
  rw [← hliteral]
  exact answer_recalled.1 (-0) (by decide +kernel)

end Session

end Calculator
