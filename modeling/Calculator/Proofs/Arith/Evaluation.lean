import Calculator.Proofs.Arith.Nodes
import Calculator.Proofs.Number.Exact

/-!
Evaluation against a walk that never fails. The walk carries out every division, by zero too, and
goes on with the infinity or the NaN that comes of it. Evaluation stops at the first division, in
the order of the walk, whose divisor the walk finds to be zero. Up to there both have computed the
same, so what the walk makes of the divisors behind a failing division decides nothing.
-/

set_option autoImplicit false
set_option relaxedAutoImplicit false

namespace Calculator

theorem Operator.checked?_eq (op : Operator) (a b : Float) :
    op.checked? a b = if op = .div ∧ (b = 0 ∨ b = -0) then none else some (op.apply a b) := by
  have hzero : (b == 0) = true ↔ b = 0 ∨ b = -0 :=
    Binary64.isZero_iff.symm.trans Binary64.isZero_iff_eq
  simp only [checked?, Bool.and_eq_true, decide_eq_true_eq, hzero]

namespace Arith.Expr

/-- The value of an expression if every division is carried out. -/
def unchecked : Expr → Float
  | .literal value _ => value
  | .binary op _ lhs rhs _ => op.apply lhs.unchecked rhs.unchecked
  | .call f arg _ => Elementary.call f arg.unchecked

/-- An expression and all of its parts in the order of evaluation: the operands of an operation, the
left one first, and then the operation. -/
def postorder : Expr → List Expr
  | .literal value span => [.literal value span]
  | .binary op opSpan lhs rhs span =>
    lhs.postorder ++ (rhs.postorder ++ [.binary op opSpan lhs rhs span])
  | .call f arg span => arg.postorder ++ [.call f arg span]

/-- The spans of the operator and the divisor, for a division by a zero of either sign. -/
def zeroDivision? : Expr → Option (Span × Span)
  | .binary .div opSpan _ rhs _ =>
    if rhs.unchecked = 0 ∨ rhs.unchecked = -0 then some (opSpan, rhs.span) else none
  | _ => none

variable {e n : Expr}

theorem mem_postorder : n ∈ e.postorder ↔ n ∈ e.nodes := by
  induction e with
  | literal value span => rfl
  | binary op opSpan lhs rhs span ihl ihr =>
    simp only [postorder, nodes, List.mem_append, List.mem_cons, List.not_mem_nil, or_false, ihl,
      ihr]
    rw [← or_assoc, or_comm]
  | call f arg span ih =>
    simp only [postorder, nodes, List.mem_append, List.mem_cons, List.not_mem_nil, or_false, ih]
    exact or_comm

theorem checked_outcome (op : Operator) (opSpan : Span) (lhs rhs : Expr) (span : Span) :
    (match op.checked? lhs.unchecked rhs.unchecked with
      | some value => .ok value
      | none => .error (.two opSpan rhs.span .divisionByZero) : Except Diagnostic Float) =
      match (binary op opSpan lhs rhs span).zeroDivision? with
      | none => .ok (binary op opSpan lhs rhs span).unchecked
      | some (operator, divisor) => .error (.two operator divisor .divisionByZero) := by
  rw [Operator.checked?_eq]
  by_cases hop : op = .div
  · subst hop
    by_cases hzero : rhs.unchecked = 0 ∨ rhs.unchecked = -0
    · simp [zeroDivision?, hzero]
    · simp [zeroDivision?, hzero, unchecked]
  · have hnone : (binary op opSpan lhs rhs span).zeroDivision? = none := by
      cases op with
      | div => exact absurd rfl hop
      | _ => rfl
    simp [hnone, hop, unchecked]

theorem eval_eq (e : Expr) :
    e.eval = match e.postorder.findSome? zeroDivision? with
      | none => .ok e.unchecked
      | some (operator, divisor) => .error (.two operator divisor .divisionByZero) := by
  induction e with
  | literal value span => rfl
  | binary op opSpan lhs rhs span ihl ihr =>
    rw [eval, ihl, ihr, postorder, List.findSome?_append, List.findSome?_append,
      List.findSome?_singleton]
    cases lhs.postorder.findSome? zeroDivision? with
    | some failing => rfl
    | none =>
      cases rhs.postorder.findSome? zeroDivision? with
      | some failing => rfl
      | none => exact checked_outcome op opSpan lhs rhs span
  | call f arg span ih =>
    rw [eval, ih, postorder, List.findSome?_append, List.findSome?_singleton]
    cases arg.postorder.findSome? zeroDivision? with
    | some failing => rfl
    | none => rfl

/-- An expression has a value exactly if none of its divisions has a divisor that is zero without
any checks. The value is then the unchecked one; otherwise the error is about the first of these
divisions in the order of evaluation, its operator and its divisor. -/
theorem eval_first_zero_division (e : Expr) :
    ((∃ v, e.eval = .ok v) ↔ ∀ n ∈ e.nodes, n.zeroDivision? = none) ∧
      e.eval = match e.postorder.findSome? zeroDivision? with
        | none => .ok e.unchecked
        | some (operator, divisor) => .error (.two operator divisor .divisionByZero) := by
  refine ⟨?_, eval_eq e⟩
  have hnone : (∀ n ∈ e.nodes, n.zeroDivision? = none) ↔
      e.postorder.findSome? zeroDivision? = none := by
    simp only [List.findSome?_eq_none_iff, mem_postorder]
  rw [hnone, eval_eq]
  cases e.postorder.findSome? zeroDivision? with
  | none => simp
  | some failing => simp

end Arith.Expr

end Calculator
