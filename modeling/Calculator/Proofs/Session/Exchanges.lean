import Calculator.Proofs.Session.Effects

/-!
The record of a session: each line with what it was about and the reply to it. Lines can be deleted
from a session without a trace in the record of the others if the sessions with and without them
stay alike in what those others depend on. So it is with the lines that fail and with blank lines,
which leave the session as it was.
-/

set_option autoImplicit false
set_option relaxedAutoImplicit false

namespace Calculator

structure Exchange where
  topic : Topic
  line : String
  reply : Reply
deriving DecidableEq

/-- Whether a line made a difference: it was not blank and did not fail. -/
def Exchange.effective (exchange : Exchange) : Bool :=
  exchange.topic ≠ .blank && exchange.reply.isOk

theorem Exchange.effective_iff {exchange : Exchange} :
    exchange.effective ↔ exchange.topic ≠ .blank ∧ ∃ reply, exchange.reply = .ok reply := by
  rcases exchange with ⟨topic, line, failure | reply⟩ <;>
    simp [effective, Except.isOk, Except.toBool]

def Printed.isOutput : Printed → Bool
  | .output _ => true
  | .error _ => false

namespace Session

def exchange (session : Session) (line : String) : Exchange :=
  ⟨session.topic line, line, (session.handle line).1⟩

def exchanges (session : Session) : List String → List Exchange
  | [] => []
  | line :: rest => session.exchange line :: (session.handle line).2.exchanges rest

def keptLines (keeps : Exchange → Bool) (session : Session) (lines : List String) : List String :=
  ((session.exchanges lines).filter keeps).map Exchange.line

def effectiveLines (session : Session) (lines : List String) : List String :=
  session.keptLines Exchange.effective lines

variable {session reduced : Session} {keeps : Exchange → Bool}

theorem run_cons (session : Session) (line : String) (lines : List String) :
    session.run (line :: lines) =
      ((session.handle line).1.printed ++ ((session.handle line).2.run lines).1,
        ((session.handle line).2.run lines).2) := rfl

theorem keptLines_cons_of_pos {line : String} (h : keeps (session.exchange line))
    (lines : List String) :
    session.keptLines keeps (line :: lines) =
      line :: (session.handle line).2.keptLines keeps lines := by
  rw [keptLines, exchanges, List.filter_cons_of_pos h]
  rfl

theorem keptLines_cons_of_neg {line : String} (h : ¬ keeps (session.exchange line))
    (lines : List String) :
    session.keptLines keeps (line :: lines) = (session.handle line).2.keptLines keeps lines := by
  rw [keptLines, exchanges, List.filter_cons_of_neg h]
  rfl

theorem run_printed (session : Session) (lines : List String) :
    (session.run lines).1 = (session.exchanges lines).flatMap fun exchange =>
      exchange.reply.printed := by
  induction lines generalizing session with
  | nil => rfl
  | cons line rest ih => rw [run_cons, exchanges, List.flatMap_cons, ih]; rfl

/-- Lines are deleted without a trace in the record of the others if a relation between the session
with them and the session without them is such that a deleted line keeps it, and a line that is not
deleted has the same exchange in both and keeps it as well. -/
theorem exchanges_keptLines (Alike : Session → Session → Prop)
    (kept : ∀ {session reduced : Session} {line : String}, Alike session reduced →
      keeps (session.exchange line) → reduced.exchange line = session.exchange line ∧
        Alike (session.handle line).2 (reduced.handle line).2)
    (deleted : ∀ {session reduced : Session} {line : String}, Alike session reduced →
      ¬ keeps (session.exchange line) → Alike (session.handle line).2 reduced)
    (h : Alike session reduced) (lines : List String) :
    reduced.exchanges (session.keptLines keeps lines) = (session.exchanges lines).filter keeps ∧
      Alike (session.run lines).2 (reduced.run (session.keptLines keeps lines)).2 := by
  induction lines generalizing session reduced with
  | nil => exact ⟨rfl, h⟩
  | cons line rest ih =>
    rw [run_cons, exchanges]
    by_cases hkeeps : keeps (session.exchange line)
    · obtain ⟨hexchange, hnext⟩ := kept h hkeeps
      rw [keptLines_cons_of_pos hkeeps, List.filter_cons_of_pos hkeeps, exchanges, run_cons,
        hexchange]
      exact ⟨congrArg _ (ih hnext).1, (ih hnext).2⟩
    · rw [keptLines_cons_of_neg hkeeps, List.filter_cons_of_neg hkeeps]
      exact ih (deleted h hkeeps)

theorem not_effective {line : String} (h : ¬ (session.exchange line).effective) :
    (session.handle line).2 = session ∧
      (session.exchange line).reply.printed.filter Printed.isOutput = [] := by
  have allowed : (session.topic line).Allows session (session.handle line) :=
    handle_allowed session line
  rw [Exchange.effective_iff, exchange] at h
  rw [exchange]
  rcases hline : session.handle line with ⟨failure | reply, next⟩
  · rw [hline] at allowed
    exact ⟨allowed, rfl⟩
  · rw [hline] at allowed h
    have hblank : session.topic line = .blank :=
      Decidable.byContradiction fun hne => h ⟨hne, reply, rfl⟩
    rw [hblank] at allowed
    obtain ⟨rfl, hnext⟩ := allowed
    exact ⟨hnext, rfl⟩

theorem filter_printed_of_effective {exchange : Exchange} (h : exchange.effective) :
    exchange.reply.printed.filter Printed.isOutput = exchange.reply.printed := by
  obtain ⟨-, reply, hreply⟩ := Exchange.effective_iff.mp h
  rw [hreply]
  cases reply <;> rfl

theorem run_filter_isOutput (session : Session) (lines : List String) :
    (session.run lines).1.filter Printed.isOutput =
      ((session.exchanges lines).filter Exchange.effective).flatMap fun exchange =>
        exchange.reply.printed := by
  induction lines generalizing session with
  | nil => rfl
  | cons line rest ih =>
    rw [run_cons, exchanges, List.filter_append, ih]
    by_cases heffective : (session.exchange line).effective
    · rw [List.filter_cons_of_pos heffective, List.flatMap_cons]
      exact congrArg (· ++ _) (filter_printed_of_effective heffective)
    · rw [List.filter_cons_of_neg heffective]
      exact congrArg (· ++ _) (not_effective heffective).2

/-- A line that fails changes nothing, and one that succeeds changes nothing but what it is about,
also when what is changed is assigned piece by piece. So the lines that fail and the blank ones can
be deleted from a session: the others have the same replies, everything that is put out besides
errors is put out as before, and the session ends in the same state. -/
theorem handle_allows_and_deletes (session : Session) :
    (∀ line, Handling.runFrom session (Handling.line line) = session.handle line ∧
      (session.topic line).Allows session (session.handle line)) ∧
    ∀ lines,
      session.exchanges (session.effectiveLines lines) =
        (session.exchanges lines).filter Exchange.effective ∧
      session.run (session.effectiveLines lines) =
        ((session.run lines).1.filter Printed.isOutput, (session.run lines).2) := by
  refine ⟨fun line => ⟨Handling.runFrom_line session line, handle_allowed session line⟩,
    fun lines => ?_⟩
  have deletion : session.exchanges (session.effectiveLines lines) =
        (session.exchanges lines).filter Exchange.effective ∧
      (session.run lines).2 = (session.run (session.effectiveLines lines)).2 := by
    refine exchanges_keptLines Eq ?_ ?_ rfl lines
    · rintro session _ line rfl -
      exact ⟨rfl, rfl⟩
    · rintro session _ line rfl hineffective
      exact (not_effective hineffective).1
  refine ⟨deletion.1, Prod.ext ?_ deletion.2.symm⟩
  rw [run_printed, deletion.1, run_filter_isOutput]

end Session

end Calculator
