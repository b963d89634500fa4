import Calculator.Proofs.Session.Exchanges

/-!
The modes share one session, but arithmetic does not notice the others. An expression in arithmetic
depends on the previous result, and only expressions in arithmetic change that; which mode a line is
read in depends on the mode, and only `:mode` changes that, which depends on nothing but the line.
So every other line can be deleted.
-/

set_option autoImplicit false
set_option relaxedAutoImplicit false

namespace Calculator

def Exchange.isArith (exchange : Exchange) : Bool := exchange.topic = .expression .arith

/-- Whether arithmetic depends on a line: on its own expressions, on `:mode`, and on blank lines
as far as these are lines at all. -/
def Exchange.concernsArith (exchange : Exchange) : Bool :=
  exchange.isArith || exchange.topic = .mode || exchange.topic = .blank

theorem Exchange.concernsArith_of_isArith {exchange : Exchange} (h : exchange.isArith) :
    exchange.concernsArith := by
  simp [concernsArith, h]

theorem Exchange.concernsArith_iff {exchange : Exchange} :
    exchange.concernsArith ↔
      exchange.topic = .expression .arith ∨ exchange.topic = .mode ∨ exchange.topic = .blank := by
  simp [concernsArith, isArith, or_assoc]

theorem Topic.ofCommand_eq_mode_iff {name : String} : Topic.ofCommand name = .mode ↔
    name = "mode" := by
  unfold Topic.ofCommand
  split <;> simp_all

theorem Topic.ofCommand_ne_blank (name : String) : Topic.ofCommand name ≠ .blank := by
  unfold Topic.ofCommand
  split <;> exact nofun

theorem Topic.ofCommand_ne_expression (name : String) (mode : Mode) :
    Topic.ofCommand name ≠ .expression mode := by
  unfold Topic.ofCommand
  split <;> exact nofun

namespace Session

/-- Two sessions that arithmetic cannot tell apart. -/
structure SameArith (session other : Session) : Prop where
  mode : other.mode = session.mode
  answer : other.answer = session.answer

variable {session other : Session}

theorem command_mode {text : List Char} (h : commandName text = "mode") :
    session.command text =
      (modeArgument ((Text.words text).drop 1)[0]?).map fun mode =>
        (none, { session with mode }) := by
  rw [commandName] at h
  simp only [command, h]
  cases modeArgument ((Text.words text).drop 1)[0]? <;> rfl

namespace SameArith

theorem refl (session : Session) : session.SameArith session := ⟨rfl, rfl⟩

theorem topic (h : session.SameArith other) (line : String) :
    other.topic line = session.topic line := by
  rw [Session.topic, Session.topic, h.mode]

theorem evaluateArith (h : session.SameArith other) (line : List Char) :
    (other.evaluateArith line).1 = (session.evaluateArith line).1 ∧
      (session.evaluateArith line).2.SameArith (other.evaluateArith line).2 := by
  rw [Session.evaluateArith, Session.evaluateArith, h.answer]
  dsimp only
  split
  · exact ⟨rfl, h⟩
  · split
    · exact ⟨rfl, h.mode, rfl⟩
    · exact ⟨rfl, h⟩

theorem command (h : session.SameArith other) {text : List Char}
    (hname : commandName text = "mode") :
    (other.afterCommand (other.command text)).1 =
        (session.afterCommand (session.command text)).1 ∧
      (session.afterCommand (session.command text)).2.SameArith
        (other.afterCommand (other.command text)).2 := by
  rw [command_mode hname, command_mode hname]
  cases modeArgument ((Text.words text).drop 1)[0]? with
  | error failure => exact ⟨rfl, h⟩
  | ok mode => exact ⟨rfl, rfl, h.answer⟩

/-- A line that arithmetic depends on has the same exchange in both sessions, and arithmetic cannot
tell them apart afterwards. -/
theorem handle (h : session.SameArith other) {line : String}
    (hconcerns : (session.exchange line).concernsArith) :
    other.exchange line = session.exchange line ∧
      (session.handle line).2.SameArith (other.handle line).2 := by
  suffices hreply : (other.handle line).1 = (session.handle line).1 ∧
      (session.handle line).2.SameArith (other.handle line).2 by
    rw [exchange, exchange, h.topic, hreply.1]
    exact ⟨rfl, hreply.2⟩
  have htopic := Exchange.concernsArith_iff.mp hconcerns
  rw [exchange] at htopic
  rcases line_cases line with hblank | ⟨text, hcommand⟩ | ⟨text, hexpression⟩
  · rw [(hblank session).2, (hblank other).2]
    exact ⟨rfl, h⟩
  · rw [(hcommand session).1] at htopic
    rw [(hcommand session).2, (hcommand other).2]
    rcases htopic with hcontra | hmode | hcontra
    · exact absurd hcontra (Topic.ofCommand_ne_expression _ _)
    · exact h.command (Topic.ofCommand_eq_mode_iff.mp hmode)
    · exact absurd hcontra (Topic.ofCommand_ne_blank _)
  · rw [(hexpression session).1] at htopic
    rw [(hexpression session).2, (hexpression other).2]
    have hmode : session.mode = .arith := by simpa using htopic
    rw [evaluate, evaluate, h.mode, hmode]
    exact h.evaluateArith text

theorem of_not_concernsArith (h : session.SameArith other) {line : String}
    (hconcerns : ¬ (session.exchange line).concernsArith) :
    (session.handle line).2.SameArith other := by
  have allowed : (session.topic line).Allows session (session.handle line) :=
    handle_allowed session line
  rw [Exchange.concernsArith_iff, exchange] at hconcerns
  rcases hline : session.handle line with ⟨failure | reply, next⟩
  · rw [hline] at allowed
    cases allowed
    exact h
  · rw [hline] at allowed
    cases htopic : session.topic line with
    | blank => exact absurd (.inr (.inr htopic)) hconcerns
    | mode => exact absurd (.inr (.inl htopic)) hconcerns
    | expression mode =>
      rw [htopic] at allowed
      cases mode with
      | arith => exact absurd (.inl htopic) hconcerns
      | complex => cases allowed; exact h
      | graph => obtain ⟨graph, rfl⟩ := allowed; exact ⟨h.mode, h.answer⟩
    | range axis =>
      rw [htopic] at allowed
      obtain ⟨range, -, rfl⟩ := allowed
      exact ⟨h.mode, h.answer⟩
    | derivative =>
      rw [htopic] at allowed
      obtain ⟨shown, rfl⟩ := allowed
      exact ⟨h.mode, h.answer⟩
    | place => rw [htopic] at allowed; cases allowed; exact h
    | help => rw [htopic] at allowed; cases allowed; exact h
    | unknown => rw [htopic] at allowed; cases allowed

end SameArith

/-- The expressions that a session reads as arithmetic have the same replies, values and failures
alike, as in the session without the expressions of the other modes and without the commands other
than `:mode`. -/
theorem arith_isolated (session : Session) (lines : List String) :
    (session.exchanges (session.keptLines Exchange.concernsArith lines)).filter Exchange.isArith =
      (session.exchanges lines).filter Exchange.isArith := by
  have deletion : session.exchanges (session.keptLines Exchange.concernsArith lines) =
      (session.exchanges lines).filter Exchange.concernsArith :=
    (exchanges_keptLines SameArith (fun h => h.handle) (fun h => h.of_not_concernsArith)
      (.refl session) lines).1
  rw [deletion, List.filter_filter]
  refine List.filter_congr fun exchange _ => ?_
  by_cases harith : exchange.isArith
  · simp [harith, exchange.concernsArith_of_isArith harith]
  · simp [harith]

end Session

end Calculator
