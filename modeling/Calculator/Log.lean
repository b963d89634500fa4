/-!
What an operation reports while it works. `Traced` is a computation that may fail and leaves a
trace either way; its outcome does not depend on the trace. A log is a list of entries made from
such a trace.
-/

set_option autoImplicit false
set_option relaxedAutoImplicit false

namespace Calculator

/-- A result or an error, with the trace of what was done to reach it. -/
structure Traced (τ ε α : Type) where
  trace : List τ
  outcome : Except ε α

namespace Traced

variable {τ ε α β γ : Type}

def andThen (x : Traced τ ε α) (next : α → Traced τ ε β) : Traced τ ε β :=
  match x.outcome with
  | .ok a =>
    let y := next a
    ⟨x.trace ++ y.trace, y.outcome⟩
  | .error e => ⟨x.trace, .error e⟩

instance : Monad (Traced τ ε) where
  pure a := ⟨[], .ok a⟩
  bind := andThen

def fail (e : ε) : Traced τ ε α := ⟨[], .error e⟩

def emit (item : τ) : Traced τ ε Unit := ⟨[item], .ok ()⟩

@[simp] theorem outcome_pure (a : α) : (pure a : Traced τ ε α).outcome = .ok a := rfl

@[simp] theorem outcome_fail (e : ε) : (fail e : Traced τ ε α).outcome = .error e := rfl

@[simp] theorem outcome_emit (item : τ) : (emit item : Traced τ ε Unit).outcome = .ok () := rfl

@[simp] theorem outcome_bind (x : Traced τ ε α) (next : α → Traced τ ε β) :
    (x >>= next).outcome = x.outcome >>= fun a => (next a).outcome := by
  cases x with
  | mk trace outcome => cases outcome <;> rfl

theorem andThen_pure (x : Traced τ ε α) : x.andThen pure = x := by
  rcases x with ⟨trace, _ | a⟩ <;> simp [andThen, pure]

theorem pure_andThen (a : α) (next : α → Traced τ ε β) :
    (pure a : Traced τ ε α).andThen next = next a := by
  simp [andThen, pure]

theorem andThen_assoc (x : Traced τ ε α) (next : α → Traced τ ε β) (last : β → Traced τ ε γ) :
    (x.andThen next).andThen last = x.andThen fun a => (next a).andThen last := by
  rcases x with ⟨trace, _ | a⟩
  · rfl
  · rcases h : next a with ⟨more, _ | b⟩ <;> simp [andThen, h]

instance lawfulTraced : LawfulMonad (Traced τ ε) :=
  .mk' _ andThen_pure pure_andThen andThen_assoc

end Traced

namespace Log

inductive Level where
  | debug | trace
deriving DecidableEq

structure Entry where
  level : Level
  message : String
deriving DecidableEq

def Level.word : Level → String
  | .debug => "DEBUG"
  | .trace => "TRACE"

def Entry.line (entry : Entry) : String := entry.level.word ++ " " ++ entry.message

end Log

end Calculator
