import Calculator.Complex.Token
import Calculator.Number.Reader

/-!
Complex literals. A literal is recognized by rules that are tried in order; a rule either reads
its form from the front of the tokens or takes nothing.
-/

set_option autoImplicit false
set_option relaxedAutoImplicit false

namespace Calculator.Complex

abbrev Match (tokens : List (Token Kind)) := Option (Reading Kind Ended tokens.length)

abbrev Rule := (tokens : List (Token Kind)) → Match tokens

def signOf? : Kind → Option Float
  | .operator .add => some 1
  | .operator .sub => some (-1)
  | _ => none

def readSign : List (Token Kind) → Float × List (Token Kind)
  | [] => (1, [])
  | token :: rest =>
    match signOf? token.kind with
    | some factor => (factor, rest)
    | none => (1, token :: rest)

def readNumber? : List (Token Kind) → Option (Float × Nat × List (Token Kind))
  | [] => none
  | token :: rest =>
    if token.kind = .number then
      (Number.read? token.lexeme).map fun value => (value, token.span.stop, rest)
    else none

theorem length_readSign (tokens : List (Token Kind)) :
    (readSign tokens).2.length ≤ tokens.length := by
  unfold readSign
  split
  · simp
  · split <;> simp

theorem length_readNumber? {tokens rest : List (Token Kind)} {value : Float} {stop : Nat}
    (h : readNumber? tokens = some (value, stop, rest)) : rest.length < tokens.length := by
  unfold readNumber? at h
  split at h
  · simp at h
  · split at h
    · obtain ⟨v, _, he⟩ := Option.map_eq_some_iff.mp h
      simp only [Prod.mk.injEq] at he
      obtain ⟨_, _, rfl⟩ := he
      simp
    · simp at h

/-- Read an optional number and the unit after it: the magnitude, one if there is no number, the
end, and the tokens after it. -/
def readUnit? (tokens : List (Token Kind)) : Option (Float × Reading Kind Nat tokens.length) :=
  match h : readNumber? tokens with
  | some (magnitude, _, unit :: rest) =>
    if unit.kind = .unit then
      some (magnitude, ⟨unit.span.stop, rest, by
        have := length_readNumber? h
        simp only [List.length_cons] at this
        omega⟩)
    else none
  | some (_, _, []) => none
  | none =>
    match tokens with
    | [] => none
    | unit :: rest =>
      if unit.kind = .unit then some (1, ⟨unit.span.stop, rest, by simp⟩) else none

def imaginaryRule : Rule := fun tokens =>
  (readUnit? (readSign tokens).2).map fun (magnitude, reading) =>
    ⟨⟨imaginary ((readSign tokens).1 * magnitude), reading.value⟩, reading.rest,
      Nat.lt_of_lt_of_le reading.within (length_readSign tokens)⟩

def realRule : Rule := fun tokens =>
  match h : readNumber? (readSign tokens).2 with
  | none => none
  | some (value, stop, rest) =>
    if (rest.head?.map Token.kind) = some .unit then none
    else
      some ⟨⟨real ((readSign tokens).1 * value), stop⟩, rest,
        Nat.lt_of_lt_of_le (length_readNumber? h) (length_readSign tokens)⟩

/-- An optional sign and a number, then a sign, an optional number, and the unit. -/
def twoPartRule : Rule := fun tokens =>
  match h : readNumber? (readSign tokens).2 with
  | none => none
  | some (_, _, []) => none
  | some (re, _, sign :: rest) =>
    match signOf? sign.kind with
    | none => none
    | some factor =>
      (readUnit? rest).map fun (magnitude, reading) =>
        ⟨⟨⟨(readSign tokens).1 * re, factor * magnitude⟩, reading.value⟩, reading.rest, by
          have hn := length_readNumber? h
          have hs := length_readSign tokens
          have hr := reading.within
          simp only [List.length_cons] at hn
          omega⟩

/-- Read a literal: the first of the rules that matches. A real part that stands before an
imaginary one is taken alone, and the sum is left to the grammar. -/
def literal : Rule := fun tokens =>
  (imaginaryRule tokens).or <| (realRule tokens).or (twoPartRule tokens)

end Calculator.Complex
