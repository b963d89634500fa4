import Calculator.Text.Lexicon

/-!
What a parser of tokens returns: a value and the tokens it left. The bound on what is left is what
makes mutually recursive parsers end.
-/

set_option autoImplicit false
set_option relaxedAutoImplicit false

namespace Calculator

/-- A value read from the front of a list of tokens, with fewer than `bound` tokens left. -/
structure Reading (κ : Type) (α : Type) (bound : Nat) where
  value : α
  rest : List (Token κ)
  within : rest.length < bound

namespace Reading

variable {κ α β : Type} {bound : Nat}

def stay (value : α) (tokens : List (Token κ)) : Reading κ α (tokens.length + 1) :=
  ⟨value, tokens, Nat.lt_succ_self tokens.length⟩

def skip (reading : Reading κ α bound) : Reading κ α (bound + 1) :=
  ⟨reading.value, reading.rest, Nat.lt_succ_of_lt reading.within⟩

/-- What was read where another reading left off. -/
def resume (first : Reading κ β bound) (next : Reading κ α (first.rest.length + 1)) :
    Reading κ α bound :=
  ⟨next.value, next.rest, Nat.lt_of_le_of_lt (Nat.le_of_lt_succ next.within) first.within⟩

def take (reading : Reading κ α bound) (value : β) {token : Token κ} {rest : List (Token κ)}
    (h : reading.rest = token :: rest) : Reading κ β bound :=
  ⟨value, rest, by
    have := reading.within
    rw [h, List.length_cons] at this
    omega⟩

def map (f : α → β) (reading : Reading κ α bound) : Reading κ β bound :=
  ⟨f reading.value, reading.rest, reading.within⟩

end Reading

/-- The span of the first token, or the empty span at the end of the input. -/
def frontSpan {κ : Type} (stop : Nat) : List (Token κ) → Span
  | [] => Span.point stop
  | token :: _ => token.span

/-- The pattern of a number: a run of digits and points. Whether it is one is decided when it is
read. -/
def Pattern.numeral : Pattern := .run fun c => c.isDigit || c = '.'

def Pattern.single (c : Char) : Pattern := .word [c]

end Calculator
