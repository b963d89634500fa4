import Calculator.Text.Source

/-!
Tokens. A lexicon lists the patterns of a grammar; the token at a position is the longest match of
any of them, and a single character where none matches. Reading never fails: what a grammar does
not know is left to its parser as a symbol.
-/

set_option autoImplicit false
set_option relaxedAutoImplicit false

namespace Calculator

/-- A token: its kind, its characters, and the bytes of the input it stands for. -/
structure Token (κ : Type) where
  kind : κ
  lexeme : List Char
  span : Span
deriving DecidableEq

def Token.text {κ : Type} (token : Token κ) : String := String.ofList token.lexeme

/-- What a token may look like: a run of characters of a class, or one fixed word. -/
inductive Pattern where
  | run (belongs : Char → Bool)
  | word (text : List Char)

namespace Pattern

def startsWith : List Char → List Glyph → Bool
  | [], _ => true
  | _ :: _, [] => false
  | c :: letters, glyph :: rest => c = glyph.char && startsWith letters rest

/-- The length of the longest match at the front of a text, zero if there is none. -/
def matchLength : Pattern → List Glyph → Nat
  | .run belongs, text => (text.takeWhile fun glyph => belongs glyph.char).length
  | .word letters, text => if startsWith letters text then letters.length else 0

end Pattern

/-- The patterns of a grammar with the kinds of their tokens, and the kind of a character that
matches none. -/
structure Lexicon (κ : Type) where
  entries : List (Pattern × κ)
  symbol : κ

namespace Lexicon

variable {κ : Type}

/-- The kind and the length of the longest match at the front of a text. The first of several
patterns with equally long matches decides. -/
def longest (lexicon : Lexicon κ) (text : List Glyph) : κ × Nat :=
  lexicon.entries.foldl
    (fun best entry =>
      let length := entry.1.matchLength text
      if best.2 < length then (entry.2, length) else best)
    (lexicon.symbol, 0)

def tokenOf (kind : κ) (first : Glyph) (rest : List Glyph) : Token κ :=
  ⟨kind, first.char :: rest.map Glyph.char,
    Span.through first.span ((rest.getLast?.getD first).span)⟩

/-- Read tokens, after skipping the characters that belong to the token already read. -/
def scanFrom (lexicon : Lexicon κ) : Nat → List Glyph → List (Token κ)
  | _, [] => []
  | skip + 1, _ :: text => scanFrom lexicon skip text
  | 0, glyph :: text =>
    let (kind, length) := lexicon.longest (glyph :: text)
    tokenOf kind glyph (text.take (length - 1)) :: scanFrom lexicon (length - 1) text

def scan (lexicon : Lexicon κ) (source : Source) : List (Token κ) :=
  lexicon.scanFrom 0 source.glyphs

end Lexicon

end Calculator
