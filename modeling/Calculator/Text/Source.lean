import Calculator.Text.Blank
import Calculator.Text.Span

/-!
Input text prepared for a grammar. Blank characters mean nothing in any grammar and are removed
first, so that `1 2` reads as `12`; the grammar of functions also gains a `*` before a `(` that
follows a factor. Every character that is kept remembers the bytes of the input it stands for, so
that errors point at what was typed.
-/

set_option autoImplicit false
set_option relaxedAutoImplicit false

namespace Calculator

/-- A character of a prepared text, and the bytes of the input it stands for. -/
structure Glyph where
  char : Char
  span : Span
deriving DecidableEq

/-- A prepared text, and the length of the input in bytes. -/
structure Source where
  glyphs : List Glyph
  stop : Nat
deriving DecidableEq

namespace Source

/-- The characters of a text from a byte offset on. -/
def place : Nat → List Char → List Glyph
  | _, [] => []
  | offset, c :: rest =>
    ⟨c, ⟨offset, offset + c.utf8Size⟩⟩ :: place (offset + c.utf8Size) rest

def byteLength (text : List Char) : Nat := text.foldr (fun c length => c.utf8Size + length) 0

def strip (input : String) : Source :=
  ⟨(place 0 input.toList).filter fun glyph => !Text.isBlank glyph.char,
    byteLength input.toList⟩

/-- Whether a `(` right after this character multiplies what came before it. -/
def endsFactor : Option Char → Bool
  | none => false
  | some c => c.isDigit || c = 'x' || c = 'X' || c = ')'

/-- Insert a `*` before every `(` that follows a factor. It stands for the bytes of the `(`. -/
def insertProducts : Option Char → List Glyph → List Glyph
  | _, [] => []
  | previous, glyph :: rest =>
    let kept := glyph :: insertProducts (some glyph.char) rest
    if glyph.char = '(' && endsFactor previous then
      ⟨'*', ⟨glyph.span.start, glyph.span.start + 1⟩⟩ :: kept
    else kept

/-- Write out the products that a `(` after a digit, an `x` or a `)` stands for. -/
def withProducts (source : Source) : Source :=
  { source with glyphs := insertProducts none source.glyphs }

def chars (source : Source) : List Char := source.glyphs.map Glyph.char

def text (source : Source) : String := String.ofList source.chars

def isEmpty (source : Source) : Bool := source.glyphs.isEmpty

def endSpan (source : Source) : Span := Span.point source.stop

/-- For each byte of the prepared text the byte of the input it stands for, and the length of the
input at the end. -/
def offsets (source : Source) : List Nat :=
  source.glyphs.flatMap (fun glyph =>
    List.range' glyph.span.start (glyph.span.stop - glyph.span.start)) ++ [source.stop]

/-- The input bytes that a span of the prepared text stands for. -/
def inputSpan (source : Source) (span : Span) : Span :=
  let offset (index : Nat) : Nat := source.offsets[index]?.getD source.stop
  if span.stop ≤ span.start then Span.point (offset span.start)
  else ⟨offset span.start, offset (span.stop - 1) + 1⟩

end Source

end Calculator
