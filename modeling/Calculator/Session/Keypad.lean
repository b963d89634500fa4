import Calculator.Number.Notation
import Calculator.Number.Reader

/-!
The keys of a calculator's keypad that arithmetic has no tokens for: the root sign, the circle
constant, and the previous result. They are replaced in the text before it is read.
-/

set_option autoImplicit false
set_option relaxedAutoImplicit false

namespace Calculator.Keypad

def circle : Float := 3.141592653589793

def answerName : List Char := ['a', 'n', 's']

/-- A number as arithmetic reads it. There is no sign there, so a negative number, also the
negative zero, is subtracted from zero. -/
def literal (value : Number.Signed) : String :=
  if value.negative then "(0-" ++ Number.plain value.magnitude ++ ")"
  else Number.plain value.magnitude

/-- Replace the occurrences of a pattern, from left to right, after skipping the characters that
belong to the occurrence already replaced. -/
def replaceFrom (pattern replacement : List Char) : Nat → List Char → List Char
  | _, [] => []
  | skip + 1, _ :: text => replaceFrom pattern replacement skip text
  | 0, c :: text =>
    if pattern.isPrefixOf (c :: text) then
      replacement ++ replaceFrom pattern replacement (pattern.length - 1) text
    else c :: replaceFrom pattern replacement 0 text

def replace (pattern replacement text : List Char) : List Char :=
  replaceFrom pattern replacement 0 text

/-- Write out the root sign and the circle constant, and the previous result if there is one. -/
def assemble (input : List Char) (answer : Option Number.Signed) : List Char :=
  let text :=
    replace ['π'] (literal (.ofFloat circle)).toList (replace ['√'] ['s', 'q', 'r', 't'] input)
  match answer with
  | none => text
  | some value => replace answerName (literal value).toList text

example : literal ⟨true, 0⟩ = "(0-0)" ∧ literal (.ofFloat (-2.5)) = "(0-2.5)" := by decide +kernel

end Calculator.Keypad
