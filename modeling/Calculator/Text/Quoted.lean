import Calculator.Text.Invisible

/-!
Quoted text, as it stands in the one-line summary of an error. A quote and a backslash are
escaped, and so is every character without a shape of its own.
-/

set_option autoImplicit false
set_option relaxedAutoImplicit false

namespace Calculator.Text

/-- The code point of a character in lower-case hexadecimal, between braces. -/
def hexEscape (c : Char) : List Char :=
  ['\\', 'u', '\x7b'] ++ Nat.toDigits 16 c.toNat ++ ['\x7d']

def escape (c : Char) : List Char :=
  match c with
  | '"' => ['\\', '"']
  | '\\' => ['\\', '\\']
  | '\t' => ['\\', 't']
  | '\r' => ['\\', 'r']
  | '\n' => ['\\', 'n']
  | _ =>
    if c = Char.ofNat 0 then ['\\', '0']
    else if isInvisible c then hexEscape c
    else [c]

def quoted (text : String) : String :=
  String.ofList ('"' :: text.toList.flatMap escape ++ ['"'])

example : quoted "a\"b\x01" = "\"a\\\"b\\u\x7b1\x7d\"" := by decide +kernel

end Calculator.Text
