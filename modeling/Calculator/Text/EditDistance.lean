/-!
The edit distance of two texts: the least number of characters to insert, delete or replace.
-/

set_option autoImplicit false
set_option relaxedAutoImplicit false

namespace Calculator.Text

/-- The entries of the next row after its first. `left` is the entry just written, `diagonal` the
one above it. -/
def distanceCells (c : Char) : Nat → Nat → List Char → List Nat → List Nat
  | left, diagonal, d :: text, above :: row =>
    let cell := Nat.min (Nat.min (left + 1) (above + 1)) (diagonal + if c = d then 0 else 1)
    cell :: distanceCells c cell above text row
  | _, _, _, _ => []

def distanceRow (text : List Char) (row : List Nat) (c : Char) : List Nat :=
  match row with
  | [] => []
  | first :: row => (first + 1) :: distanceCells c (first + 1) first text row

def editDistance (a b : List Char) : Nat :=
  (a.foldl (distanceRow b) (List.range (b.length + 1))).getLastD 0

example : editDistance "sine".toList "sin".toList = 1 := by decide

example : editDistance "".toList "abc".toList = 3 := by decide

end Calculator.Text
