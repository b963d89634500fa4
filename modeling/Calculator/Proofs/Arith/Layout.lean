import Calculator.Proofs.Arith.Nodes
import Calculator.Proofs.Arith.Regions

/-!
How an expression lies in the input it was read from. Every node has a region of its own there: a
number its digits, an operation what reaches from its first operand to its second with the operator
between them, a call what reaches from its name to its closing parenthesis. The tokens of a node
stand in order, and its operands and its argument stand where their tokens stand.
-/

set_option autoImplicit false
set_option relaxedAutoImplicit false

namespace Calculator.Arith

variable {input : String} {segment before after ls rs : List (Token Kind)} {token : Token Kind}
  {op : Operator} {e l k n : Expr}

/-- What the region of a node covers in an input, blanks apart, and how those of its parts stand in
it. -/
def Expr.LaidOut (input : String) : Expr → Prop
  | .literal value span => Number.read? (Source.strip (span.cut input)).chars = some value
  | .binary _ opSpan lhs rhs span =>
    span.start = lhs.span.start ∧ lhs.span.stop ≤ opSpan.start ∧ opSpan.start < opSpan.stop ∧
      opSpan.stop ≤ rhs.span.start ∧ rhs.span.stop = span.stop
  | .call f arg span =>
    span.start < arg.span.start ∧ arg.span.stop < span.stop ∧
      ∃ name inner, Builtin.ofName? name = some f ∧
        (Source.strip (span.cut input)).text = name ++ "(" ++ inner ++ ")"

section Segment

variable (hscan : lexicon.scan (Source.strip input) = before ++ (segment ++ after))
include hscan

theorem segment_inOrder :
    InOrder (Boundary input) (Source.strip input).stop (Tokens.spans segment) := by
  have hpart : segment.Sublist (lexicon.scan (Source.strip input)) := by
    rw [hscan]
    exact (List.sublist_append_left _ _).trans (List.sublist_append_right _ _)
  exact (Source.scan_inOrder lexicon input).part hpart

theorem start_lt_stop_of_mem (hmem : token ∈ segment) : token.span.start < token.span.stop := by
  obtain ⟨front, back, rfl⟩ := List.append_of_mem hmem
  have hsplit : lexicon.scan (Source.strip input) =
      (before ++ front) ++ ([token] ++ (back ++ after)) := by simp [hscan]
  exact Source.start_lt_stop_of_scan hsplit (.single token.span)

theorem spelled_of_mem (hmem : token ∈ segment) : Spelled token := by
  have hmem : token ∈ lexicon.scan (Source.strip input) := by simp [hscan, hmem]
  exact spelled_of_mem_scan hmem

theorem Direct.fits (h : Direct segment n) :
    n.span.start < n.span.stop ∧ n.span.Fits (Boundary input) input.utf8ByteSize := by
  obtain ⟨opens, core, closes, trimmed, extent⟩ := h.derives.exists_core
  have hcore : lexicon.scan (Source.strip input) =
      (before ++ opens) ++ (core ++ (closes ++ after)) := by simp [hscan, trimmed.eq]
  exact ⟨Source.start_lt_stop_of_scan hcore extent, Source.fits_of_scan hcore extent⟩

end Segment

theorem laidOut_number {value : Float}
    (hscan : lexicon.scan (Source.strip input) = before ++ ([token] ++ after))
    (read : Number.read? token.lexeme = some value) :
    (Expr.literal value token.span).LaidOut input := by
  rw [Expr.LaidOut, Source.chars_cut hscan (.single token.span), Tokens.chars_cons,
    Tokens.chars_nil, List.append_nil, read]

theorem laidOut_join {p q : Phrase}
    (hscan : lexicon.scan (Source.strip input) = before ++ ((ls ++ token :: rs) ++ after))
    (lhs : Derives p ls l) (rhs : Derives q rs k) :
    (Expr.join op token.span l k).LaidOut input := by
  have hoperands : InOrder (Boundary input) (Source.strip input).stop
      ([] ++ l.span :: token.span :: k.span :: []) :=
    lhs.stands.operands rhs.stands (by simpa using segment_inOrder hscan)
  have hleft : l.span.stop ≤ token.span.start := hoperands.stop_le_start (by simp)
  have hright : token.span.stop ≤ k.span.start := hoperands.tail.stop_le_start (by simp)
  exact ⟨rfl, hleft, start_lt_stop_of_mem hscan (by simp), hright, rfl⟩

section Call

variable {name opening closing : Token Kind} {inner : List (Token Kind)} {f : Builtin} {arg : Expr}
  (hscan : lexicon.scan (Source.strip input) =
    before ++ ((name :: opening :: (inner ++ [closing])) ++ after))
include hscan

theorem text_cut_call (opens : opening.kind = .opening) (closes : closing.kind = .closing) :
    (Source.strip ((Span.through name.span closing.span).cut input)).text =
      name.text ++ "(" ++ String.ofList (Tokens.chars inner) ++ ")" := by
  have hopening : Spelled opening := spelled_of_mem hscan (by simp)
  have hclosing : Spelled closing := spelled_of_mem hscan (by simp)
  rw [Source.text, Source.chars_cut hscan (isExtent_call name opening closing inner)]
  simp [Tokens.chars, hopening.opening opens, hclosing.closing closes, Token.text,
    String.append_assoc]

theorem laidOut_call (known : Builtin.ofName? name.text = some f) (opens : opening.kind = .opening)
    (closes : closing.kind = .closing) (inside : Derives .expression inner arg) :
    (Expr.call f arg (Span.through name.span closing.span)).LaidOut input := by
  have hname : name.span.start < name.span.stop := start_lt_stop_of_mem hscan (by simp)
  have hclosing : closing.span.start < closing.span.stop := start_lt_stop_of_mem hscan (by simp)
  have hparts : InOrder (Boundary input) (Source.strip input).stop
      ([name.span, opening.span] ++ arg.span :: [closing.span]) :=
    inside.stands _ _ (by simpa using segment_inOrder hscan)
  have hfirst : name.span.stop ≤ arg.span.start := hparts.stop_le_start (by simp)
  have hlast : arg.span.stop ≤ closing.span.start := hparts.tail.tail.stop_le_start (by simp)
  exact ⟨Nat.lt_of_lt_of_le hname hfirst, Nat.lt_of_le_of_lt hlast hclosing, name.text, _, known,
    text_cut_call hscan opens closes⟩

end Call

theorem Direct.laidOut (h : Direct segment n)
    (hscan : lexicon.scan (Source.strip input) = before ++ (segment ++ after)) :
    n.LaidOut input := by
  cases h with
  | number _ read => exact laidOut_number hscan read
  | call _ known opens closes inside => exact laidOut_call hscan known opens closes inside
  | join lhs _ rhs _ => exact laidOut_join hscan lhs rhs

/-- Every node of an expression has a region of the input that is not empty. The region of an
operation reaches from its first operand to its second, with the operator between them. That of a
call is a name of the function with something in parentheses, and contains the region of the
argument without an end in common. That of a number is read as its value. -/
theorem nodes_laidOut (h : parse input = .ok e) (hn : n ∈ e.nodes) :
    n.span.start < n.span.stop ∧ n.span.Fits (Boundary input) input.utf8ByteSize ∧
      n.LaidOut input := by
  obtain ⟨segment, ⟨before, after, hscan⟩, direct⟩ :=
    (ofSource_eq_ok_iff_derives.mp h).exists_direct hn
  rw [List.append_assoc] at hscan
  obtain ⟨hproper, hfits⟩ := direct.fits hscan.symm
  exact ⟨hproper, hfits, direct.laidOut hscan.symm⟩

theorem nodes_laidOut_of_call :
    let input := "2 * l n( (1 + 3) )"
    let sum := Expr.binary .add ⟨12, 13⟩ (.literal 1 ⟨10, 11⟩) (.literal 3 ⟨14, 15⟩) ⟨10, 15⟩
    let n := Expr.call .naturalLog sum ⟨4, 18⟩
    ∃ e, parse input = .ok e ∧ n ∈ e.nodes ∧ n.span.start < n.span.stop ∧
      n.span.Fits (Boundary input) input.utf8ByteSize ∧ n.LaidOut input := by
  intro input sum n
  have hparse : parse input = .ok (.binary .mul ⟨2, 3⟩ (.literal 2 ⟨0, 1⟩) n ⟨0, 18⟩) := by
    decide +kernel
  have hn : n ∈ (Expr.binary .mul ⟨2, 3⟩ (.literal 2 ⟨0, 1⟩) n ⟨0, 18⟩).nodes := by
    simp [Expr.nodes, n]
  exact ⟨_, hparse, hn, nodes_laidOut hparse hn⟩

end Calculator.Arith
