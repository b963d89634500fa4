import Calculator.Proofs.Complex.Interruptions
import Calculator.Proofs.Complex.Placement
import Calculator.Proofs.Complex.Printing
import Calculator.Proofs.Text.Cutting

/-!
Divisions by zero. A division fails before what follows it is looked at, so that the tokens of the
input need not be an expression; but its divisor is one, and has been read. The error is about the
operator and about the tokens of this divisor, and what these cover in the input is read as a number
again whose squared modulus comes out as zero.
-/

set_option autoImplicit false
set_option relaxedAutoImplicit false

namespace Calculator.Complex

variable {tokens : List (Token Kind)}

theorem parse_explained (input : String) (d : Diagnostic) (h : parse input = .error d)
    (hcause : d.cause = .divisionByZero) : ∃ operator divisor extent,
      ZeroDivisor (tokensOf input) operator divisor ∧
        extent.IsExtent (Tokens.spans divisor) ∧ d.spans = [operator.span, extent] := by
  obtain ⟨read, rest, operator, divisor, extent, htokens, hfront, hextent⟩ :=
    parse_interrupted input d h hcause
  have hplaced : read <:+: tokensOf input := ⟨[], rest, htokens.symm⟩
  exact ⟨operator, divisor, extent,
    ⟨hfront.placed.trans hplaced, hfront.divides, hfront.zero⟩, hextent⟩

theorem Derives.parse_of_alike {places : Places} {text : String} {e : Expr} {w : Complex}
    (h : Derives .expression tokens e) (hvalue : e.value? = some w)
    (halike : Tokens.Alike places tokens (tokensOf text)) : parse text = .ok w := by
  have hread := h.ofTokens places.left
  rw [hvalue] at hread
  have houtcome := ofTokens_alike halike
  rw [hread] at houtcome
  cases hagain : Complex.ofTokens places.right (tokensOf text) with
  | error d =>
    rw [hagain] at houtcome
    cases houtcome
  | ok w' =>
    rw [hagain] at houtcome
    cases houtcome with
    | ok heq =>
      subst heq
      obtain ⟨e', derived, hvalue'⟩ := derives_of_ofTokens hagain
      have htext := derived.ofTokens (Source.strip text).stop
      rw [hvalue'] at htext
      exact (parse_eq_ofTokens derived.ne_nil).trans htext

theorem Derives.exists_parse_eq_error {text : String} {e : Expr}
    (h : Derives .expression (tokensOf text) e) (hvalue : e.value? = none) :
    ∃ spans, parse text = .error ⟨.divisionByZero, spans⟩ := by
  have hread := h.ofTokens (Source.strip text).stop
  rw [hvalue] at hread
  rwa [parse_eq_ofTokens h.ne_nil]

theorem lexeme_of_div {text : List Char} {lexeme : List Char}
    (h : lexicon.Takes text (.operator .div) lexeme) : lexeme = ['/'] := by
  have hwords : ∀ entry ∈ lexicon.words, entry.2 = .operator .div → entry.1 = ['/'] := by decide
  generalize hkind : Kind.operator .div = kind at h
  cases h with
  | symbol => cases hkind
  | longest _ matched kinds _ =>
    obtain ⟨entry, hmem, hmatch⟩ := matched
    have hentry := (kinds entry hmem hmatch).trans hkind.symm
    have hentries : ∀ entry ∈ lexicon.entries, entry.2 = .operator .div → entry.1.Matches lexeme →
        lexeme = ['/'] := by
      refine isTable.forall_entries (fun hkind => by cases hkind) fun entry hmem hkind hmatch => ?_
      exact hmatch.2.trans (hwords entry hmem hkind)
    exact hentries entry hmem hentry hmatch

/-- A division by zero has two regions in the input. The first is one `/`, and the second is a
divisor that is read by itself as a number whose squared modulus comes out as zero. -/
theorem parse_divisor {input : String} {d : Diagnostic} (h : parse input = .error d)
    (hcause : d.cause = .divisionByZero) :
    ∃ operator divisor, d.spans = [operator, divisor] ∧
      operator.Fits (Boundary input) input.utf8ByteSize ∧
      divisor.Fits (Boundary input) input.utf8ByteSize ∧
      operator.cut input = "/" ∧
      ∃ w, parse (divisor.cut input) = .ok w ∧ (w.squaredModulus == 0) = true := by
  obtain ⟨operator, divisor, extent, hzero, hextent, hspans⟩ := parse_explained input d h hcause
  obtain ⟨before, after, hscan⟩ := hzero.placed
  obtain ⟨e, w, derived, hvalue, hmodulus⟩ := hzero.zero
  have hoperator : lexicon.scan (Source.strip input) =
      before ++ operator :: (divisor ++ after) := by
    rw [← tokensOf, ← hscan, List.append_assoc, List.cons_append]
  have hdivisor : lexicon.scan (Source.strip input) =
      (before ++ [operator]) ++ (divisor ++ after) := by
    rw [hoperator, List.append_cons]
  have htakes := (Lexicon.reads unambiguous _).front before operator _ hoperator
  rw [hzero.divides] at htakes
  have hlexeme := lexeme_of_div htakes
  have hplace : operator.span ∈ Tokens.spans (lexicon.scan (Source.strip input)) := by
    rw [hoperator]
    simp
  have hfits := (Source.scan_inOrder lexicon input).fits operator.span hplace
  rw [Source.strip_stop] at hfits
  obtain ⟨places, halike⟩ := Source.scan_cut hdivisor hextent
  exact ⟨operator.span, extent, hspans, hfits, Source.fits_of_scan hdivisor hextent,
    Source.cut_of_lexeme hoperator hlexeme, w,
    Derives.parse_of_alike (.term (.factor derived)) hvalue halike, hmodulus⟩

theorem parse_divisor_of_difference :
    ∃ d operator divisor, parse "2 / (i-i)" = .error d ∧ d.spans = [operator, divisor] ∧
      operator.cut "2 / (i-i)" = "/" ∧
      ∃ w, parse (divisor.cut "2 / (i-i)") = .ok w ∧ (w.squaredModulus == 0) = true := by
  have htokens : tokensOf "2 / (i-i)" =
      ([] ++ [⟨.number, ['2'], ⟨0, 1⟩⟩]) ++ ⟨.operator .div, ['/'], ⟨2, 3⟩⟩ ::
        (⟨.opening, ['('], ⟨4, 5⟩⟩ :: ((([] ++ ([] ++ [⟨.unit, ['i'], ⟨5, 6⟩⟩])) ++
          ⟨.operator .sub, ['-'], ⟨6, 7⟩⟩ :: ([] ++ ([] ++ [⟨.unit, ['i'], ⟨7, 8⟩⟩]))) ++
            [⟨.closing, [')'], ⟨8, 9⟩⟩])) := by
    decide +kernel
  have unit {token : Token Kind} (kind : token.kind = .unit) :
      Derives .term ([] ++ ([] ++ [token])) (.imaginary none none) :=
    .factor (.imaginary .none .none kind)
  have derived : Derives .expression (tokensOf "2 / (i-i)")
      (.div (.real none 2) (.sub (.imaginary none none) (.imaginary none none))) := by
    rw [htokens]
    exact .term (.divided (.factor (.real .none rfl (by decide +kernel))) rfl
      (.group rfl rfl (.minus (.term (unit rfl)) rfl (unit rfl))))
  have hnone : (Expr.div (.real none 2) (.sub (.imaginary none none)
      (.imaginary none none))).value? = none := by decide +kernel
  obtain ⟨spans, herror⟩ := derived.exists_parse_eq_error hnone
  obtain ⟨operator, divisor, hspans, -, -, hcut, hdivisor⟩ := parse_divisor herror rfl
  exact ⟨_, operator, divisor, herror, hspans, hcut, hdivisor⟩

end Calculator.Complex
