import Calculator.Proofs.Arith.Grammar
import Calculator.Proofs.Arith.Scanning
import Calculator.Proofs.Text.Tiling

/-!
Parentheses of a text. A text that is an expression closes every parenthesis that it opens and none
else, so that going through it changes no depth; this can be told from the characters, without
reading the text.
-/

set_option autoImplicit false
set_option relaxedAutoImplicit false

namespace Calculator.Arith

/-- How many parentheses are open after a text, given how many are open before it. There is no such
number if a `)` of the text has no partner. -/
def depthAfter : Nat → List Char → Option Nat
  | depth, [] => some depth
  | depth, c :: rest =>
    if c = '(' then depthAfter (depth + 1) rest
    else if c = ')' then
      match depth with
      | 0 => none
      | depth + 1 => depthAfter depth rest
    else depthAfter depth rest

/-- Whether the parentheses of a text belong together in pairs. -/
def Paired (text : List Char) : Prop := depthAfter 0 text = some 0

instance (text : List Char) : Decidable (Paired text) := inferInstanceAs (Decidable (_ = _))

section Depth

variable {depth : Nat} {text rest : List Char}

theorem depthAfter_opening (depth : Nat) (rest : List Char) :
    depthAfter depth ('(' :: rest) = depthAfter (depth + 1) rest := if_pos rfl

theorem depthAfter_closing (depth : Nat) (rest : List Char) :
    depthAfter (depth + 1) (')' :: rest) = depthAfter depth rest :=
  (if_neg (by decide)).trans (if_pos rfl)

theorem depthAfter_other {c : Char} (opening : c ≠ '(') (closing : c ≠ ')') (depth : Nat)
    (rest : List Char) : depthAfter depth (c :: rest) = depthAfter depth rest :=
  (if_neg opening).trans (if_neg closing)

theorem depthAfter_append (depth : Nat) (text rest : List Char) :
    depthAfter depth (text ++ rest) = (depthAfter depth text).bind (depthAfter · rest) := by
  induction text generalizing depth with
  | nil => rfl
  | cons c text ih =>
    simp only [List.cons_append, depthAfter]
    split
    · exact ih _
    split
    · cases depth with
      | zero => rfl
      | succ depth => exact ih depth
    · exact ih depth

theorem depthAfter_of_not_mem (opening : '(' ∉ text) (closing : ')' ∉ text) (depth : Nat) :
    depthAfter depth text = some depth := by
  induction text with
  | nil => rfl
  | cons c text ih =>
    rw [List.mem_cons, not_or] at opening closing
    rw [depthAfter_other (Ne.symm opening.1) (Ne.symm closing.1), ih opening.2 closing.2]

theorem depthAfter_add {last : Nat} (more : Nat) (h : depthAfter depth text = some last) :
    depthAfter (depth + more) text = some (last + more) := by
  induction text generalizing depth with
  | nil => exact congrArg (some <| · + more) (Option.some.inj h)
  | cons c text ih =>
    simp only [depthAfter] at h ⊢
    split
    · next hc =>
      rw [if_pos hc] at h
      rw [Nat.add_right_comm]
      exact ih h
    next hc =>
    rw [if_neg hc] at h
    split
    · next hc =>
      rw [if_pos hc] at h
      cases depth with
      | zero => cases h
      | succ depth =>
        rw [Nat.add_right_comm]
        exact ih h
    · next hc =>
      rw [if_neg hc] at h
      exact ih h

theorem depthAfter_replicate_opening (depth count : Nat) :
    depthAfter depth (List.replicate count '(') = some (depth + count) := by
  induction count generalizing depth with
  | zero => rfl
  | succ count ih => rw [List.replicate_succ, depthAfter_opening, ih, Nat.add_right_comm]; rfl

theorem eq_of_depthAfter_replicate_closing {count : Nat}
    (h : depthAfter depth (List.replicate count ')') = some 0) : depth = count := by
  induction count generalizing depth with
  | zero => exact Option.some.inj h
  | succ count ih =>
    cases depth with
    | zero => cases h
    | succ depth =>
      rw [List.replicate_succ, depthAfter_closing] at h
      rw [ih h]

theorem depthAfter_filter (depth : Nat) (text : List Char) :
    depthAfter depth (text.filter fun c => !Text.isBlank c) = depthAfter depth text := by
  induction text generalizing depth with
  | nil => rfl
  | cons c text ih =>
    cases hc : Text.isBlank c with
    | true =>
      rw [List.filter_cons_of_neg (by simp [hc]), ih, depthAfter_other]
      · rintro rfl
        cases hc
      · rintro rfl
        cases hc
    | false =>
      rw [List.filter_cons_of_pos (by simp [hc])]
      simp only [depthAfter, ih]

end Depth

/-- Whether a parenthesis is written as one, and nothing else with one. -/
structure Spelled (token : Token Kind) : Prop where
  opening : token.kind = .opening → token.lexeme = ['(']
  closing : token.kind = .closing → token.lexeme = [')']
  other : token.kind ≠ .opening → token.kind ≠ .closing →
    '(' ∉ token.lexeme ∧ ')' ∉ token.lexeme

theorem Spelled.of_other {token : Token Kind} (opening : '(' ∉ token.lexeme)
    (closing : ')' ∉ token.lexeme) (notOpening : token.kind ≠ .opening)
    (notClosing : token.kind ≠ .closing) : Spelled token :=
  ⟨fun kind => absurd kind notOpening, fun kind => absurd kind notClosing,
    fun _ _ => ⟨opening, closing⟩⟩

theorem spelled_of_takes {text : List Char} {token : Token Kind}
    (h : lexicon.Takes text token.kind token.lexeme) : Spelled token := by
  obtain ⟨kind, lexeme, span⟩ := token
  cases h with
  | longest _ matched kinds _ =>
    obtain ⟨entry, hmem, hmatch⟩ := matched
    obtain rfl := kinds entry hmem hmatch
    have hwords : ∀ entry ∈ lexicon.words, (entry.2 = .opening → entry.1 = ['(']) ∧
        (entry.2 = .closing → entry.1 = [')']) ∧ (entry.2 ≠ .opening → entry.2 ≠ .closing →
          '(' ∉ entry.1 ∧ ')' ∉ entry.1) := by decide
    have hrun {belongs : Char → Bool} {c : Char} (hc : belongs c = false)
        (h : (Pattern.run belongs).Matches lexeme) : c ∉ lexeme := by
      intro hmem
      rw [h.2 c hmem] at hc
      cases hc
    have hentries : ∀ entry ∈ lexicon.entries, entry.1.Matches lexeme →
        Spelled ⟨entry.2, lexeme, span⟩ := by
      refine forall_entries (fun h => ?_) (fun h => ?_) fun entry hmem h => ?_
      · exact .of_other (hrun rfl h) (hrun rfl h) Kind.noConfusion Kind.noConfusion
      · exact .of_other (hrun rfl h) (hrun rfl h) Kind.noConfusion Kind.noConfusion
      · obtain ⟨hopening, hclosing, hother⟩ := hwords entry hmem
        obtain ⟨-, rfl⟩ := h
        exact ⟨hopening, hclosing, hother⟩
    exact hentries entry hmem hmatch
  | @symbol c front unmatched =>
    have hnot (mark : Char) (kind : Kind) (hmem : ([mark], kind) ∈ lexicon.words) :
        mark ∉ [c] := by
      rw [List.mem_singleton]
      rintro rfl
      exact unmatched _ (Lexicon.mem_entries_of_mem_words hmem) [mark] front
        ⟨List.cons_ne_nil _ _, rfl⟩
    exact .of_other (hnot '(' .opening (by decide)) (hnot ')' .closing (by decide))
      Kind.noConfusion Kind.noConfusion

theorem spelled_of_mem_scan {source : Source} {token : Token Kind}
    (h : token ∈ lexicon.scan source) : Spelled token := by
  obtain ⟨before, after, hscan⟩ := List.append_of_mem h
  exact spelled_of_takes ((Lexicon.reads unambiguous source).front before token after hscan)

section Derivations

variable {p : Phrase} {tokens : List (Token Kind)} {e : Expr} {token : Token Kind}

theorem Spelled.depthAfter_opening (h : Spelled token) (opens : token.kind = .opening) (depth : Nat)
    (rest : List (Token Kind)) :
    depthAfter depth (Tokens.chars (token :: rest)) =
      depthAfter (depth + 1) (Tokens.chars rest) := by
  rw [Tokens.chars_cons, h.opening opens, List.singleton_append,
    Arith.depthAfter_opening]

theorem Spelled.depthAfter_closing (h : Spelled token) (closes : token.kind = .closing)
    (depth : Nat) (rest : List (Token Kind)) :
    depthAfter (depth + 1) (Tokens.chars (token :: rest)) =
      depthAfter depth (Tokens.chars rest) := by
  rw [Tokens.chars_cons, h.closing closes, List.singleton_append,
    Arith.depthAfter_closing]

theorem Spelled.depthAfter_other (h : Spelled token) (opening : token.kind ≠ .opening)
    (closing : token.kind ≠ .closing) (depth : Nat) (rest : List (Token Kind)) :
    depthAfter depth (Tokens.chars (token :: rest)) = depthAfter depth (Tokens.chars rest) := by
  rw [Tokens.chars_cons, depthAfter_append,
    depthAfter_of_not_mem (h.other opening closing).1 (h.other opening closing).2]
  rfl

/-- An expression leaves as many parentheses open as it found. -/
theorem Derives.depthAfter_chars (h : Derives p tokens e)
    (spelled : ∀ token ∈ tokens, Spelled token) (depth : Nat) (rest : List (Token Kind)) :
    depthAfter depth (Tokens.chars (tokens ++ rest)) = depthAfter depth (Tokens.chars rest) := by
  induction h generalizing depth rest with
  | number kind =>
    have hnumber := spelled _ List.mem_cons_self
    exact hnumber.depthAfter_other (by simp [kind]) (by simp [kind]) depth rest
  | @call name opening closing inner f arg kind _ opens closes _ ih =>
    have hname := spelled name (by simp)
    have hopening := spelled opening (by simp)
    have hclosing := spelled closing (by simp)
    simp only [List.cons_append, List.append_assoc, List.nil_append]
    rw [hname.depthAfter_other (by simp [kind]) (by simp [kind]),
      hopening.depthAfter_opening opens, ih fun token hmem => spelled token (by simp [hmem]),
      hclosing.depthAfter_closing closes]
  | @group opening closing inner e opens closes _ ih =>
    have hopening := spelled opening (by simp)
    have hclosing := spelled closing (by simp)
    simp only [List.cons_append, List.append_assoc, List.nil_append]
    rw [hopening.depthAfter_opening opens, ih fun token hmem => spelled token (by simp [hmem]),
      hclosing.depthAfter_closing closes]
  | atom _ ih | power _ ih | term _ ih => exact ih spelled depth rest
  | @raised _ _ token _ _ _ kind _ ihl ihr | @scaled _ _ token _ _ _ _ kind _ _ ihl ihr
  | @shifted _ _ token _ _ _ _ kind _ _ ihl ihr =>
    have htoken := spelled token (by simp)
    rw [List.append_assoc, List.cons_append, ihl fun token hmem => spelled token (by simp [hmem]),
      htoken.depthAfter_other (by simp [kind]) (by simp [kind]),
      ihr fun token hmem => spelled token (by simp [hmem])]

end Derivations

end Calculator.Arith
