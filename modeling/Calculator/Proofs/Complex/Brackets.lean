import Calculator.Proofs.Complex.Derivation
import Calculator.Proofs.Complex.Scanning
import Calculator.Proofs.Text.Brackets

/-!
Unclosed parentheses in complex arithmetic. What a reader finds is a phrase, in which every
parenthesis has its partner, so a reader knows which parentheses are open where it starts. An
opening one is reported where the input ends inside its group, and a closing one behind a whole
expression.
-/

set_option autoImplicit false
set_option relaxedAutoImplicit false

namespace Calculator.Complex

open BracketAt (Balanced inTokens)

def side? : Kind → Option (Delimiter × Bool)
  | .opening => some (.parenthesis, true)
  | .closing => some (.parenthesis, false)
  | _ => none

variable {stop : Nat} {token : Token Kind} {tokens : List (Token Kind)} {p : Phrase} {e : Expr}

theorem side?_opening (kind : token.kind = .opening) :
    side? token.kind = some (.parenthesis, true) := kind ▸ rfl

theorem side?_closing (kind : token.kind = .closing) :
    side? token.kind = some (.parenthesis, false) := kind ▸ rfl

theorem delimits : lexicon.Delimits side? [.parenthesis] where
  symbol := rfl
  entry := isTable.spellsSide rfl (by decide +kernel)
  known c hc := by
    rcases BracketAt.eq_of_sideOf? hc with ⟨-, rfl | rfl⟩ | ⟨hbrace, -⟩
    · exact ⟨(.single '(', .opening), by simp [lexicon], Pattern.matches_single _⟩
    · exact ⟨(.single ')', .closing), by simp [lexicon], Pattern.matches_single _⟩
    · simp at hbrace

theorem unbracketed_signs {signs : List (Token Kind)} {sign : Option Sign} (h : Signs signs sign) :
    ∀ token ∈ signs, side? token.kind = none := by
  cases h with
  | none => simp
  | some sign kind => simp [kind, side?]

theorem unbracketed_numbers {numbers : List (Token Kind)} {magnitude : Option Float}
    (h : Counts numbers magnitude) : ∀ token ∈ numbers, side? token.kind = none := by
  cases h with
  | none => simp
  | some kind => simp [kind, side?]

theorem Derives.balanced (h : Derives p tokens e) : Balanced (inTokens side? tokens) := by
  induction h with
  | imaginary signed counted kind =>
    refine .of_forall (List.forall_mem_append.mpr ⟨unbracketed_signs signed, ?_⟩)
    exact List.forall_mem_append.mpr ⟨unbracketed_numbers counted, by simp [kind, side?]⟩
  | real signed kind =>
    exact .of_forall (List.forall_mem_append.mpr ⟨unbracketed_signs signed, by simp [kind, side?]⟩)
  | conj kind opens closes _ ih | abs kind opens closes _ ih =>
    rw [BracketAt.inTokens_none (by simp [kind, side?])]
    exact ih.group (side?_opening opens) (side?_closing closes)
  | group opens closes _ ih => exact ih.group (side?_opening opens) (side?_closing closes)
  | factor _ ih | term _ ih => exact ih
  | times _ kind _ ihl ihr | divided _ kind _ ihl ihr | plus _ kind _ ihl ihr
  | minus _ kind _ ihl ihr => exact ihl.join (kind ▸ rfl) ihr

/-- What a reader finds blames no bracket but one without a partner. -/
abbrev Blames (opened : List BracketAt) (tokens : List (Token Kind)) (x : Found) : Prop :=
  BlamesUnpaired side? opened tokens x

theorem Starts.blames {α : Type} {x : Except Diagnostic α} {z : Ended} {rest : List (Token Kind)}
    {opened : List BracketAt} (h : Starts p tokens z rest)
    (hrest : BlamesUnpaired side? opened rest x) :
    BlamesUnpaired side? opened tokens x := by
  obtain ⟨read, e, hread, derived, -⟩ := h
  exact hrest.after derived.balanced hread

theorem divide_blames {operator divisor : Span} {z w : Complex} {brackets : List BracketAt} :
    UnclosedAmong brackets (divide operator divisor z w) := by
  rw [divide]
  split
  · exact .ok _
  · exact .error rfl

theorem notAFactor_blames {token : Token Kind} {brackets : List BracketAt} :
    UnclosedAmong brackets (.error (notAFactor token) : Found) := by
  rw [notAFactor]
  split <;> exact .error rfl

theorem closingAfter_blames {opening : Token Kind} {opened : List BracketAt} (z : Ended) :
    Blames (.ofSide opening.span (.parenthesis, true) :: opened) tokens
      (closingAfter opening z tokens) := by
  cases tokens with
  | nil => exact .unclosed
  | cons token rest =>
    rw [closingAfter]
    split
    · exact UnclosedAmong.ok _
    · exact UnclosedAmong.error rfl

mutual

theorem expression_blames (opened : List BracketAt) (tokens : List (Token Kind)) :
    Blames opened tokens (found (expression stop tokens)) := by
  rw [found_expression]
  refine (term_blames opened tokens).bind fun first hfirst => ?_
  have := length_lt_of_found hfirst
  exact (starts_term hfirst).blames (expressionTail_blames opened first.2)
termination_by (tokens.length, 4)

theorem expressionTail_blames {sum : Ended} (opened : List BracketAt) (tokens : List (Token Kind)) :
    Blames opened tokens (found (expressionTail stop sum tokens)) := by
  match tokens with
  | [] =>
    rw [found_expressionTail_nil]
    exact UnclosedAmong.ok _
  | token :: rest =>
    by_cases add : token.kind = .operator .add
    · rw [found_expressionTail_add add]
      refine BlamesUnpaired.skip ((term_blames opened rest).bind fun next hnext => ?_) (add ▸ rfl)
      have := length_lt_of_found hnext
      exact (starts_term hnext).blames (expressionTail_blames opened next.2)
    by_cases sub : token.kind = .operator .sub
    · rw [found_expressionTail_sub sub]
      refine BlamesUnpaired.skip ((term_blames opened rest).bind fun next hnext => ?_) (sub ▸ rfl)
      have := length_lt_of_found hnext
      exact (starts_term hnext).blames (expressionTail_blames opened next.2)
    · rw [found_expressionTail_stay add sub]
      exact UnclosedAmong.ok _
termination_by (tokens.length, 3)

theorem term_blames (opened : List BracketAt) (tokens : List (Token Kind)) :
    Blames opened tokens (found (term stop tokens)) := by
  rw [found_term]
  refine (factor_blames opened tokens).bind fun first hfirst => ?_
  have := length_lt_of_found hfirst
  exact (starts_factor hfirst).blames (termTail_blames opened first.2)
termination_by (tokens.length, 3)

theorem termTail_blames {product : Ended} (opened : List BracketAt) (tokens : List (Token Kind)) :
    Blames opened tokens (found (termTail stop product tokens)) := by
  match tokens with
  | [] =>
    rw [found_termTail_nil]
    exact UnclosedAmong.ok _
  | token :: rest =>
    by_cases mul : token.kind = .operator .mul
    · rw [found_termTail_mul mul]
      refine BlamesUnpaired.skip ((factor_blames opened rest).bind fun next hnext => ?_) (mul ▸ rfl)
      have := length_lt_of_found hnext
      exact (starts_factor hnext).blames (termTail_blames opened next.2)
    by_cases div : token.kind = .operator .div
    · rw [found_termTail_div div]
      refine BlamesUnpaired.skip ((factor_blames opened rest).bind fun next hnext => ?_) (div ▸ rfl)
      have := length_lt_of_found hnext
      refine divide_blames.bind fun quotient _ => ?_
      exact (starts_factor hnext).blames (termTail_blames opened next.2)
    · rw [found_termTail_stay mul div]
      exact UnclosedAmong.ok _
termination_by (tokens.length, 2)

theorem factor_blames (opened : List BracketAt) (tokens : List (Token Kind)) :
    Blames opened tokens (found (factor stop tokens)) := by
  match tokens with
  | [] =>
    rw [found_factor_nil]
    exact UnclosedAmong.error rfl
  | token :: rest =>
    by_cases conj : token.kind = .conj
    · rw [found_factor_conj conj]
      refine BlamesUnpaired.skip ?_ (conj ▸ rfl)
      exact (argument_blames opened rest).bind fun arg _ => .ok _
    by_cases abs : token.kind = .abs
    · rw [found_factor_abs abs]
      refine BlamesUnpaired.skip ?_ (abs ▸ rfl)
      exact (argument_blames opened rest).bind fun arg _ => .ok _
    by_cases opens : token.kind = .opening
    · rw [found_factor_opening opens]
      exact (group_blames opened rest).opening (side?_opening opens)
    · rw [found_factor_literal conj abs opens]
      split
      · exact UnclosedAmong.ok _
      · exact notAFactor_blames
termination_by (tokens.length, 2)

theorem argument_blames {name : Token Kind} (opened : List BracketAt) (tokens : List (Token Kind)) :
    Blames opened tokens (found (argument stop name tokens)) := by
  match tokens with
  | [] =>
    rw [found_argument_missing (by simp)]
    exact UnclosedAmong.error rfl
  | opening :: rest =>
    by_cases opens : opening.kind = .opening
    · rw [found_argument_open opens]
      exact (group_blames opened rest).opening (side?_opening opens)
    · rw [found_argument_missing (by simpa using opens)]
      exact UnclosedAmong.error rfl
termination_by (tokens.length, 1)

theorem group_blames {opening : Token Kind} (opened : List BracketAt) (tokens : List (Token Kind)) :
    Blames (.ofSide opening.span (.parenthesis, true) :: opened) tokens
      (found (group stop opening tokens)) := by
  match tokens with
  | [] =>
    rw [found_group_nil]
    exact UnclosedAmong.error rfl
  | token :: rest =>
    by_cases closes : token.kind = .closing
    · rw [found_group_empty closes]
      exact UnclosedAmong.error rfl
    · rw [found_group closes]
      refine (expression_blames _ (token :: rest)).bind fun inner hinner => ?_
      exact (starts_expression hinner).blames (closingAfter_blames inner.1)
termination_by (tokens.length, 5)

end

theorem ofTokens_blames (stop : Nat) (tokens : List (Token Kind)) :
    BlamesUnpaired side? [] tokens (ofTokens stop tokens) := by
  rw [ofTokens_eq]
  refine (expression_blames [] tokens).bind fun read hfound => ?_
  refine (starts_expression hfound).blames ?_
  cases read.2 with
  | nil => exact UnclosedAmong.ok _
  | cons token rest =>
    simp only [trailing]
    split
    · next closes => exact .unopened (side?_closing closes)
    · exact UnclosedAmong.error rfl
    · exact UnclosedAmong.error rfl

theorem ofSource_unclosed (source : Source) :
    UnclosedAmong (BracketAt.unpaired (BracketAt.inText [.parenthesis] source.glyphs))
      (ofSource source) := by
  rw [ofSource]
  split
  · exact .error rfl
  · rw [← delimits.inTokens_scanFrom]
    exact ofTokens_blames source.stop (lexicon.scan source)

end Calculator.Complex
