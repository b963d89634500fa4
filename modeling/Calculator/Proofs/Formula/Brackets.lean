import Calculator.Proofs.Formula.Derivation
import Calculator.Proofs.Formula.Scanning
import Calculator.Proofs.Text.Brackets

/-!
Unclosed delimiters in formulas. What a reader finds is a phrase, in which every delimiter has its
partner, so a reader knows which groups are open where it starts. An opening delimiter is reported
where the input ends inside its group, and a closing one behind a whole formula.
-/

set_option autoImplicit false
set_option relaxedAutoImplicit false

namespace Calculator.Formula

open BracketAt (Balanced inTokens)

def side? : Kind → Option (Delimiter × Bool)
  | .opening delimiter => some (delimiter, true)
  | .closing delimiter => some (delimiter, false)
  | _ => none

variable {α β : Type} {m : Meaning α} {stop : Nat} {token : Token Kind}
  {tokens rest : List (Token Kind)} {p : Phrase} {delimiter : Delimiter} {f : Formula}
  {opened : List BracketAt}

theorem side?_opening (kind : token.kind = .opening delimiter) :
    side? token.kind = some (delimiter, true) := kind ▸ rfl

theorem side?_closing (kind : token.kind = .closing delimiter) :
    side? token.kind = some (delimiter, false) := kind ▸ rfl

theorem delimits : lexicon.Delimits side? [.parenthesis, .brace] where
  symbol := rfl
  entry := isTable.spellsSide rfl (by decide +kernel)
  known c hc := by
    rcases BracketAt.eq_of_sideOf? hc with ⟨-, rfl | rfl⟩ | ⟨-, rfl | rfl⟩
    · exact ⟨(.single '(', .opening .parenthesis), by simp [lexicon], Pattern.matches_single _⟩
    · exact ⟨(.single ')', .closing .parenthesis), by simp [lexicon], Pattern.matches_single _⟩
    · exact ⟨(.single '\x7b', .opening .brace), by simp [lexicon], Pattern.matches_single _⟩
    · exact ⟨(.single '\x7d', .closing .brace), by simp [lexicon], Pattern.matches_single _⟩

theorem Derives.balanced {a : α} (h : Derives m p tokens a) : Balanced (inTokens side? tokens) := by
  induction h with
  | number kind | x kind | euler kind => exact .of_forall (by simp [kind, side?])
  | call kind opens closes _ ih =>
    rw [BracketAt.inTokens_none (by simp [kind, side?])]
    exact ih.group (side?_opening opens) (side?_closing closes)
  | group opens closes _ ih => exact ih.group (side?_opening opens) (side?_closing closes)
  | primary _ ih | power _ ih | unary _ ih | term _ ih => exact ih
  | plus kind _ ih | minus kind _ ih =>
    rwa [BracketAt.inTokens_none (by simp [kind, side?])]
  | juxtaposed _ _ ihl ihr =>
    rw [BracketAt.inTokens_append]
    exact ihl.append ihr
  | raised _ kind _ ihl ihr | scaled _ kind _ _ ihl ihr | shifted _ kind _ _ ihl ihr =>
    exact ihl.join (kind ▸ rfl) ihr

/-- What a reader finds blames no bracket but one without a partner. -/
abbrev Blames (opened : List BracketAt) (tokens : List (Token Kind)) (x : Found) : Prop :=
  BlamesUnpaired side? opened tokens x

theorem Starts.blames {x : Except Diagnostic β} (h : Starts .tree p tokens f rest)
    (hrest : BlamesUnpaired side? opened rest x) : BlamesUnpaired side? opened tokens x := by
  obtain ⟨read, hread, derived⟩ := h
  exact hrest.after derived.balanced hread

theorem atom_blames {brackets : List BracketAt} : UnclosedAmong brackets (atom token) := by
  rw [atom]
  split
  · split
    · exact .ok _
    · exact .error rfl
  · exact .ok _
  · exact .ok _
  · exact .error rfl
  · exact .error rfl

theorem closingAfter_blames {opening : Token Kind} (inner : Formula) :
    Blames (.ofSide opening.span (delimiter, true) :: opened) tokens
      (closingAfter delimiter opening inner tokens) := by
  cases tokens with
  | nil => exact .unclosed
  | cons token rest =>
    rw [closingAfter]
    split
    · exact UnclosedAmong.ok _
    · exact UnclosedAmong.error rfl

mutual

theorem expression_blames (opened : List BracketAt) (tokens : List (Token Kind)) :
    Blames opened tokens (found (expression stop tokens)) := by
  rw [found_expression]
  refine (term_blames opened tokens).bind fun first hfirst => ?_
  have := length_lt_of_found hfirst
  exact (starts_term hfirst).blames (expressionTail_blames opened first.2)
termination_by (tokens.length, 6)

theorem expressionTail_blames {sum : Formula} (opened : List BracketAt)
    (tokens : List (Token Kind)) :
    Blames opened tokens (found (expressionTail stop sum tokens)) := by
  match tokens with
  | [] =>
    rw [found_expressionTail_nil]
    exact UnclosedAmong.ok _
  | token :: rest =>
    have shift {op : Operator} (kind : token.kind = .operator op) (shifts : op = .add ∨ op = .sub) :
        Blames opened (token :: rest) (found (expressionTail stop sum (token :: rest))) := by
      rw [found_expressionTail_shift kind shifts]
      refine BlamesUnpaired.skip ((term_blames opened rest).bind fun next hnext => ?_) (kind ▸ rfl)
      have := length_lt_of_found hnext
      exact (starts_term hnext).blames (expressionTail_blames opened next.2)
    by_cases add : token.kind = .operator .add
    · exact shift add (.inl rfl)
    by_cases sub : token.kind = .operator .sub
    · exact shift sub (.inr rfl)
    · rw [found_expressionTail_stay add sub]
      exact UnclosedAmong.ok _
termination_by (tokens.length, 5)

theorem term_blames (opened : List BracketAt) (tokens : List (Token Kind)) :
    Blames opened tokens (found (term stop tokens)) := by
  rw [found_term]
  refine (unary_blames opened tokens).bind fun first hfirst => ?_
  have := length_lt_of_found hfirst
  exact (starts_unary hfirst).blames (termTail_blames opened first.2)
termination_by (tokens.length, 5)

theorem termTail_blames {product : Formula} (opened : List BracketAt) (tokens : List (Token Kind)) :
    Blames opened tokens (found (termTail stop product tokens)) := by
  match tokens with
  | [] =>
    rw [found_termTail_nil]
    exact UnclosedAmong.ok _
  | token :: rest =>
    have scale {op : Operator} (kind : token.kind = .operator op) (scales : op = .mul ∨ op = .div) :
        Blames opened (token :: rest) (found (termTail stop product (token :: rest))) := by
      rw [found_termTail_scale kind scales]
      refine BlamesUnpaired.skip ((unary_blames opened rest).bind fun next hnext => ?_) (kind ▸ rfl)
      have := length_lt_of_found hnext
      exact (starts_unary hnext).blames (termTail_blames opened next.2)
    by_cases mul : token.kind = .operator .mul
    · exact scale mul (.inl rfl)
    by_cases div : token.kind = .operator .div
    · exact scale div (.inr rfl)
    cases starts : token.kind.startsFactor with
    | true =>
      rw [found_termTail_factor starts]
      refine (power_blames opened (token :: rest)).bind fun next hnext => ?_
      have := length_lt_of_found hnext
      exact (starts_power hnext).blames (termTail_blames opened next.2)
    | false =>
      rw [found_termTail_stay mul div starts]
      exact UnclosedAmong.ok _
termination_by (tokens.length, 4)

theorem unary_blames (opened : List BracketAt) (tokens : List (Token Kind)) :
    Blames opened tokens (found (unary stop tokens)) := by
  match tokens with
  | [] =>
    rw [found_unary_nil]
    exact power_blames opened []
  | token :: rest =>
    by_cases sub : token.kind = .operator .sub
    · rw [found_unary_minus sub]
      exact BlamesUnpaired.skip ((unary_blames opened rest).bind fun _ _ => .ok _) (sub ▸ rfl)
    by_cases add : token.kind = .operator .add
    · rw [found_unary_plus add]
      exact BlamesUnpaired.skip (unary_blames opened rest) (add ▸ rfl)
    · rw [found_unary_power add sub]
      exact power_blames opened (token :: rest)
termination_by (tokens.length, 4)

theorem power_blames (opened : List BracketAt) (tokens : List (Token Kind)) :
    Blames opened tokens (found (power stop tokens)) := by
  rw [found_power]
  refine (primary_blames opened tokens).bind fun base hbase => ?_
  obtain ⟨base, left⟩ := base
  refine (starts_primary hbase).blames ?_
  match left with
  | [] => exact UnclosedAmong.ok _
  | token :: rest =>
    have : rest.length < tokens.length := Nat.lt_of_succ_lt (length_lt_of_found hbase)
    rw [exponentAfter]
    split
    · next kind =>
      exact BlamesUnpaired.skip ((unary_blames opened rest).bind fun _ _ => .ok _) (kind ▸ rfl)
    · exact UnclosedAmong.ok _
termination_by (tokens.length, 3)

theorem primary_blames (opened : List BracketAt) (tokens : List (Token Kind)) :
    Blames opened tokens (found (primary stop tokens)) := by
  match tokens with
  | [] =>
    rw [found_primary_nil]
    exact UnclosedAmong.error rfl
  | token :: rest =>
    by_cases function : ∃ g, token.kind = .function g
    · obtain ⟨g, kind⟩ := function
      rw [found_primary_function kind]
      exact BlamesUnpaired.skip ((argument_blames opened rest).bind fun _ _ => .ok _) (kind ▸ rfl)
    by_cases opening : ∃ delimiter, token.kind = .opening delimiter
    · obtain ⟨delimiter, opens⟩ := opening
      rw [found_primary_opening opens]
      exact (group_blames opened rest).opening (side?_opening opens)
    · rw [found_primary_atom (fun g kind => function ⟨g, kind⟩)
        fun delimiter kind => opening ⟨delimiter, kind⟩]
      exact atom_blames.map
termination_by (tokens.length, 2)

theorem argument_blames {name : Token Kind} (opened : List BracketAt) (tokens : List (Token Kind)) :
    Blames opened tokens (found (argument stop name tokens)) := by
  match tokens with
  | [] =>
    rw [found_argument_missing (by simp)]
    exact UnclosedAmong.error rfl
  | opening :: rest =>
    by_cases opens : opening.kind = .opening .parenthesis
    · rw [found_argument_open opens]
      exact (group_blames opened rest).opening (side?_opening opens)
    · rw [found_argument_missing (by simpa using opens)]
      exact UnclosedAmong.error rfl
termination_by (tokens.length, 1)

theorem group_blames {delimiter : Delimiter} {opening : Token Kind} (opened : List BracketAt)
    (tokens : List (Token Kind)) :
    Blames (.ofSide opening.span (delimiter, true) :: opened) tokens
      (found (group stop delimiter opening tokens)) := by
  match tokens with
  | [] =>
    rw [found_group_nil]
    exact UnclosedAmong.error rfl
  | token :: rest =>
    by_cases closes : token.kind = .closing delimiter
    · rw [found_group_empty closes]
      exact UnclosedAmong.error rfl
    · rw [found_group closes]
      refine (expression_blames _ (token :: rest)).bind fun inner hinner => ?_
      exact (starts_expression hinner).blames (closingAfter_blames inner.1)
termination_by (tokens.length, 7)

end

theorem outcome_ofTokens_blames (stop : Nat) (tokens : List (Token Kind)) :
    BlamesUnpaired side? [] tokens (ofTokens stop tokens).outcome := by
  rw [outcome_ofTokens]
  refine (expression_blames [] tokens).bind fun read hfound => ?_
  refine (starts_expression hfound).blames ?_
  cases read.2 with
  | nil => exact UnclosedAmong.ok _
  | cons token rest =>
    simp only [trailing]
    split
    · next closes => exact .unopened (side?_closing closes)
    · exact UnclosedAmong.error rfl
    · exact UnclosedAmong.error rfl

theorem outcome_ofSource_unclosed (source : Source) :
    UnclosedAmong (BracketAt.unpaired (BracketAt.inText [.parenthesis, .brace] source.glyphs))
      (ofSource source).outcome := by
  rw [ofSource]
  split
  · exact .error rfl
  · rw [← delimits.inTokens_scanFrom]
    exact outcome_ofTokens_blames source.stop (lexicon.scan source)

end Calculator.Formula
