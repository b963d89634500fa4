import Calculator.Proofs.Formula.Derivation
import Calculator.Proofs.Formula.Placement
import Calculator.Proofs.Formula.Products
import Calculator.Proofs.Text.Mending

/-!
Malformed numbers in formulas. Reading a formula reaches its numbers from left to right, and what is
read before a number depends on nothing behind it. So where a malformed number stands in place of a
number of a formula, that number is reported, whatever follows it.
-/

set_option autoImplicit false
set_option relaxedAutoImplicit false

namespace Calculator.Formula

variable {α : Type} {m : Meaning α} {stop : Nat} {tokens rest front back : List (Token Kind)}
  {one bad token : Token Kind} {p : Phrase}

theorem numbersApart : lexicon.NumbersApart .number :=
  isTable.numbersApart (by decide) (by decide +kernel)

def Phrase.found (stop : Nat) : Phrase → List (Token Kind) → Found
  | .primary, tokens => Formula.found (Formula.primary stop tokens)
  | .power, tokens => Formula.found (Formula.power stop tokens)
  | .unary, tokens => Formula.found (Formula.unary stop tokens)
  | .term, tokens => Formula.found (Formula.term stop tokens)
  | .expression, tokens => Formula.found (Formula.expression stop tokens)

/-- A malformed number in place of any number of these tokens is what a reader of the phrase fails
at, whatever comes next. -/
def Stumbles (p : Phrase) (tokens : List (Token Kind)) : Prop :=
  ∀ front one back, tokens = front ++ one :: back → one.kind = .number →
    ∀ (bad : Token Kind), bad.isMalformed .number = true → ∀ stop rest,
      p.found stop (front ++ bad :: rest) = .error bad.notANumber

namespace Stumbles

variable {f : Formula} {ls rs : List (Token Kind)} {op : Operator}

theorem single (token : Token Kind) : Stumbles .primary [token] := by
  intro front one back hsplit kind bad hbad stop rest
  obtain ⟨number, unread⟩ := Token.isMalformed_iff.mp hbad
  have hatom : Formula.atom bad = .error bad.notANumber := by
    simp only [Formula.atom, number, unread]
    rfl
  cases front with
  | nil =>
    rw [List.nil_append, Phrase.found, found_primary_atom (by simp [number]) (by simp [number]),
      hatom]
    rfl
  | cons first front => simp at hsplit

theorem inGroup {delimiter : Delimiter} {opening : Token Kind} (h : Stumbles .expression tokens)
    (nonempty : ∃ token tail, tokens = token :: tail ∧ ∀ delimiter, token.kind ≠ .closing delimiter)
    (hsplit : tokens = front ++ one :: back) (kind : one.kind = .number)
    (hbad : bad.isMalformed .number = true) (stop : Nat) (rest : List (Token Kind)) :
    found (Formula.group stop delimiter opening (front ++ bad :: rest)) =
      .error bad.notANumber := by
  obtain ⟨first, tail, rfl, ne⟩ := nonempty
  obtain ⟨token, more, htokens, hkind⟩ := Tokens.exists_front_kind hsplit
    (kind.trans (Token.isMalformed_iff.mp hbad).1.symm) rest
  have hfound : found (Formula.expression stop (front ++ bad :: rest)) = .error bad.notANumber :=
    h front one back hsplit kind bad hbad stop rest
  rw [htokens] at hfound ⊢
  rw [found_group (hkind ▸ ne delimiter), hfound]
  rfl

theorem call {name opening closing : Token Kind} {g : Builtin} (kind : name.kind = .function g)
    (opens : opening.kind = .opening .parenthesis) (closes : closing.kind = .closing .parenthesis)
    (nonempty : ∃ token tail, tokens = token :: tail ∧ ∀ delimiter, token.kind ≠ .closing delimiter)
    (h : Stumbles .expression tokens) :
    Stumbles .primary (name :: opening :: (tokens ++ [closing])) := by
  intro front one back hsplit number bad hbad stop rest
  obtain ⟨more, rfl, hrest⟩ := Tokens.split_cons hsplit (by simp [kind, number])
  obtain ⟨inside, last, rfl, hinner, -⟩ :=
    Tokens.split_enclosed hrest (by simp [opens, number]) (by simp [closes, number])
  rw [Phrase.found, List.cons_append, List.cons_append, found_primary_function kind,
    found_argument_open opens, h.inGroup nonempty hinner number hbad]
  rfl

theorem group {opening closing : Token Kind} {delimiter : Delimiter}
    (opens : opening.kind = .opening delimiter) (closes : closing.kind = .closing delimiter)
    (nonempty : ∃ token tail, tokens = token :: tail ∧ ∀ delimiter, token.kind ≠ .closing delimiter)
    (h : Stumbles .expression tokens) : Stumbles .primary (opening :: (tokens ++ [closing])) := by
  intro front one back hsplit number bad hbad stop rest
  obtain ⟨inside, last, rfl, hinner, -⟩ :=
    Tokens.split_enclosed hsplit (by simp [opens, number]) (by simp [closes, number])
  rw [Phrase.found, List.cons_append, found_primary_opening opens,
    h.inGroup nonempty hinner number hbad]

theorem primary (h : Stumbles .primary tokens) : Stumbles .power tokens := by
  intro front one back hsplit number bad hbad stop rest
  have hfound : found (Formula.primary stop (front ++ bad :: rest)) = .error bad.notANumber :=
    h front one back hsplit number bad hbad stop rest
  rw [Phrase.found, found_power, hfound]
  rfl

theorem raised (finds : Finds .primary ls f) (lhs : Stumbles .primary ls)
    (kind : token.kind = .operator .pow) (rhs : Stumbles .unary rs) :
    Stumbles .power (ls ++ token :: rs) := by
  intro front one back hsplit number bad hbad stop rest
  rcases Tokens.split_between hsplit (by simp [kind, number]) with
    ⟨more, hls, -⟩ | ⟨more, rfl, hrs⟩
  · exact lhs.primary front one more hls number bad hbad stop rest
  · have hfound : found (Formula.unary stop (more ++ bad :: rest)) = .error bad.notANumber :=
      rhs more one back hrs number bad hbad stop rest
    rw [Phrase.found, found_power, List.append_assoc, List.cons_append, finds]
    simp only [bind, Except.bind, exponentAfter, kind, if_true, hfound]

theorem power (h : Stumbles .power tokens)
    (starts : ∃ token tail, tokens = token :: tail ∧ token.kind.startsFactor = true) :
    Stumbles .unary tokens := by
  intro front one back hsplit number bad hbad stop rest
  have hfound : found (Formula.power stop (front ++ bad :: rest)) = .error bad.notANumber :=
    h front one back hsplit number bad hbad stop rest
  obtain ⟨first, tail, rfl, starts⟩ := starts
  obtain ⟨token, more, htokens, hkind⟩ := Tokens.exists_front_kind hsplit
    (number.trans (Token.isMalformed_iff.mp hbad).1.symm) rest
  have unsigned (op : Operator) : token.kind ≠ .operator op := by
    intro kind
    simp [← hkind, kind, Kind.startsFactor] at starts
  rw [htokens] at hfound
  rwa [Phrase.found, htokens, found_unary_power (unsigned _) (unsigned _)]

theorem plus (kind : token.kind = .operator .add) (h : Stumbles .unary tokens) :
    Stumbles .unary (token :: tokens) := by
  intro front one back hsplit number bad hbad stop rest
  obtain ⟨more, rfl, hrest⟩ := Tokens.split_cons hsplit (by simp [kind, number])
  rw [Phrase.found, List.cons_append, found_unary_plus kind]
  exact h more one back hrest number bad hbad stop rest

theorem minus (kind : token.kind = .operator .sub) (h : Stumbles .unary tokens) :
    Stumbles .unary (token :: tokens) := by
  intro front one back hsplit number bad hbad stop rest
  obtain ⟨more, rfl, hrest⟩ := Tokens.split_cons hsplit (by simp [kind, number])
  have hfound : found (Formula.unary stop (more ++ bad :: rest)) = .error bad.notANumber :=
    h more one back hrest number bad hbad stop rest
  rw [Phrase.found, List.cons_append, found_unary_minus kind, hfound]
  rfl

theorem unary (h : Stumbles .unary tokens) : Stumbles .term tokens := by
  intro front one back hsplit number bad hbad stop rest
  have hfound : found (Formula.unary stop (front ++ bad :: rest)) = .error bad.notANumber :=
    h front one back hsplit number bad hbad stop rest
  rw [Phrase.found, found_term, hfound]
  rfl

theorem scaled (finds : Finds .term ls f) (lhs : Stumbles .term ls)
    (kind : token.kind = .operator op) (scales : op = .mul ∨ op = .div)
    (rhs : Stumbles .unary rs) : Stumbles .term (ls ++ token :: rs) := by
  intro front one back hsplit number bad hbad stop rest
  rcases Tokens.split_between hsplit (by simp [kind, number]) with
    ⟨more, hls, -⟩ | ⟨more, rfl, hrs⟩
  · exact lhs front one more hls number bad hbad stop rest
  · have hfound : found (Formula.unary stop (more ++ bad :: rest)) = .error bad.notANumber :=
      rhs more one back hrs number bad hbad stop rest
    have hop : EndsPower (token :: (more ++ bad :: rest)) := by
      rcases scales with rfl | rfl <;> simp [EndsPower, kind]
    rw [Phrase.found, List.append_assoc, List.cons_append, finds stop _ hop,
      found_termTail_scale kind scales, hfound]
    rfl

theorem juxtaposed (finds : Finds .term ls f) (lhs : Stumbles .term ls) (rhs : Stumbles .power rs)
    (starts : ∃ token tail, rs = token :: tail ∧ token.kind.startsFactor = true) :
    Stumbles .term (ls ++ rs) := by
  intro front one back hsplit number bad hbad stop rest
  rcases Tokens.split_append hsplit with ⟨more, hls, -⟩ | ⟨more, rfl, hrs⟩
  · exact lhs front one more hls number bad hbad stop rest
  · have hfound : found (Formula.power stop (more ++ bad :: rest)) = .error bad.notANumber :=
      rhs more one back hrs number bad hbad stop rest
    obtain ⟨first, tail, rfl, starts⟩ := starts
    obtain ⟨token, after, htokens, hkind⟩ := Tokens.exists_front_kind hrs
      (number.trans (Token.isMalformed_iff.mp hbad).1.symm) rest
    rw [← hkind] at starts
    have hfactor : EndsPower (token :: after) := by
      rintro _ ⟨rfl⟩ kind
      simp [kind, Kind.startsFactor] at starts
    rw [htokens] at hfound
    rw [Phrase.found, List.append_assoc, htokens, finds stop _ hfactor,
      found_termTail_factor starts, hfound]
    rfl

theorem term (h : Stumbles .term tokens) : Stumbles .expression tokens := by
  intro front one back hsplit number bad hbad stop rest
  have hfound : found (Formula.term stop (front ++ bad :: rest)) = .error bad.notANumber :=
    h front one back hsplit number bad hbad stop rest
  rw [Phrase.found, found_expression, hfound]
  rfl

theorem shifted (finds : Finds .expression ls f) (lhs : Stumbles .expression ls)
    (kind : token.kind = .operator op) (shifts : op = .add ∨ op = .sub)
    (rhs : Stumbles .term rs) : Stumbles .expression (ls ++ token :: rs) := by
  intro front one back hsplit number bad hbad stop rest
  rcases Tokens.split_between hsplit (by simp [kind, number]) with
    ⟨more, hls, -⟩ | ⟨more, rfl, hrs⟩
  · exact lhs front one more hls number bad hbad stop rest
  · have hfound : found (Formula.term stop (more ++ bad :: rest)) = .error bad.notANumber :=
      rhs more one back hrs number bad hbad stop rest
    have hop : EndsTerm (token :: (more ++ bad :: rest)) := by
      rcases shifts with rfl | rfl <;> simp [EndsTerm, kind, Kind.startsFactor]
    rw [Phrase.found, List.append_assoc, List.cons_append, finds stop _ hop,
      found_expressionTail_shift kind shifts, hfound]
    rfl

end Stumbles

theorem Derives.stumbles {a : α} (h : Derives m p tokens a) : Stumbles p tokens := by
  induction h with
  | number | x | euler => exact .single _
  | call kind opens closes inside ih => exact ih.call kind opens closes inside.head_ne_closing
  | group opens closes inside ih => exact ih.group opens closes inside.head_ne_closing
  | primary _ ih => exact ih.primary
  | raised lhs kind _ ihl ihr =>
    obtain ⟨f, -, finds⟩ := lhs.finds
    exact ihl.raised finds kind ihr
  | power h ih => exact ih.power (h.startsFactor (.inl rfl))
  | plus kind _ ih => exact ih.plus kind
  | minus kind _ ih => exact ih.minus kind
  | unary _ ih => exact ih.unary
  | scaled lhs kind scales _ ihl ihr =>
    obtain ⟨f, -, finds⟩ := lhs.finds
    exact ihl.scaled finds kind scales ihr
  | juxtaposed lhs factor ihl ihr =>
    obtain ⟨f, -, finds⟩ := lhs.finds
    exact ihl.juxtaposed finds ihr (factor.startsFactor (.inl rfl))
  | term _ ih => exact ih.term
  | shifted lhs kind shifts _ ihl ihr =>
    obtain ⟨f, -, finds⟩ := lhs.finds
    exact ihl.shifted finds kind shifts ihr

theorem ofTokens_malformed {a : α} (derived : Derives m .expression (front ++ one :: back) a)
    (kind : one.kind = .number) (hbad : bad.isMalformed .number = true) (stop : Nat)
    (rest : List (Token Kind)) :
    (ofTokens stop (front ++ bad :: rest)).outcome = .error bad.notANumber := by
  have hfound : found (expression stop (front ++ bad :: rest)) = .error bad.notANumber :=
    derived.stumbles front one back rfl kind bad hbad stop rest
  rw [outcome_ofTokens, hfound]
  rfl

theorem Written.filter_malformed {after : Bool} {written : List (Token Kind)}
    (h : Written after tokens written) :
    written.filter (Token.isMalformed .number) = tokens.filter (Token.isMalformed .number) := by
  induction h with
  | nil => rfl
  | keep token _ ih => rw [List.filter_cons, List.filter_cons, ih]
  | product token times _ kind _ ih =>
    have hgood : times.isMalformed .number = false := by simp [Token.isMalformed, kind]
    rw [List.filter_cons_of_neg (by simp [hgood]), List.filter_cons, List.filter_cons, ih]

theorem filter_malformed_sourceOf (input : String) :
    (lexicon.scan (sourceOf input)).filter (Token.isMalformed .number) =
      (lexicon.scan (Source.strip input)).filter (Token.isMalformed .number) := by
  have hwritten : Written false (lexicon.scan (Source.strip input))
      (lexicon.scan (sourceOf input)) :=
    written_scan _ none (by simp [Source.endsFactor])
  exact hwritten.filter_malformed

theorem parse_eq_ofSource_strip (input : String) :
    parse input = (ofSource (Source.strip input)).outcome :=
  outcome_ofSource_withProducts (Source.strip input)

theorem ofTokens_of_ofSource {source : Source} {f : Formula}
    (h : (ofSource source).outcome = .ok f) :
    (ofTokens source.stop (lexicon.scan source)).outcome = .ok f := by
  rw [ofSource] at h
  split at h
  · cases h
  · exact h

theorem ofSource_eq_ofTokens {source : Source} (h : lexicon.scan source ≠ []) :
    ofSource source = ofTokens source.stop (lexicon.scan source) := by
  refine if_neg fun hempty => h ?_
  rw [Lexicon.scan, List.isEmpty_iff.mp hempty]
  rfl

theorem parse_malformed {input : String} {f : Formula}
    (h : FirstMalformed .number (lexicon.scan (sourceOf input)) front bad)
    (accepted : parse (Source.withOnes
      (Tokens.malformed .number (lexicon.scan (sourceOf input))) input) = .ok f) :
    parse input = .error bad.notANumber := by
  -- Products that are written out make no difference to the malformed numbers or to what is read.
  obtain ⟨before, hfirst⟩ := h.of_filter_eq (filter_malformed_sourceOf input)
  rw [Tokens.malformed, filter_malformed_sourceOf] at accepted
  obtain ⟨back, htokens, hmended⟩ := hfirst.map_mend
  generalize hinput : Source.withOnes _ input = mended at accepted
  have halike : Tokens.Alike (.loose 0 (Source.strip mended).stop)
      ((lexicon.scan (Source.strip input)).map (Token.mend .number))
      (lexicon.scan (Source.strip mended)) := by
    rw [← hinput]
    exact Source.scan_withOnes numbersApart input
  have hread : SameOutcome _ Eq
      (ofTokens 0 ((lexicon.scan (Source.strip input)).map (Token.mend .number))).outcome
      (ofTokens (Source.strip mended).stop (lexicon.scan (Source.strip mended))).outcome :=
    ofTokens_alike halike
  rw [parse_eq_ofSource_strip] at accepted
  rw [ofTokens_of_ofSource accepted, hmended] at hread
  obtain ⟨g, hg, -⟩ := hread.exists_ok
  have kind : (bad.mend .number).kind = .number :=
    (Token.kind_mend _ _).trans (Token.isMalformed_iff.mp h.malformed).1
  rw [parse_eq_ofSource_strip, ofSource_eq_ofTokens (by simp [htokens]), htokens]
  exact ofTokens_malformed (derives_of_ofTokens (m := .tree) hg) kind h.malformed _ _

end Calculator.Formula
