import Calculator.Proofs.Formula.Reading
import Calculator.Proofs.Formula.Scanning
import Calculator.Proofs.Text.Stripping

/-!
Writing out products changes no formula. A `*` is written before a `(` that follows a factor, where
the grammar reads a product anyway, at the same level and grouped the same way. `Written` relates
the tokens of a text to those of the text with its products written out; a reader that starts where
a factor has to come finds the same in both, and leaves tokens that are related again. It never
fails at a written `*` either: that stands after a factor, where it is taken, so that no error can
point at it.
-/

set_option autoImplicit false
set_option relaxedAutoImplicit false

namespace Calculator.Formula

/-- Whether a token of this kind can end a factor that a written product follows. -/
def Kind.endsFactor : Kind → Bool
  | .number | .variable | .closing .parenthesis => true
  | _ => false

/-- Tokens, and the same tokens with products written out. A product can be written before the
first of them only after a factor. -/
inductive Written : Bool → List (Token Kind) → List (Token Kind) → Prop
  | nil (after : Bool) : Written after [] []
  | keep {after : Bool} (token : Token Kind) {tokens written : List (Token Kind)}
      (rest : Written token.kind.endsFactor tokens written) :
      Written after (token :: tokens) (token :: written)
  | product (token times : Token Kind) {tokens written : List (Token Kind)}
      (opens : token.kind = .opening .parenthesis) (kind : times.kind = .operator .mul)
      (rest : Written token.kind.endsFactor tokens written) :
      Written true (token :: tokens) (times :: token :: written)

theorem Written.weaken {after : Bool} {tokens written : List (Token Kind)}
    (h : Written after tokens written) : Written true tokens written := by
  cases h with
  | nil => exact .nil true
  | keep token rest => exact .keep token rest
  | product token times opens kind rest => exact .product token times opens kind rest

section Scan

open Source (insertProducts insertProducts_cons insertProducts_opening)

variable {previous : Option Char} {glyph : Glyph} {text : List Glyph}

theorem insertProducts_append {c : Char} {run : List Glyph}
    (h : ∀ glyph ∈ run, glyph.char ≠ '(') :
    insertProducts (some c) (run ++ text) =
      run ++ insertProducts (c :: run.map Glyph.char).getLast? text := by
  induction run generalizing c with
  | nil => rfl
  | cons glyph run ih =>
    have hc := h glyph List.mem_cons_self
    rw [List.cons_append, insertProducts_cons (fun hp => hc hp.1),
      ih fun glyph hm => h glyph (List.mem_cons_of_mem _ hm)]
    rw [List.map_cons, List.getLast?_cons_cons, List.cons_append]

theorem words_tail : ∀ entry ∈ lexicon.words, '(' ∉ entry.1.tail ∧ '*' ∉ entry.1.tail := by decide

theorem words_getLast : ∀ entry ∈ lexicon.words, Source.endsFactor entry.1.getLast? = true →
    entry.2.endsFactor = true := by decide

theorem words_of_endsFactor {c : Char} (h : Source.endsFactor (some c) = true)
    (hn : Pattern.isNumeral c = false) : ∃ entry ∈ lexicon.words, entry.1 = [c] := by
  have hc : c = 'x' ∨ c = 'X' ∨ c = ')' := by
    simp only [Pattern.isNumeral, Bool.or_eq_false_iff] at hn
    simpa [Source.endsFactor, hn.1, or_assoc] using h
  rcases hc with rfl | rfl | rfl <;> decide

theorem startsWith_insertProducts {letters : List Char}
    (h : '(' ∉ letters ∧ '*' ∉ letters) :
    Pattern.startsWith letters (insertProducts previous text) =
      Pattern.startsWith letters text := by
  induction letters generalizing previous text with
  | nil => rfl
  | cons c letters ih =>
    obtain ⟨hopen, hstar⟩ := h
    rw [List.mem_cons, not_or] at hopen hstar
    cases text with
    | nil => rfl
    | cons glyph text =>
      by_cases hins : glyph.char = '(' ∧ Source.endsFactor previous = true
      · rw [insertProducts_opening hins.1 hins.2]
        simp [Pattern.startsWith, hins.1, Ne.symm hopen.1, Ne.symm hstar.1]
      · rw [insertProducts_cons hins, Pattern.startsWith, Pattern.startsWith,
          ih ⟨hopen.2, hstar.2⟩]

theorem takeWhile_insertProducts {belongs : Char → Bool} (hopen : belongs '(' = false)
    (hstar : belongs '*' = false) :
    (insertProducts previous text).takeWhile (fun glyph => belongs glyph.char) =
      text.takeWhile fun glyph => belongs glyph.char := by
  induction text generalizing previous with
  | nil => rfl
  | cons glyph text ih =>
    by_cases hins : glyph.char = '(' ∧ Source.endsFactor previous = true
    · rw [insertProducts_opening hins.1 hins.2]
      simp [hins.1, hopen, hstar]
    · rw [insertProducts_cons hins, List.takeWhile_cons, List.takeWhile_cons, ih]

theorem longest_insertProducts :
    lexicon.longest (glyph :: insertProducts previous text) = lexicon.longest (glyph :: text) := by
  refine Lexicon.longest_congr (isTable.forall_entries ?_ fun entry hmem => ?_)
  · simp only [Pattern.matchLength, List.takeWhile_cons]
    rw [takeWhile_insertProducts (by decide) (by decide)]
  · have htail := words_tail entry hmem
    simp only [Pattern.matchLength]
    cases hw : entry.1 with
    | nil => exact absurd hw (isTable.ne_nil entry hmem)
    | cons c letters =>
      rw [hw, List.tail_cons] at htail
      rw [Pattern.startsWith, Pattern.startsWith, startsWith_insertProducts htail]

theorem longest_opening (hc : glyph.char = '(') :
    lexicon.longest (glyph :: text) = (.opening .parenthesis, 1) :=
  Decides.longest (by decide : Decides (['('], .opening .parenthesis)) (by simp [hc])

theorem longest_times (hc : glyph.char = '*') :
    lexicon.longest (glyph :: text) = (.operator .mul, 1) :=
  Decides.longest (by decide : Decides (['*'], .operator .mul)) (by simp [hc])

theorem longest_clear {kind : Kind} {length : Nat}
    (h : lexicon.longest (glyph :: text) = (kind, length)) :
    (∀ inner ∈ text.take (length - 1), inner.char ≠ '(') ∧
      (Source.endsFactor (glyph.char :: (text.take (length - 1)).map Glyph.char).getLast? = true →
        kind.endsFactor = true) := by
  rcases Lexicon.longest_cases lexicon (glyph :: text) with ⟨hs, hzero⟩ | ⟨entry, hmem, hl, hpos⟩
  · obtain ⟨rfl, rfl⟩ := Prod.mk.inj (h.symm.trans hs)
    refine ⟨by simp, fun hend => ?_⟩
    have hnumber := hzero (.run Pattern.isNumeral, .number)
      (isTable.entries_eq ▸ List.mem_cons_self)
    have hn : Pattern.isNumeral glyph.char = false := by
      rw [← Bool.not_eq_true]
      exact fun hn => Nat.ne_of_gt ((Pattern.matchLength_run_pos _).mpr hn) hnumber
    obtain ⟨entry, hmem, hw⟩ := words_of_endsFactor hend hn
    have hword := hzero _ (Lexicon.mem_entries_of_mem_words hmem)
    rw [hw, Pattern.matchLength_word (by simp)] at hword
    cases hword
  · obtain ⟨rfl, rfl⟩ := Prod.mk.inj (h.symm.trans hl)
    rw [isTable.entries_eq] at hmem
    rcases List.mem_cons.mp hmem with rfl | hmem
    · refine ⟨fun inner hi heq => ?_, fun _ => rfl⟩
      have hb := Pattern.belongs_of_mem_take (List.take_cons hpos ▸ List.mem_cons_of_mem _ hi)
      rw [heq] at hb
      cases hb
    · obtain ⟨word, hword, rfl⟩ := List.mem_map.mp hmem
      have hletters := Pattern.map_take_of_word hpos
      rw [List.take_cons hpos, List.map_cons] at hletters
      refine ⟨fun inner hi heq => ?_, fun hend => words_getLast word hword (hletters ▸ hend)⟩
      have htail : inner.char ∈ word.1.tail := hletters ▸ List.mem_map.mpr ⟨inner, hi, rfl⟩
      exact (words_tail word hword).1 (heq ▸ htail)

theorem written_scan {after : Bool} (glyphs : List Glyph) (previous : Option Char)
    (h : Source.endsFactor previous = true → after = true) :
    Written after (lexicon.scanFrom 0 glyphs)
      (lexicon.scanFrom 0 (insertProducts previous glyphs)) := by
  induction glyphs using Lexicon.scan_induction generalizing previous after with
  | nil => exact .nil after
  | cons glyph text ih =>
    by_cases hins : glyph.char = '(' ∧ Source.endsFactor previous = true
    · obtain ⟨hc, hp⟩ := hins
      obtain rfl := h hp
      rw [insertProducts_opening hc hp, Lexicon.scanFrom_cons (longest_opening hc),
        Lexicon.scanFrom_cons (longest_times rfl)]
      rw [Nat.sub_self, List.drop_zero, List.drop_zero, Lexicon.scanFrom_cons (longest_opening hc)]
      refine .product _ _ rfl rfl (ih 0 _ ?_)
      simp [hc, Source.endsFactor]
    · rcases hl : lexicon.longest (glyph :: text) with ⟨kind, length⟩
      have hlong : lexicon.longest (glyph :: insertProducts (some glyph.char) text) =
          (kind, length) := longest_insertProducts.trans hl
      obtain ⟨hclear, hend⟩ := longest_clear hl
      have hlength : length - 1 ≤ text.length := by
        have := Lexicon.length_le_of_longest hl
        rw [List.length_cons] at this
        omega
      have hsplit : insertProducts (some glyph.char)
          (text.take (length - 1) ++ text.drop (length - 1)) = _ := insertProducts_append hclear
      rw [List.take_append_drop] at hsplit
      have hrun : (text.take (length - 1)).length = length - 1 := by
        rw [List.length_take]
        omega
      rw [insertProducts_cons hins, Lexicon.scanFrom_cons hl, Lexicon.scanFrom_cons hlong, hsplit,
        List.take_left' hrun, List.drop_left' hrun]
      exact .keep _ (ih _ _ hend)

end Scan

/-- Both readers find the same formula, and leave tokens that are related, or the same error. -/
inductive Agree (after : Bool) : Found → Found → Prop
  | ok {f : Formula} {tokens written : List (Token Kind)} (rest : Written after tokens written) :
      Agree after (.ok (f, tokens)) (.ok (f, written))
  | error (d : Diagnostic) : Agree after (.error d) (.error d)

theorem Agree.bind {after final : Bool} {x y : Found}
    {next next' : Formula × List (Token Kind) → Found} (h : Agree after x y)
    (hn : ∀ f tokens written, x = .ok (f, tokens) → Written after tokens written →
      Agree final (next (f, tokens)) (next' (f, written))) :
    Agree final (x >>= next) (y >>= next') := by
  cases h with
  | ok rest => exact hn _ _ _ rfl rest
  | error d => exact .error d

section Agree

variable {stop : Nat} {f : Formula} {token : Token Kind}

mutual

theorem agree_expression {tokens written : List (Token Kind)} (h : Written false tokens written) :
    Agree false (found (expression stop tokens)) (found (expression stop written)) := by
  rw [found_expression, found_expression]
  refine (agree_term h).bind fun f between between' hf hb => ?_
  have := length_lt_of_found hf
  exact agree_expressionTail hb
termination_by (tokens.length, 6)

theorem agree_expressionTail {sum : Formula} {tokens written : List (Token Kind)}
    (h : Written false tokens written) :
    Agree false (found (expressionTail stop sum tokens))
      (found (expressionTail stop sum written)) := by
  match h with
  | .nil _ =>
    rw [found_expressionTail_nil]
    exact .ok (.nil false)
  | .keep token rest =>
    by_cases shift : ∃ op, token.kind = .operator op ∧ (op = .add ∨ op = .sub)
    · obtain ⟨op, kind, shifts⟩ := shift
      rw [found_expressionTail_shift kind shifts, found_expressionTail_shift kind shifts]
      rw [kind] at rest
      refine (agree_term rest).bind fun f between between' hf hb => ?_
      have := length_lt_of_found hf
      exact agree_expressionTail hb
    · have add : token.kind ≠ .operator .add := fun kind => shift ⟨_, kind, .inl rfl⟩
      have sub : token.kind ≠ .operator .sub := fun kind => shift ⟨_, kind, .inr rfl⟩
      rw [found_expressionTail_stay add sub, found_expressionTail_stay add sub]
      exact .ok (.keep token rest)
termination_by (tokens.length, 5)

theorem agree_term {tokens written : List (Token Kind)} (h : Written false tokens written) :
    Agree false (found (term stop tokens)) (found (term stop written)) := by
  rw [found_term, found_term]
  refine (agree_unary h).bind fun f between between' hf hb => ?_
  have := length_lt_of_found hf
  exact agree_termTail hb
termination_by (tokens.length, 5)

theorem agree_termTail {product : Formula} {tokens written : List (Token Kind)}
    (h : Written true tokens written) :
    Agree false (found (termTail stop product tokens)) (found (termTail stop product written)) := by
  match h with
  | .nil _ =>
    rw [found_termTail_nil]
    exact .ok (.nil false)
  | .keep token rest =>
    by_cases scale : ∃ op, token.kind = .operator op ∧ (op = .mul ∨ op = .div)
    · obtain ⟨op, kind, scales⟩ := scale
      rw [found_termTail_scale kind scales, found_termTail_scale kind scales]
      rw [kind] at rest
      refine (agree_unary rest).bind fun f between between' hf hb => ?_
      have := length_lt_of_found hf
      exact agree_termTail hb
    · cases starts : token.kind.startsFactor with
      | true =>
        rw [found_termTail_factor starts, found_termTail_factor starts]
        refine (agree_power (.keep token rest)).bind fun f between between' hf hb => ?_
        have := length_lt_of_found hf
        exact agree_termTail hb
      | false =>
        have mul : token.kind ≠ .operator .mul := fun kind => scale ⟨_, kind, .inl rfl⟩
        have div : token.kind ≠ .operator .div := fun kind => scale ⟨_, kind, .inr rfl⟩
        rw [found_termTail_stay mul div starts, found_termTail_stay mul div starts]
        exact .ok (.keep token rest)
  -- Only here the two read different tokens: a factor on its own, and the same after a `*`.
  | .product token times opens kind rest =>
    rw [found_termTail_factor (by rw [opens]; rfl), found_termTail_scale kind (.inl rfl),
      found_unary_power (by simp [opens]) (by simp [opens])]
    refine (agree_power (.keep token rest)).bind fun f between between' hf hb => ?_
    have := length_lt_of_found hf
    exact agree_termTail hb
termination_by (tokens.length, 4)

theorem agree_unary {tokens written : List (Token Kind)} (h : Written false tokens written) :
    Agree true (found (unary stop tokens)) (found (unary stop written)) := by
  match h with
  | .nil _ =>
    rw [found_unary_nil]
    exact agree_power (.nil false)
  | .keep token rest =>
    by_cases minus : token.kind = .operator .sub
    · rw [found_unary_minus minus, found_unary_minus minus]
      rw [minus] at rest
      exact (agree_unary rest).bind fun f between between' hf hb => .ok hb
    by_cases plus : token.kind = .operator .add
    · rw [found_unary_plus plus, found_unary_plus plus]
      rw [plus] at rest
      exact agree_unary rest
    · rw [found_unary_power plus minus, found_unary_power plus minus]
      exact agree_power (.keep token rest)
termination_by (tokens.length, 4)

theorem agree_power {tokens written : List (Token Kind)} (h : Written false tokens written) :
    Agree true (found (power stop tokens)) (found (power stop written)) := by
  rw [found_power, found_power]
  refine (agree_primary h).bind fun f between between' hf hb => ?_
  have := length_lt_of_found hf
  match hb with
  | .nil _ => exact .ok (.nil true)
  | .keep token rest =>
    by_cases kind : token.kind = .operator .pow
    · have := Nat.lt_of_succ_lt this
      simp only [exponentAfter, kind, if_true]
      rw [kind] at rest
      exact (agree_unary rest).bind fun f between between' hf hb => .ok hb
    · simp only [exponentAfter, kind, if_false]
      exact .ok (.keep token rest)
  | .product token times opens kind rest =>
    simp only [exponentAfter, opens, kind]
    exact .ok (.product token times opens kind rest)
termination_by (tokens.length, 3)

theorem agree_primary {tokens written : List (Token Kind)} (h : Written false tokens written) :
    Agree true (found (primary stop tokens)) (found (primary stop written)) := by
  match h with
  | .nil _ =>
    rw [found_primary_nil]
    exact .error _
  | .keep token rest =>
    by_cases function : ∃ g, token.kind = .function g
    · obtain ⟨g, kind⟩ := function
      rw [found_primary_function kind, found_primary_function kind]
      rw [kind] at rest
      exact (agree_argument rest).bind fun f between between' hf hb => .ok hb
    by_cases opens : ∃ delimiter, token.kind = .opening delimiter
    · obtain ⟨delimiter, opens⟩ := opens
      rw [found_primary_opening opens, found_primary_opening opens]
      rw [opens] at rest
      exact agree_group rest
    · have function (g : Builtin) : token.kind ≠ .function g := fun kind => function ⟨g, kind⟩
      have opens (delimiter : Delimiter) : token.kind ≠ .opening delimiter :=
        fun kind => opens ⟨delimiter, kind⟩
      rw [found_primary_atom function opens, found_primary_atom function opens]
      cases atom token with
      | error d => exact .error d
      | ok f => exact .ok rest.weaken
termination_by (tokens.length, 2)

theorem agree_argument {name : Token Kind} {tokens written : List (Token Kind)}
    (h : Written false tokens written) :
    Agree true (found (argument stop name tokens)) (found (argument stop name written)) := by
  match h with
  | .nil _ =>
    rw [found_argument_missing (by simp)]
    exact .error _
  | .keep opening rest =>
    by_cases opens : opening.kind = .opening .parenthesis
    · rw [found_argument_open opens, found_argument_open opens]
      rw [opens] at rest
      exact agree_group rest
    · rw [found_argument_missing (by simpa using opens),
        found_argument_missing (by simpa using opens)]
      exact .error _
termination_by (tokens.length, 1)

theorem agree_group {delimiter : Delimiter} {opening : Token Kind}
    {tokens written : List (Token Kind)} (h : Written false tokens written) :
    Agree true (found (group stop delimiter opening tokens))
      (found (group stop delimiter opening written)) := by
  match h with
  | .nil _ =>
    rw [found_group_nil]
    exact .error _
  | .keep token rest =>
    by_cases closes : token.kind = .closing delimiter
    · rw [found_group_empty closes, found_group_empty closes]
      exact .error _
    · rw [found_group closes, found_group closes]
      refine (agree_expression (.keep token rest)).bind fun f between between' hf hb => ?_
      match hb with
      | .nil _ => exact .error _
      | .keep closing rest =>
        by_cases closes : closing.kind = .closing delimiter
        · simp only [closingAfter, closes, if_true]
          exact .ok rest.weaken
        · simp only [closingAfter, closes, if_false]
          exact .error _
termination_by (tokens.length, 7)

end

end Agree

theorem outcome_ofTokens_of_written {stop : Nat} {tokens written : List (Token Kind)}
    (h : Written false tokens written) :
    (ofTokens stop written).outcome = (ofTokens stop tokens).outcome := by
  have hagree : Agree false (found (expression stop tokens)) (found (expression stop written)) :=
    agree_expression h
  rw [outcome_ofTokens, outcome_ofTokens]
  generalize found (expression stop tokens) = x at hagree ⊢
  generalize found (expression stop written) = y at hagree ⊢
  cases hagree with
  | error d => rfl
  | ok rest =>
    cases rest with
    | nil => rfl
    | keep token rest => rfl

theorem isEmpty_withProducts (source : Source) : source.withProducts.isEmpty = source.isEmpty := by
  obtain ⟨glyphs, stop⟩ := source
  cases glyphs with
  | nil => rfl
  | cons glyph glyphs =>
    simp only [Source.withProducts, Source.isEmpty, Source.insertProducts]
    split <;> rfl

theorem outcome_ofSource_withProducts (source : Source) :
    (ofSource source.withProducts).outcome = (ofSource source).outcome := by
  have hscan : Written false (lexicon.scan source) (lexicon.scan source.withProducts) :=
    written_scan source.glyphs none (by simp [Source.endsFactor])
  simp only [ofSource, isEmpty_withProducts]
  split
  · rfl
  · exact outcome_ofTokens_of_written hscan

end Calculator.Formula

namespace Calculator.RealFunction

/-- Reading a function gives the same function, or the same error at the same place, whether or not
products are written out first. -/
theorem parse_eq_without_products (maxPower : Nat) (input : String) :
    parse maxPower input =
      (Formula.ofSource (Source.strip input)).outcome.map (Formula.compile maxPower) := by
  rw [parse, Formula.parse, Formula.sourceOf, Formula.outcome_ofSource_withProducts]

end Calculator.RealFunction
