import Calculator.Proofs.Arith.Grouping
import Calculator.Proofs.Arith.Placement
import Calculator.Proofs.Arith.Scanning
import Calculator.Proofs.Text.Mending

/-!
Malformed numbers in arithmetic. A run comes to the numbers of an input from left to right, except
that it looks for the end of a call before it reads the argument. So where a malformed number stands
in place of a number of an expression, that number is reported, as long as what follows it has
tokens of the same kinds as before.
-/

set_option autoImplicit false
set_option relaxedAutoImplicit false

namespace Calculator.Arith

variable {stop : Span} {tokens others rest front back : List (Token Kind)}
  {one bad token : Token Kind} {p q : Phrase}

theorem numbersApart : lexicon.NumbersApart .number where
  symbol := by decide
  numeral := by
    rw [entries_eq]
    exact List.mem_cons_self
  other := by
    refine forall_entries (.inl rfl) (.inr ⟨by decide, fun letters hname c hc => ?_⟩) ?_
    · by_contra hnumeral
      have halpha := isAlpha_of_isNumeral (Bool.not_eq_false _ ▸ hnumeral)
      rw [hname.2 c hc] at halpha
      cases halpha
    · have hwords : ∀ entry ∈ lexicon.words,
          entry.2 ≠ .number ∧ entry.1.any Pattern.isNumeral = false := by decide +kernel
      refine fun entry hmem => .inr ⟨(hwords entry hmem).1, fun letters hword c hc => ?_⟩
      rw [hword.2] at hc
      exact Bool.eq_false_iff.mpr (List.any_eq_false.mp (hwords entry hmem).2 c hc)

theorem splitClosing_of_kinds {depth : Nat} {inner after : List (Token Kind)} {closing : Token Kind}
    (kinds : others.map Token.kind = tokens.map Token.kind)
    (h : splitClosing depth tokens = some (inner, closing, after)) :
    ∃ inner' closing' after', splitClosing depth others = some (inner', closing', after') ∧
      inner'.length = inner.length := by
  induction tokens generalizing others depth inner with
  | nil => cases h
  | cons token tokens ih =>
    obtain ⟨other, others, rfl, kind, hrest⟩ := List.map_eq_cons_iff.mp kinds
    have deeper {inside : Nat}
        (h : (splitClosing inside tokens).map (prepend [token]) = some (inner, closing, after)) :
        ∃ inner' closing' after', (splitClosing inside others).map (prepend [other]) =
          some (inner', closing', after') ∧ inner'.length = inner.length := by
      obtain ⟨⟨i, c, a⟩, hs, he⟩ := Option.map_eq_some_iff.mp h
      simp only [prepend, Prod.mk.injEq] at he
      obtain ⟨rfl, rfl, rfl⟩ := he
      obtain ⟨i', c', a', hs', hlength⟩ := ih hrest hs
      exact ⟨[other] ++ i', c', a', by rw [hs']; rfl, by simp [hlength]⟩
    by_cases opens : token.kind = .opening
    · rw [splitClosing_opening opens] at h
      rw [splitClosing_opening (kind.trans opens)]
      exact deeper h
    by_cases closes : token.kind = .closing
    · cases depth with
      | succ depth =>
        rw [splitClosing_closing closes] at h
        rw [splitClosing_closing (kind.trans closes)]
        exact deeper h
      | zero =>
        rw [splitClosing_end closes] at h
        rw [splitClosing_end (kind.trans closes)]
        cases h
        exact ⟨_, _, _, rfl, rfl⟩
    · rw [splitClosing_other opens closes] at h
      rw [splitClosing_other (kind ▸ opens) (kind ▸ closes)]
      exact deeper h

theorem Derives.splitClosing_of_kinds {e : Expr} {closing : Token Kind}
    (h : Derives p tokens e) (kinds : others.map Token.kind = tokens.map Token.kind)
    (closes : closing.kind = .closing) (rest : List (Token Kind)) :
    splitClosing 0 (others ++ closing :: rest) = some (others, closing, rest) := by
  have hsplit : splitClosing 0 (tokens ++ closing :: rest) = some (tokens, closing, rest) := by
    rw [h.splitClosing_append, splitClosing_end closes]
    simp [prepend]
  have hkinds : (others ++ closing :: rest).map Token.kind =
      (tokens ++ closing :: rest).map Token.kind := by
    rw [List.map_append, List.map_append, kinds]
  obtain ⟨inner, last, after, hfound, hlength⟩ := Arith.splitClosing_of_kinds hkinds hsplit
  obtain ⟨htokens, -⟩ := eq_of_splitClosing hfound
  have hsame : others.length = inner.length := by
    rw [hlength, ← List.length_map, kinds, List.length_map]
  obtain ⟨rfl, hrest⟩ := List.append_inj htokens hsame
  obtain ⟨rfl, rfl⟩ := List.cons.inj hrest
  exact hfound

/-- A malformed number in place of any number of these tokens makes a run fail there, where an
operand has to come and whatever comes next, if the tokens behind it are of the same kinds as
before. -/
def Stumbles (p : Phrase) (tokens : List (Token Kind)) : Prop :=
  ∀ front one back, tokens = front ++ one :: back → one.kind = .number →
    ∀ (bad : Token Kind), bad.isMalformed .number = true →
    ∀ after, after.map Token.kind = back.map Token.kind →
    ∀ stop pending operands previous rest, Firm p pending →
      parseFrom stop ⟨operands, pending, .operand, previous⟩ (front ++ bad :: (after ++ rest)) =
        .error bad.notANumber

namespace Stumbles

variable {ls rs : List (Token Kind)} {l e : Expr}

theorem loosen (h : Stumbles q tokens) (hle : p.rank ≤ q.rank) : Stumbles p tokens := by
  intro front one back hsplit number bad hbad after kinds stop pending operands previous rest firm
  exact h front one back hsplit number bad hbad after kinds stop pending operands previous rest
    (firm.tighten hle)

theorem single (token : Token Kind) : Stumbles .atom [token] := by
  intro front one back hsplit number bad hbad after kinds stop pending operands previous rest firm
  obtain ⟨number, unread⟩ := Token.isMalformed_iff.mp hbad
  cases front with
  | cons first front => simp at hsplit
  | nil =>
    rw [List.nil_append, parseFrom_step (callHead?_eq_none_of_kind (by simp [number]))]
    simp only [State.step, number, unread]
    rfl

theorem group {opening closing : Token Kind} (opens : opening.kind = .opening)
    (closes : closing.kind = .closing) (h : Stumbles .expression tokens) :
    Stumbles .atom (opening :: (tokens ++ [closing])) := by
  intro front one back hsplit number bad hbad after kinds stop pending operands previous rest firm
  obtain ⟨inside, last, rfl, hinner, rfl⟩ :=
    Tokens.split_enclosed hsplit (by simp [opens, number]) (by simp [closes, number])
  rw [List.map_append, List.map_eq_append_iff] at kinds
  obtain ⟨behind, closing', rfl, hbehind, -⟩ := kinds
  have hopen : State.step ⟨operands, pending, .operand, previous⟩ opening =
      .ok ⟨operands, .opening opening.span :: pending, .operand, some opening⟩ := by
    simp only [State.step, opens]
  rw [List.cons_append, parseFrom_step (callHead?_eq_none_of_kind (by simp [opens])), hopen,
    List.append_assoc]
  exact h inside one last hinner number bad hbad behind hbehind stop _ _ _ _
    (Firm.opening opening.span)

theorem call {name opening closing : Token Kind} {f : Builtin} (kind : name.kind = .name)
    (known : Builtin.ofName? name.text = some f) (opens : opening.kind = .opening)
    (closes : closing.kind = .closing) (derived : Derives .expression tokens e)
    (h : Stumbles .expression tokens) :
    Stumbles .atom (name :: opening :: (tokens ++ [closing])) := by
  intro front one back hsplit number bad hbad after kinds stop pending operands previous rest firm
  obtain ⟨more, rfl, hrest⟩ := Tokens.split_cons hsplit (by simp [kind, number])
  obtain ⟨inside, last, rfl, hinner, rfl⟩ :=
    Tokens.split_enclosed hrest (by simp [opens, number]) (by simp [closes, number])
  rw [List.map_append, List.map_eq_append_iff] at kinds
  obtain ⟨behind, closings, rfl, hbehind, hclosings⟩ := kinds
  obtain ⟨closing', rfl, hclosing⟩ := List.map_eq_singleton_iff.mp hclosings
  -- The argument ends where it did before, so that the number is read in a run of its own.
  have hargument : (inside ++ bad :: behind).map Token.kind = tokens.map Token.kind := by
    rw [hinner, List.map_append, List.map_append, List.map_cons, List.map_cons, hbehind, number,
      (Token.isMalformed_iff.mp hbad).1]
  have hsplit : splitClosing 0 ((inside ++ bad :: behind) ++ closing' :: rest) =
      some (inside ++ bad :: behind, closing', rest) :=
    derived.splitClosing_of_kinds hargument (hclosing.trans closes) rest
  have hinside : parseFrom (Span.point closing'.span.start) State.initial
      (inside ++ bad :: behind) = .error bad.notANumber := by
    have hread := h inside one last hinner number bad hbad behind hbehind
      (Span.point closing'.span.start) [] [] none [] Firm.nil
    rwa [List.append_nil] at hread
  have htokens : inside ++ bad :: ((behind ++ [closing']) ++ rest) =
      (inside ++ bad :: behind) ++ closing' :: rest := by simp
  rw [List.cons_append, List.cons_append, htokens,
    parseFrom_call (callHead?_eq_some.mpr ⟨rfl, kind, known, opens, rfl⟩), hsplit]
  have hne : inside ++ bad :: behind ≠ [] := by simp
  simp only [List.isEmpty_iff, hne, if_false, hinside]
  rfl

theorem join (op : Operator) (derived : Derives (Phrase.lhs op) ls l)
    (lhs : Stumbles (Phrase.lhs op) ls) (kind : token.kind = .operator op)
    (rhs : Stumbles (Phrase.rhs op) rs) : Stumbles (Phrase.whole op) (ls ++ token :: rs) := by
  intro front one back hsplit number bad hbad after kinds stop pending operands previous rest firm
  rcases Tokens.split_between hsplit (by simp [kind, number]) with
    ⟨more, hls, rfl⟩ | ⟨more, rfl, hrs⟩
  · rw [List.map_append, List.map_eq_append_iff] at kinds
    obtain ⟨behind, others, rfl, hbehind, -⟩ := kinds
    rw [List.append_assoc]
    exact lhs front one more hls number bad hbad behind hbehind stop pending operands previous _
      (firm.tighten (Phrase.whole_le_lhs op))
  · rw [List.append_assoc, List.cons_append, derived.reads.parseFrom_operator kind firm]
    exact rhs more one back hrs number bad hbad after kinds stop _ _ _ rest
      (Firm.operator op token.span)

end Stumbles

theorem Derives.stumbles {e : Expr} (h : Derives p tokens e) : Stumbles p tokens := by
  induction h with
  | number => exact .single _
  | call kind known opens closes inside ih => exact ih.call kind known opens closes inside
  | group opens closes _ ih => exact ih.group opens closes
  | atom _ ih | power _ ih | term _ ih => exact ih.loosen (by decide)
  | raised lhs kind _ ihl ihr => exact .join .pow lhs ihl kind ihr
  | scaled lhs kind scales _ ihl ihr =>
    rcases scales with rfl | rfl
    · exact .join .mul lhs ihl kind ihr
    · exact .join .div lhs ihl kind ihr
  | shifted lhs kind shifts _ ihl ihr =>
    rcases shifts with rfl | rfl
    · exact .join .add lhs ihl kind ihr
    · exact .join .sub lhs ihl kind ihr

theorem ofTokens_malformed {e : Expr}
    (derived : Derives .expression (front ++ one :: back) e) (kind : one.kind = .number)
    (hbad : bad.isMalformed .number = true)
    (kinds : rest.map Token.kind = back.map Token.kind) (stop : Span) :
    ofTokens stop (front ++ bad :: rest) = .error bad.notANumber := by
  have hread := derived.stumbles front one back rfl kind bad hbad rest kinds stop [] [] none []
    Firm.nil
  rwa [List.append_nil] at hread

theorem parse_malformed {input : String} {e : Expr}
    (h : FirstMalformed .number (lexicon.scan (Source.strip input)) front bad)
    (accepted : parse (Source.withOnes
      (Tokens.malformed .number (lexicon.scan (Source.strip input))) input) = .ok e) :
    parse input = .error bad.notANumber := by
  obtain ⟨back, htokens, hmended⟩ := h.map_mend
  generalize hinput : Source.withOnes _ input = mended at accepted
  have halike : Tokens.Alike (.loose 0 0)
      ((lexicon.scan (Source.strip input)).map (Token.mend .number))
      (lexicon.scan (Source.strip mended)) := by
    rw [← hinput]
    exact Source.scan_withOnes numbersApart input
  have hread : SameOutcome _ _
      (parseFrom (Span.point 0) State.initial
        ((lexicon.scan (Source.strip input)).map (Token.mend .number)))
      (parseFrom (Span.point 0) State.initial (lexicon.scan (Source.strip mended))) :=
    parseFrom_alike .atEnd ⟨.nil, .nil, rfl, .none⟩ halike
  rw [(ofSource_eq_ok_iff_derives.mp accepted).reads.parseFrom_initial, hmended] at hread
  obtain ⟨e', he', -⟩ := hread.exists_ok
  have derived := Reached.initial.derives he'
  rw [List.nil_append] at derived
  have kind : (bad.mend .number).kind = .number :=
    (Token.kind_mend _ _).trans (Token.isMalformed_iff.mp h.malformed).1
  have kinds : back.map Token.kind = (back.map (Token.mend .number)).map Token.kind := by
    rw [List.map_map]
    exact List.map_congr_left fun token _ => by rw [Function.comp_apply, Token.kind_mend]
  have hempty : (Source.strip input).isEmpty ≠ true := fun hempty => by
    rw [Lexicon.scan, List.isEmpty_iff.mp hempty] at htokens
    simp [Lexicon.scanFrom] at htokens
  rw [parse, ofSource, if_neg hempty, htokens]
  exact ofTokens_malformed derived kind h.malformed kinds _

end Calculator.Arith
