import Calculator.Arith.Token
import Calculator.Proofs.Text.Matching

/-!
Where arithmetic ends one token and starts the next. Only digits and points go on with a number,
only letters with a name, and every other token is one character; so two texts are read one after
the other unless the last character of the first and the first one of the second make one run.
-/

set_option autoImplicit false
set_option relaxedAutoImplicit false

namespace Calculator.Arith

/-- Whether neighbouring characters are read as parts of one token. -/
def Joins (a b : Char) : Prop :=
  (Pattern.isNumeral a = true ∧ Pattern.isNumeral b = true) ∨ (a.isAlpha = true ∧ b.isAlpha = true)

theorem entries_eq : lexicon.entries =
    (.run Pattern.isNumeral, .number) :: (.run Char.isAlpha, .name) ::
      lexicon.words.map fun entry => (.word entry.1, entry.2) := rfl

theorem forall_entries {P : Pattern × Kind → Prop} (number : P (.run Pattern.isNumeral, .number))
    (name : P (.run Char.isAlpha, .name))
    (word : ∀ entry ∈ lexicon.words, P (.word entry.1, entry.2)) :
    ∀ entry ∈ lexicon.entries, P entry := by
  intro entry h
  rw [entries_eq] at h
  rcases List.mem_cons.mp h with rfl | h
  · exact number
  rcases List.mem_cons.mp h with rfl | h
  · exact name
  · obtain ⟨entry, hmem, rfl⟩ := List.mem_map.mp h
    exact word entry hmem

theorem words_mark : ∀ entry ∈ lexicon.words, ∃ c, entry.1 = [c] ∧
    Pattern.isNumeral c = false ∧ c.isAlpha = false := by
  have hwords : lexicon.words.map Prod.fst = [['+'], ['-'], ['*'], ['/'], ['^'], ['('], [')']] :=
    rfl
  intro entry hmem
  have hword := hwords ▸ List.mem_map_of_mem (f := Prod.fst) hmem
  simp only [List.mem_cons, List.not_mem_nil, or_false] at hword
  rcases hword with h | h | h | h | h | h | h <;> exact ⟨_, h, rfl, rfl⟩

theorem isAlpha_of_isNumeral {c : Char} (h : Pattern.isNumeral c = true) : c.isAlpha = false := by
  rcases Bool.or_eq_true_iff.mp h with hdigit | hpoint
  · have hlow : c.val ≤ 57 := of_decide_eq_true (Bool.and_eq_true_iff.mp hdigit).2
    have hbound : c.val.toNat ≤ 57 := UInt32.le_iff_toNat_le.mp hlow
    have hupper : c.isUpper = false := by
      refine decide_eq_false fun hletter => ?_
      have hcode : 65 ≤ c.val.toNat := UInt32.le_iff_toNat_le.mp hletter.1
      omega
    have hlower : c.isLower = false := by
      refine Bool.and_eq_false_iff.mpr (.inl (decide_eq_false fun hletter => ?_))
      have hcode : 97 ≤ c.val.toNat := UInt32.le_iff_toNat_le.mp hletter
      omega
    exact Bool.or_eq_false_iff.mpr ⟨hupper, hlower⟩
  · rw [of_decide_eq_true hpoint]
    rfl

theorem not_matches_run_of_mark {c : Char} {belongs : Char → Bool} {letters : List Char}
    (hc : belongs c = false) (h : (Pattern.word [c]).Matches letters) :
    ¬(Pattern.run belongs).Matches letters := by
  intro hrun
  have hbelongs := hrun.2 c (h.2 ▸ List.mem_singleton_self c)
  rw [hc] at hbelongs
  cases hbelongs

/-- The first character of a text already tells numbers, names and marks apart. -/
theorem unambiguous : lexicon.Unambiguous := by
  have words : ∀ entry ∈ lexicon.words, ∀ other ∈ lexicon.words, entry.1 = other.1 →
      entry.2 = other.2 := by decide
  have number_name {letters : List Char} (hnumber : (Pattern.run Pattern.isNumeral).Matches letters)
      (hname : (Pattern.run Char.isAlpha).Matches letters) : False := by
    obtain ⟨c, rest, rfl⟩ := List.exists_cons_of_ne_nil hnumber.1
    have halpha := isAlpha_of_isNumeral (hnumber.2 c List.mem_cons_self)
    rw [hname.2 c List.mem_cons_self] at halpha
    cases halpha
  have mark {letters : List Char} {entry : List Char × Kind} (hmem : entry ∈ lexicon.words)
      (hword : (Pattern.word entry.1).Matches letters) :
      ¬(Pattern.run Pattern.isNumeral).Matches letters ∧
        ¬(Pattern.run Char.isAlpha).Matches letters := by
    obtain ⟨c, hentry, hnumeral, halpha⟩ := words_mark entry hmem
    rw [hentry] at hword
    exact ⟨not_matches_run_of_mark hnumeral hword, not_matches_run_of_mark halpha hword⟩
  refine forall_entries ?_ ?_ fun entry hmem => ?_
  · exact forall_entries (fun _ _ _ => rfl) (fun _ h h' => (number_name h h').elim)
      fun other hother _ h h' => absurd h (mark hother h').1
  · exact forall_entries (fun _ h h' => (number_name h' h).elim) (fun _ _ _ => rfl)
      fun other hother _ h h' => absurd h (mark hother h').2
  · exact forall_entries (fun _ h h' => absurd h' (mark hmem h).1)
      (fun _ h h' => absurd h' (mark hmem h).2)
      fun other hother _ h h' => words entry hmem other hother (h.2.symm.trans h'.2)

variable {glyph : Glyph} {text rest : List Glyph}

theorem matchLength_mark (c : Char) (text : List Glyph) :
    (Pattern.word [c]).matchLength (glyph :: text) = if c = glyph.char then 1 else 0 := by
  by_cases hc : c = glyph.char <;> simp [Pattern.matchLength, Pattern.startsWith, hc]

theorem longest_append (hne : text ≠ [])
    (h : ∀ a ∈ text.getLast?, ∀ b ∈ rest.head?, ¬Joins a.char b.char) :
    lexicon.longest (text ++ rest) = lexicon.longest text := by
  refine Lexicon.longest_congr (forall_entries ?_ ?_ fun entry hmem => ?_)
  · exact Pattern.matchLength_run_append hne fun a ha b hb hj => h a ha b hb (.inl hj)
  · exact Pattern.matchLength_run_append hne fun a ha b hb hj => h a ha b hb (.inr hj)
  · obtain ⟨c, hword, -⟩ := words_mark entry hmem
    cases text with
    | nil => exact absurd rfl hne
    | cons glyph text => rw [hword, List.cons_append, matchLength_mark, matchLength_mark]

theorem scanFrom_append (h : ∀ a ∈ text.getLast?, ∀ b ∈ rest.head?, ¬Joins a.char b.char) :
    lexicon.scanFrom 0 (text ++ rest) = lexicon.scanFrom 0 text ++ lexicon.scanFrom 0 rest := by
  refine Lexicon.scanFrom_append fun part hne hpart => longest_append hne ?_
  obtain ⟨before, rfl⟩ := hpart
  rwa [List.getLast?_append_of_ne_nil _ hne] at h

theorem longest_number (h : Pattern.isNumeral glyph.char = true) :
    lexicon.longest (glyph :: text) =
      (.number, (Pattern.run Pattern.isNumeral).matchLength (glyph :: text)) := by
  have hname := Pattern.matchLength_run_cons text (isAlpha_of_isNumeral h)
  have hmark : ∀ entry ∈ lexicon.words, (Pattern.word entry.1).matchLength (glyph :: text) = 0 := by
    intro entry hmem
    obtain ⟨c, hword, hnumeral, -⟩ := words_mark entry hmem
    rw [hword, matchLength_mark, if_neg]
    rintro rfl
    rw [h] at hnumeral
    cases hnumeral
  have hfirst : (Pattern.run Pattern.isNumeral, Kind.number) ∈ lexicon.entries := by
    rw [entries_eq]
    exact List.mem_cons_self
  refine Lexicon.longest_eq_of_alone hfirst ((Pattern.matchLength_run_pos text).mpr h) ?_
  exact forall_entries (.inl rfl) (.inr hname) fun entry hmem => .inr (hmark entry hmem)

theorem isNumeral_of_longest {length : Nat}
    (h : lexicon.longest (glyph :: text) = (.number, length)) :
    Pattern.isNumeral glyph.char = true := by
  have hwords : ∀ entry ∈ lexicon.words, entry.2 ≠ .number := by decide
  have hentries : ∀ entry ∈ lexicon.entries, 0 < entry.1.matchLength (glyph :: text) →
      entry.2 = .number → Pattern.isNumeral glyph.char = true := by
    refine forall_entries ?_ ?_ ?_
    · intro hpos _
      exact (Pattern.matchLength_run_pos text).mp hpos
    · intro _ hkind
      cases hkind
    · intro entry hmem _ hkind
      exact absurd hkind (hwords entry hmem)
  rcases lexicon.longest_cases (glyph :: text) with ⟨hnone, -⟩ | ⟨entry, hmem, hfound, hpos⟩
  · rw [h] at hnone
    cases (Prod.mk.inj hnone).1
  · rw [h] at hfound
    exact hentries entry hmem hpos (Prod.mk.inj hfound).1.symm

theorem numeral_of_mem_scanFrom {token : Token Kind} (h : token ∈ lexicon.scanFrom 0 text)
    (number : token.kind = .number) :
    token.lexeme ≠ [] ∧ ∀ c ∈ token.lexeme, Pattern.isNumeral c = true := by
  induction text using Lexicon.scan_induction with
  | nil => cases h
  | cons glyph text ih =>
    cases hl : lexicon.longest (glyph :: text) with
    | mk kind length =>
      rw [Lexicon.scanFrom_cons hl] at h
      rcases List.mem_cons.mp h with rfl | h
      · have hnumber : kind = .number := number
        subst hnumber
        have hfirst := isNumeral_of_longest hl
        obtain ⟨-, hlength⟩ := Prod.mk.inj (hl.symm.trans (longest_number hfirst))
        have hpos : 0 < length := hlength ▸ (Pattern.matchLength_run_pos text).mpr hfirst
        refine ⟨List.cons_ne_nil _ _, fun c hc => ?_⟩
        rw [Lexicon.lexeme_tokenOf_of_pos hpos, hlength] at hc
        obtain ⟨member, hmember, rfl⟩ := List.mem_map.mp hc
        exact Pattern.belongs_of_mem_take hmember
      · exact ih _ h

def tokensOf (text : List Char) : List (Token Kind) :=
  lexicon.scanFrom 0 (text.map fun c => ⟨c, Span.point 0⟩)

theorem tokensOf_append {front back : List Char}
    (h : ∀ a ∈ front.getLast?, ∀ b ∈ back.head?, ¬Joins a b) :
    tokensOf (front ++ back) = tokensOf front ++ tokensOf back := by
  rw [tokensOf, List.map_append]
  refine scanFrom_append fun a ha b hb => ?_
  rw [List.getLast?_map] at ha
  rw [List.head?_map] at hb
  obtain ⟨c, hc, rfl⟩ := Option.map_eq_some_iff.mp ha
  obtain ⟨d, hd, rfl⟩ := Option.map_eq_some_iff.mp hb
  exact h c hc d hd

theorem tokensOf_mark {c : Char} (front back : List Char) (numeral : Pattern.isNumeral c = false)
    (alpha : c.isAlpha = false) :
    tokensOf (front ++ c :: back) = tokensOf front ++ (tokensOf [c] ++ tokensOf back) := by
  have right : ∀ a, ¬Joins a c := fun a h =>
    h.elim (fun h => by simp [numeral] at h) fun h => by simp [alpha] at h
  have left : ∀ b, ¬Joins c b := fun b h =>
    h.elim (fun h => by simp [numeral] at h) fun h => by simp [alpha] at h
  rw [tokensOf_append, ← List.singleton_append, tokensOf_append]
  · intro a ha b _
    cases ha
    exact left b
  · intro a _ b hb
    cases hb
    exact right a

theorem tokensOf_numeral {text : List Char} (hne : text ≠ [])
    (h : ∀ c ∈ text, Pattern.isNumeral c = true) :
    ∃ token, tokensOf text = [token] ∧ token.kind = .number ∧ token.lexeme = text := by
  obtain ⟨c, text, rfl⟩ := List.exists_cons_of_ne_nil hne
  have hlength : (Pattern.run Pattern.isNumeral).matchLength
      ((c :: text).map fun c => ⟨c, Span.point 0⟩) = text.length + 1 := by
    rw [Pattern.matchLength, List.takeWhile_eq_self_iff.mpr, List.length_map, List.length_cons]
    intro glyph hglyph
    obtain ⟨d, hd, rfl⟩ := List.mem_map.mp hglyph
    exact h d hd
  have hlongest : lexicon.longest ((c :: text).map fun c => ⟨c, Span.point 0⟩) =
      (.number, text.length + 1) := hlength ▸ longest_number (h c List.mem_cons_self)
  rw [tokensOf, List.map_cons, Lexicon.scanFrom_cons hlongest, Nat.add_sub_cancel,
    List.drop_eq_nil_of_le (Nat.le_of_eq (List.length_map _)),
    List.take_of_length_le (Nat.le_of_eq (List.length_map _))]
  refine ⟨_, rfl, rfl, ?_⟩
  rw [Lexicon.tokenOf, List.map_map]
  exact congrArg (c :: ·) (List.map_id text)

end Calculator.Arith
