import Calculator.Proofs.Arith.Grouping
import Calculator.Proofs.Number.Plain
import Calculator.Proofs.Session.Keys
import Calculator.Proofs.Text.Stripping

/-!
What is written for a key is an operand of its own, with or without parentheses around it, unless a
digit, a point or another literal stands right beside it. Those make one number with a literal that
has no sign: the text is read, but as another expression than the one that was typed.
-/

set_option autoImplicit false
set_option relaxedAutoImplicit false

namespace Calculator.Keypad

open Arith (Grouped tokensOf)
open Number (Numeral)
open Pattern (isNumeral)

/-- What stands for a literal in a marked line. A negative literal brings its own parentheses. -/
def mark (negative : Bool) : List Char := if negative then ['(', ')'] else ['π']

def visible (text : List Char) : List Char := text.filter fun c => !Text.isBlank c

/-- The characters of a line, with marks for the circle constant and for the previous result. -/
def marked (negative : Bool) (line : List Char) : List Char :=
  visible (write ['π'] (mark negative) line)

/-- Whether neighbours in a marked line make one number of which a literal is a part. -/
def Fuses (a b : Char) : Prop :=
  (a = 'π' ∨ b = 'π') ∧ (isNumeral a = true ∨ a = 'π') ∧ (isNumeral b = true ∨ b = 'π')

instance (a b : Char) : Decidable (Fuses a b) := inferInstanceAs (Decidable (_ ∧ _))

/-- Whether no literal of a line is beside a digit, a point or another literal. -/
def Apart (negative : Bool) (line : List Char) : Prop :=
  (marked negative line).IsChain fun a b => ¬Fuses a b

instance (negative : Bool) (line : List Char) : Decidable (Apart negative line) :=
  inferInstanceAs (Decidable (List.IsChain _ _))

/-- A mark, and a text that it stands for. -/
inductive Literal : List Char → List Char → Prop
  | positive {text : List Char} (h : Numeral text) : Literal ['π'] text
  | negative {text : List Char} (h : Numeral text) :
      Literal ['(', ')'] ('(' :: '0' :: '-' :: (text ++ [')']))

theorem literal_ofFloat {x : Float} (h : x.isFinite = true) :
    Literal (mark (Binary64.isNegative x)) (literal (.ofFloat x)).toList := by
  obtain ⟨hsign, hnumeral⟩ := Number.plain_magnitude h
  rw [literal, mark, hsign]
  cases Binary64.isNegative x with
  | false => exact .positive hnumeral
  | true =>
    rw [if_pos rfl, if_pos rfl, String.toList_append, String.toList_append]
    exact .negative hnumeral

theorem visible_append (front back : List Char) :
    visible (front ++ back) = visible front ++ visible back := List.filter_append front back

theorem visible_numeral {text : List Char} (h : Numeral text) : visible text = text :=
  h.filter_not_isBlank

namespace Literal

variable {sign text front back : List Char}

theorem visible_eq (h : Literal sign text) : visible sign = sign ∧ visible text = text := by
  cases h with
  | positive h => exact ⟨by decide +kernel, visible_numeral h⟩
  | @negative magnitude h =>
    refine ⟨by decide +kernel, ?_⟩
    have hopen : visible ['(', '0', '-'] = ['(', '0', '-'] := by decide +kernel
    have hclose : visible [')'] = [')'] := by decide +kernel
    have happend : '(' :: '0' :: '-' :: (magnitude ++ [')']) =
        ['(', '0', '-'] ++ (magnitude ++ [')']) := rfl
    rw [happend, visible_append, visible_append, hopen, visible_numeral h, hclose]

theorem ends (h : Literal sign text) :
    (∃ b, text.head? = some b ∧ b.isAlpha = false ∧
      (isNumeral b = true → sign.head? = some 'π')) ∧
    ∃ b, text.getLast? = some b ∧ b.isAlpha = false ∧
      (isNumeral b = true → sign.getLast? = some 'π') := by
  cases h with
  | positive h =>
    have letter {b : Char} (hb : b ∈ text) : b.isAlpha = false :=
      Arith.isAlpha_of_isNumeral (h.numerals b hb)
    exact ⟨⟨_, List.head?_eq_some_head h.ne_nil, letter (List.head_mem _), fun _ => rfl⟩,
      _, List.getLast?_eq_some_getLast h.ne_nil, letter (List.getLast_mem _), fun _ => rfl⟩
  | negative h =>
    refine ⟨⟨'(', rfl, rfl, fun hb => by cases hb⟩, ')', ?_, rfl, fun hb => by cases hb⟩
    exact List.getLast?_concat (l := '(' :: '0' :: '-' :: _)

theorem tokensOf_append (h : Literal sign text)
    (hfront : ∀ a ∈ front.getLast?, ∀ m ∈ sign.head?, ¬Fuses a m)
    (hback : ∀ b ∈ back.head?, isNumeral b = true → sign.getLast? ≠ some 'π') :
    tokensOf (front ++ (text ++ back)) = tokensOf front ++ (tokensOf text ++ tokensOf back) := by
  obtain ⟨⟨first, hfirst, hfirstAlpha, hfirstSign⟩, last, hlast, hlastAlpha, hlastSign⟩ := h.ends
  rw [Arith.tokensOf_append, Arith.tokensOf_append]
  · intro a ha b hb hj
    rw [hlast] at ha
    cases ha
    rcases hj with ⟨hnumeral, hb'⟩ | ⟨halpha, -⟩
    · exact hback b hb hb' (hlastSign hnumeral)
    · rw [hlastAlpha] at halpha
      cases halpha
  · intro a ha b hb hj
    rw [List.head?_append, hfirst] at hb
    cases hb
    rcases hj with ⟨ha', hnumeral⟩ | ⟨-, halpha⟩
    · exact hfront a ha 'π' (hfirstSign hnumeral) ⟨.inr rfl, .inl ha', .inr rfl⟩
    · rw [hfirstAlpha] at halpha
      cases halpha

theorem grouped (h : Literal sign text) :
    Grouped false (tokensOf text) (tokensOf ['('] ++ (tokensOf text ++ tokensOf [')'])) false := by
  cases h with
  | positive h =>
    obtain ⟨token, htokens, hkind, -⟩ := Arith.tokensOf_numeral h.ne_nil h.numerals
    rw [htokens]
    exact .number hkind rfl rfl rfl rfl (.nil false)
  | @negative magnitude h =>
    obtain ⟨token, htokens, hkind, -⟩ := Arith.tokensOf_numeral h.ne_nil h.numerals
    have hclosed : tokensOf (magnitude ++ [')']) = [token] ++ tokensOf [')'] := by
      rw [Arith.tokensOf_mark magnitude [] rfl rfl, htokens]
      rfl
    have hminus : tokensOf ('0' :: '-' :: (magnitude ++ [')'])) =
        tokensOf ['0'] ++ (tokensOf ['-'] ++ tokensOf (magnitude ++ [')'])) :=
      Arith.tokensOf_mark ['0'] _ rfl rfl
    have hopen : tokensOf ('(' :: '0' :: '-' :: (magnitude ++ [')'])) =
        tokensOf ['('] ++ tokensOf ('0' :: '-' :: (magnitude ++ [')'])) :=
      Arith.tokensOf_mark [] _ rfl rfl
    rw [hopen, hminus, hclosed]
    refine .opening rfl rfl rfl ?_
    refine .keep rfl rfl (fun _ => by decide) ?_
    refine .keep rfl rfl (fun _ => by decide) ?_
    refine .keep rfl rfl (fun _ => by simp [hkind]) ?_
    exact .closing rfl rfl rfl (.nil false)

end Literal

theorem beside_of_apart {front sign marks : List Char}
    (h : (front ++ (sign ++ marks)).IsChain fun a b => ¬Fuses a b) :
    (∀ a ∈ front.getLast?, ∀ m ∈ sign.head?, ¬Fuses a m) ∧
      (∀ m ∈ sign.getLast?, ∀ d ∈ marks.head?, ¬Fuses m d) ∧
      marks.IsChain fun a b => ¬Fuses a b := by
  obtain ⟨-, hrest, hfront⟩ := List.isChain_append.mp h
  obtain ⟨-, hmarks, hback⟩ := List.isChain_append.mp hrest
  refine ⟨fun a ha m hm => hfront a ha m ?_, hback, hmarks⟩
  rw [List.head?_append, Option.mem_def.mp hm]
  rfl

/-- A marked line, what is written for it, and the same with more parentheses around literals. -/
inductive Assembled : List Char → List Char → List Char → Prop
  | nil : Assembled [] [] []
  | char (c : Char) {marks text grouped : List Char} (rest : Assembled marks text grouped) :
      Assembled (c :: marks) (c :: text) (c :: grouped)
  | bare {sign literal marks text grouped : List Char} (h : Literal sign literal)
      (rest : Assembled marks text grouped) :
      Assembled (sign ++ marks) (literal ++ text) (literal ++ grouped)
  | guarded {sign literal marks text grouped : List Char} (h : Literal sign literal)
      (rest : Assembled marks text grouped) :
      Assembled (sign ++ marks) (literal ++ text) ('(' :: (literal ++ ')' :: grouped))

namespace Assembled

variable {marks text grouped : List Char}

theorem head (h : Assembled marks text grouped) {b : Char}
    (hb : b ∈ text.head? ∨ b ∈ grouped.head?) (numeral : isNumeral b = true) :
    ∃ m ∈ marks.head?, isNumeral m = true ∨ m = 'π' := by
  have beside {sign literal marks back : List Char} (h : Literal sign literal)
      (hb : b ∈ (literal ++ back).head?) :
      ∃ m ∈ (sign ++ marks).head?, isNumeral m = true ∨ m = 'π' := by
    obtain ⟨⟨first, hfirst, -, hsign⟩, -⟩ := h.ends
    rw [List.head?_append, hfirst] at hb
    cases hb
    rw [List.head?_append, hsign numeral]
    exact ⟨'π', rfl, .inr rfl⟩
  cases h with
  | nil => rcases hb with hb | hb <;> cases hb
  | char c rest =>
    have hc : c = b := by rcases hb with hb | hb <;> exact Option.some.inj hb
    exact ⟨c, rfl, .inl (hc ▸ numeral)⟩
  | bare h rest => exact hb.elim (beside h) (beside h)
  | guarded h rest =>
    rcases hb with hb | hb
    · exact beside h hb
    · cases hb
      cases numeral

theorem not_literal_of_head {sign : List Char} (h : Assembled marks text grouped)
    (hback : ∀ m ∈ sign.getLast?, ∀ d ∈ marks.head?, ¬Fuses m d) {b : Char}
    (hb : b ∈ text.head? ∨ b ∈ grouped.head?) (numeral : isNumeral b = true) :
    sign.getLast? ≠ some 'π' := by
  intro hsign
  obtain ⟨d, hd, hfuses⟩ := h.head hb numeral
  exact hback 'π' hsign d hd ⟨.inl rfl, .inr rfl, hfuses⟩

/-- The tokens of the two texts differ in the parentheses only. The front is what stands before
them and may go on into them. -/
theorem tokens (h : Assembled marks text grouped) (front : List Char)
    (apart : (front ++ marks).IsChain fun a b => ¬Fuses a b) :
    Grouped false (tokensOf (front ++ text)) (tokensOf (front ++ grouped)) false := by
  induction h generalizing front with
  | nil => exact .refl _
  | char c rest ih =>
    have h := ih (front ++ [c]) (by simpa using apart)
    simpa using h
  | bare h rest ih =>
    obtain ⟨hfront, hback, hmarks⟩ := beside_of_apart apart
    have htext := h.tokensOf_append hfront fun b hb => rest.not_literal_of_head hback (.inl hb)
    have hgrouped := h.tokensOf_append hfront fun b hb => rest.not_literal_of_head hback (.inr hb)
    rw [htext, hgrouped]
    exact (Grouped.refl _).append_right ((Grouped.refl _).append_right (ih [] hmarks))
  | @guarded sign literal marks text grouped h rest ih =>
    obtain ⟨hfront, hback, hmarks⟩ := beside_of_apart apart
    have htext := h.tokensOf_append hfront fun b hb => rest.not_literal_of_head hback (.inl hb)
    have hgrouped : tokensOf (front ++ '(' :: (literal ++ ')' :: grouped)) = tokensOf front ++
        ((tokensOf ['('] ++ (tokensOf literal ++ tokensOf [')'])) ++ tokensOf grouped) := by
      rw [Arith.tokensOf_mark front _ rfl rfl, Arith.tokensOf_mark literal _ rfl rfl]
      simp only [List.append_assoc]
    rw [htext, hgrouped]
    exact (Grouped.refl _).append_right (h.grouped.append_right (ih [] hmarks))

end Assembled

section Keys

variable {circle sign answer marks text grouped : List Char} (hcircle : Literal ['π'] circle)
  (hanswer : Literal sign answer)
include hcircle hanswer

theorem assembled_key (key : Key) (rest : Assembled marks text grouped) :
    Assembled (visible (key.text ['π'] sign) ++ marks) (visible (key.text circle answer) ++ text)
      (visible (key.guard.flatMap (Key.text circle answer)) ++ grouped) := by
  have hguard {literal : List Char} (h : visible literal = literal) :
      visible (['('] ++ (literal ++ ([')'] ++ []))) ++ grouped =
        '(' :: (literal ++ ')' :: grouped) := by
    have hopen : visible ['('] = ['('] := by decide +kernel
    have hclose : visible [')'] = [')'] := by decide +kernel
    rw [List.append_nil, visible_append, visible_append, hopen, hclose, h]
    simp
  cases key with
  | char c =>
    by_cases hc : Text.isBlank c = true
    · have hnone : visible [c] = [] := by simp [visible, hc]
      simp only [Key.text, Key.guard, List.flatMap_singleton, hnone]
      exact rest
    · have hone : visible [c] = [c] := by simp [visible, hc]
      simp only [Key.text, Key.guard, List.flatMap_singleton, hone]
      exact .char c rest
  | glued =>
    simp only [Key.text, Key.guard, List.flatMap_singleton, hanswer.visible_eq]
    exact .bare hanswer rest
  | answer =>
    simp only [Key.text, Key.guard, List.flatMap_cons, List.flatMap_nil]
    rw [hguard hanswer.visible_eq.2, hanswer.visible_eq.1, hanswer.visible_eq.2]
    exact .guarded hanswer rest
  | circle =>
    simp only [Key.text, Key.guard, List.flatMap_cons, List.flatMap_nil]
    rw [hguard hcircle.visible_eq.2, hcircle.visible_eq.1, hcircle.visible_eq.2]
    exact .guarded hcircle rest

theorem assembled_keys (keys : List Key) :
    Assembled (visible (keys.flatMap (Key.text ['π'] sign)))
      (visible (keys.flatMap (Key.text circle answer)))
      (visible ((keys.flatMap Key.guard).flatMap (Key.text circle answer))) := by
  induction keys with
  | nil => exact .nil
  | cons key keys ih =>
    simp only [List.flatMap_cons, List.flatMap_append, visible_append]
    exact assembled_key hcircle hanswer key ih

end Keys

theorem assembled_write {circle sign answer : List Char} (hcircle : Numeral circle)
    (hanswer : Literal sign answer) (line : List Char) :
    Assembled (visible (write ['π'] sign line)) (visible (write circle answer line))
      (visible (write circle answer (guarded line))) := by
  have letterless : ∀ c ∈ circle, c ∉ answerName := by
    intro c hc hletter
    have hnumeral := hcircle.numerals c hc
    have hfree : ∀ c ∈ answerName, isNumeral c = false := by simp [answerName, isNumeral]
    rw [hfree c hletter] at hnumeral
    cases hnumeral
  rw [write_eq_flatMap sign line (by simp) (by simp [answerName]),
    write_eq_flatMap answer line hcircle.ne_nil letterless,
    write_eq_flatMap answer (guarded line) hcircle.ne_nil letterless, keys_guarded]
  exact assembled_keys (.positive hcircle) hanswer (keys line)

theorem numeral_circle : Numeral (literal (.ofFloat circle)).toList := by
  have hfinite : circle.isFinite = true := by decide +kernel
  have hsign : Binary64.isNegative circle = false := by decide +kernel
  obtain ⟨hnegative, hnumeral⟩ := Number.plain_magnitude hfinite
  rwa [literal, hnegative, hsign]

theorem chars_strip_ofList (text : List Char) :
    (Source.strip (String.ofList text)).chars = visible text := by
  rw [Source.chars_strip, String.toList_ofList]
  rfl

/-- A line that keeps its literals apart means the same with parentheses around its circle constants
and previous results: where it can be read, it has the same value. -/
theorem sameValue_guarded {line : List Char} {answer : Float} {e : Arith.Expr}
    (finite : answer.isFinite = true) (apart : Apart (Binary64.isNegative answer) line)
    (h : Arith.parse (String.ofList (assemble line (some (.ofFloat answer)))) = .ok e) :
    ∃ e', Arith.parse (String.ofList (assemble (guarded line) (some (.ofFloat answer)))) = .ok e' ∧
      e.SameValue e' := by
  have assembled := assembled_write numeral_circle (literal_ofFloat finite) line
  have grouped := assembled.tokens [] apart
  rw [List.nil_append, List.nil_append, ← chars_strip_ofList, ← chars_strip_ofList] at grouped
  obtain ⟨e', hparse, same⟩ := Arith.parse_of_grouped grouped h
  exact ⟨e', hparse, same.value⟩

theorem sameValue_guarded_negative : ∃ e',
    Arith.parse (String.ofList (assemble (guarded ['2', '*', 'a', 'n', 's'])
      (some (.ofFloat (-3))))) = .ok e' ∧
    Arith.Expr.SameValue (.binary .mul ⟨1, 2⟩ (.literal 2 ⟨0, 1⟩)
      (.binary .sub ⟨4, 5⟩ (.literal 0 ⟨3, 4⟩) (.literal 3 ⟨5, 6⟩) ⟨3, 6⟩) ⟨0, 6⟩) e' := by
  have hsign : Binary64.isNegative (-3) = true := by decide +kernel
  have hapart : Apart (Binary64.isNegative (-3)) ['2', '*', 'a', 'n', 's'] := by
    rw [hsign]
    decide +kernel
  exact sameValue_guarded (by decide +kernel) hapart (by decide +kernel)

/-- A digit right before a positive result makes another number with it, which parentheses would
have kept apart. -/
theorem assemble_fuses_digit_with_answer :
    Arith.parse (String.ofList (assemble ['2', 'a', 'n', 's'] (some (.ofFloat 3)))) =
      .ok (.literal 23 ⟨0, 2⟩) ∧
    Arith.parse (String.ofList (assemble (guarded ['2', 'a', 'n', 's']) (some (.ofFloat 3)))) =
      .error (.two ⟨0, 1⟩ ⟨1, 2⟩ .missingOperator) := by
  constructor
  · decide +kernel
  · decide +kernel

end Calculator.Keypad
