import Calculator.Session.Keypad
import Mathlib.Data.List.Flatten

/-!
A line of the keypad, key by key. What is written for a line is what is written for its keys, one
after the other; the same holds of the line in which the previous result and the circle constant
stand in parentheses.
-/

set_option autoImplicit false
set_option relaxedAutoImplicit false

namespace Calculator.Keypad

def write (circle answer line : List Char) : List Char :=
  replace answerName answer (replace ['π'] circle (replace ['√'] ['s', 'q', 'r', 't'] line))

/-- A line with parentheses around every previous result and every circle constant. -/
def guarded (line : List Char) : List Char :=
  replace answerName ['(', 'a', 'n', 's', ')'] (replace ['π'] ['(', 'π', ')'] line)

example : guarded "2ans+π".toList = "2(ans)+(π)".toList := by decide

/-- What one key stands for. The letters of the previous result may come from a root sign, which is
written before they are replaced; such a result does not stand in the line itself. -/
inductive Key where
  | answer | glued | circle
  | char (c : Char)

def keys : List Char → List Key
  | 'a' :: 'n' :: 's' :: line => .answer :: keys line
  | 'a' :: 'n' :: '√' :: line => .glued :: .char 'q' :: .char 'r' :: .char 't' :: keys line
  | '√' :: line => .char 's' :: .char 'q' :: .char 'r' :: .char 't' :: keys line
  | 'π' :: line => .circle :: keys line
  | c :: line => .char c :: keys line
  | [] => []

namespace Key

def text (circle answer : List Char) : Key → List Char
  | .answer | .glued => answer
  | .circle => circle
  | .char c => [c]

def guard : Key → List Key
  | .answer => [.char '(', .answer, .char ')']
  | .circle => [.char '(', .circle, .char ')']
  | .glued => [.glued]
  | .char c => [.char c]

end Key

variable {circle answer line text : List Char} {c : Char}

theorem replace_one (p : Char) (replacement text : List Char) :
    replace [p] replacement text = text.flatMap fun c => if c = p then replacement else [c] := by
  induction text with
  | nil => rfl
  | cons c text ih =>
    rw [replace] at ih
    by_cases h : c = p
    · simp [replace, replaceFrom, h, ih]
    · simp [replace, replaceFrom, h, Ne.symm h, ih]

theorem replace_answerName_cons (replacement : List Char)
    (h : ∀ rest, c = 'a' → text ≠ 'n' :: 's' :: rest) :
    replace answerName replacement (c :: text) = c :: replace answerName replacement text := by
  have hprefix : answerName.isPrefixOf (c :: text) = false := by
    refine Bool.eq_false_iff.mpr fun hprefix => ?_
    obtain ⟨rest, hrest⟩ := List.isPrefixOf_iff_prefix.mp hprefix
    obtain ⟨rfl, htext⟩ := List.cons.inj hrest
    exact h rest rfl htext.symm
  rw [replace, replaceFrom, hprefix]
  rfl

theorem replace_answerName_append (replacement rest : List Char)
    (free : ∀ c ∈ text, c ∉ answerName) :
    replace answerName replacement (text ++ rest) =
      text ++ replace answerName replacement rest := by
  induction text with
  | nil => rfl
  | cons c text ih =>
    have hc : c ≠ 'a' := by
      rintro rfl
      exact free _ List.mem_cons_self (by decide)
    rw [List.cons_append, replace_answerName_cons _ fun _ h => absurd h hc,
      ih fun d hd => free d (List.mem_cons_of_mem _ hd), List.cons_append]

theorem eq_cons_of_replace_one {p x y : Char} {replacement rest : List Char} (hxy : x ≠ y)
    (h : replace [p] (y :: replacement) text = x :: rest) :
    ∃ text', text = x :: text' ∧ replace [p] (y :: replacement) text' = rest := by
  cases text with
  | nil => cases h
  | cons d text =>
    rw [replace_one, List.flatMap_cons] at h
    by_cases hd : d = p
    · rw [if_pos hd] at h
      exact absurd (List.cons.inj h).1.symm hxy
    · rw [if_neg hd] at h
      obtain ⟨rfl, rfl⟩ := List.cons.inj h
      exact ⟨text, rfl, replace_one _ _ _⟩

theorem guarded_answer (line : List Char) :
    guarded ('a' :: 'n' :: 's' :: line) = '(' :: 'a' :: 'n' :: 's' :: ')' :: guarded line := by
  simp only [guarded, replace_one]
  rfl

theorem guarded_circle (line : List Char) :
    guarded ('π' :: line) = '(' :: 'π' :: ')' :: guarded line := by
  have h : ∀ c ∈ ['(', 'π', ')'], c ∉ answerName := by simp [answerName]
  simp only [guarded, replace_one]
  exact replace_answerName_append _ _ h

theorem guarded_cons (circle : c ≠ 'π') (answer : ∀ rest, c = 'a' → line ≠ 'n' :: 's' :: rest) :
    guarded (c :: line) = c :: guarded line := by
  have hcons : replace ['π'] ['(', 'π', ')'] (c :: line) =
      c :: replace ['π'] ['(', 'π', ')'] line := by
    rw [replace_one, replace_one, List.flatMap_cons, if_neg circle]
    rfl
  rw [guarded, hcons]
  refine replace_answerName_cons _ fun rest hc hline => ?_
  obtain ⟨line', rfl, hline'⟩ := eq_cons_of_replace_one (by decide) hline
  obtain ⟨line'', rfl, -⟩ := eq_cons_of_replace_one (by decide) hline'
  exact answer line'' hc rfl

theorem eq_cons_of_guarded_eq_cons {x : Char} {rest : List Char} (hx : x ≠ '(')
    (h : guarded line = x :: rest) : ∃ line', line = x :: line' ∧ guarded line' = rest := by
  cases line with
  | nil => cases h
  | cons c line =>
    by_cases hc : c = 'π'
    · rw [hc, guarded_circle] at h
      exact absurd (List.cons.inj h).1.symm hx
    by_cases hanswer : ∃ line', c = 'a' ∧ line = 'n' :: 's' :: line'
    · obtain ⟨line', rfl, rfl⟩ := hanswer
      rw [guarded_answer] at h
      exact absurd (List.cons.inj h).1.symm hx
    · rw [guarded_cons hc fun line' ha hline => hanswer ⟨line', ha, hline⟩] at h
      obtain ⟨rfl, rfl⟩ := List.cons.inj h
      exact ⟨line, rfl, rfl⟩

theorem keys_cons (answer : ∀ rest, c = 'a' → line ≠ 'n' :: 's' :: rest)
    (glued : ∀ rest, c = 'a' → line ≠ 'n' :: '√' :: rest) (root : c ≠ '√') (circle : c ≠ 'π') :
    keys (c :: line) = .char c :: keys line := by
  rw [keys]
  · exact fun rest hc hline => answer rest hc hline
  · exact fun rest hc hline => glued rest hc hline
  · exact root
  · exact circle

theorem keys_guarded (line : List Char) : keys (guarded line) = (keys line).flatMap Key.guard := by
  fun_induction keys line with
  | case1 line ih =>
    rw [guarded_answer, List.flatMap_cons, ← ih]
    rfl
  | case2 line ih =>
    rw [guarded_cons (by decide) (by simp), guarded_cons (by decide) (by simp),
      guarded_cons (by decide) (by simp)]
    simp only [List.flatMap_cons, ← ih]
    rfl
  | case3 line ih =>
    rw [guarded_cons (by decide) (by simp)]
    simp only [List.flatMap_cons, ← ih]
    rfl
  | case4 line ih =>
    rw [guarded_circle, List.flatMap_cons, ← ih]
    rfl
  | case5 c line answer glued root circle ih =>
    -- What follows an `a` starts with its own letters after guarding, or with a parenthesis.
    rw [guarded_cons circle answer, keys_cons ?_ ?_ root circle, ih]
    · rfl
    · intro rest hc hline
      obtain ⟨line', rfl, hline'⟩ := eq_cons_of_guarded_eq_cons (by decide) hline
      obtain ⟨line'', rfl, -⟩ := eq_cons_of_guarded_eq_cons (by decide) hline'
      exact answer line'' hc rfl
    · intro rest hc hline
      obtain ⟨line', rfl, hline'⟩ := eq_cons_of_guarded_eq_cons (by decide) hline
      obtain ⟨line'', rfl, -⟩ := eq_cons_of_guarded_eq_cons (by decide) hline'
      exact glued line'' hc rfl
  | case6 => rfl

theorem write_answer (circle answer line : List Char) :
    write circle answer ('a' :: 'n' :: 's' :: line) = answer ++ write circle answer line := by
  simp only [write, replace_one]
  rfl

theorem write_glued (circle answer line : List Char) :
    write circle answer ('a' :: 'n' :: '√' :: line) =
      answer ++ 'q' :: 'r' :: 't' :: write circle answer line := by
  simp only [write, replace_one]
  rfl

theorem write_root (circle answer line : List Char) :
    write circle answer ('√' :: line) = 's' :: 'q' :: 'r' :: 't' :: write circle answer line := by
  simp only [write, replace_one]
  rfl

theorem write_circle (answer line : List Char) (free : ∀ c ∈ circle, c ∉ answerName) :
    write circle answer ('π' :: line) = circle ++ write circle answer line := by
  simp only [write, replace_one]
  exact replace_answerName_append _ _ free

theorem write_cons (nonempty : circle ≠ []) (free : ∀ c ∈ circle, c ∉ answerName)
    (answers : ∀ rest, c = 'a' → line ≠ 'n' :: 's' :: rest)
    (glued : ∀ rest, c = 'a' → line ≠ 'n' :: '√' :: rest) (root : c ≠ '√') (hc : c ≠ 'π') :
    write circle answer (c :: line) = c :: write circle answer line := by
  obtain ⟨first, circle, rfl⟩ := List.exists_cons_of_ne_nil nonempty
  have hfirst := free first List.mem_cons_self
  have hcons : replace ['π'] (first :: circle) (replace ['√'] ['s', 'q', 'r', 't'] (c :: line)) =
      c :: replace ['π'] (first :: circle) (replace ['√'] ['s', 'q', 'r', 't'] line) := by
    simp only [replace_one, List.flatMap_cons, if_neg root, List.singleton_append, if_neg hc]
  rw [write, hcons]
  refine replace_answerName_cons _ fun rest ha hline => ?_
  have hn : 'n' ≠ first := by
    rintro rfl
    exact hfirst (by decide)
  have hs : 's' ≠ first := by
    rintro rfl
    exact hfirst (by decide)
  obtain ⟨text, htext, hrest⟩ := eq_cons_of_replace_one hn hline
  obtain ⟨text, rfl, -⟩ := eq_cons_of_replace_one hs hrest
  obtain ⟨line, rfl, hroot⟩ := eq_cons_of_replace_one (by decide) htext
  -- The `s` is the line's own, or it is the first letter of a root sign's name.
  cases line with
  | nil => cases hroot
  | cons d line =>
    by_cases hd : d = '√'
    · exact glued line ha (by rw [hd])
    · rw [replace_one, List.flatMap_cons, if_neg hd] at hroot
      obtain ⟨rfl, -⟩ := List.cons.inj hroot
      exact answers line ha rfl

theorem write_eq_flatMap (answer line : List Char) (nonempty : circle ≠ [])
    (free : ∀ c ∈ circle, c ∉ answerName) :
    write circle answer line = (keys line).flatMap (Key.text circle answer) := by
  fun_induction keys line with
  | case1 line ih =>
    rw [write_answer, ih]
    rfl
  | case2 line ih =>
    rw [write_glued, ih]
    rfl
  | case3 line ih =>
    rw [write_root, ih]
    rfl
  | case4 line ih =>
    rw [write_circle _ _ free, ih]
    rfl
  | case5 c line answers glued root hc ih =>
    rw [write_cons nonempty free answers glued root hc, ih]
    rfl
  | case6 => rfl

end Calculator.Keypad
