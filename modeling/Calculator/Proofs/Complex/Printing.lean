import Calculator.Proofs.Complex.Derivation
import Calculator.Proofs.Complex.Scanning
import Calculator.Proofs.Number.Operations
import Calculator.Proofs.Number.FixedPlaces
import Calculator.Proofs.Text.Stripping

/-!
The text of a complex number is an expression for a number near it. `readBack` says what the text is
evaluated to. A part that is written is read within one unit of its last place, and a part that is
left out is smaller than that. Both stay so under the signs, the products with one and the sums with
zero that the text is evaluated with.
-/

set_option autoImplicit false
set_option relaxedAutoImplicit false

namespace Calculator.Complex

open Binary64 (isNegative units unitsOfOne IsZero)
open Number (Numeral)

variable {x v z : Float}

/-- A finite double that is within `0.001` of another one. -/
def Near (x v : Float) : Prop := v.isFinite = true ∧ |units v - units x| ≤ units 0.001

theorem Near.abs_sub_le (h : Near x v) (finite : x.isFinite = true) : (v - x).abs ≤ 0.001 :=
  Binary64.abs_sub_le h.1 finite rfl h.2

theorem Near.neg (h : Near x v) (finite : x.isFinite = true) : Near (-x) (-v) := by
  refine ⟨Binary64.isFinite_neg h.1, ?_⟩
  rw [Binary64.units_neg h.1, Binary64.units_neg finite, ← abs_neg]
  have hflip : -(-units v - -units x) = units v - units x := by ring
  rw [hflip]
  exact h.2

theorem Near.of_agree {u w : Float.Model.UnpackedFloat} (h : Near x (Binary64.ofUnpacked w))
    (agree : Binary64.Agree u w) : Near x (Binary64.ofUnpacked u) := by
  obtain ⟨finite, same⟩ := agree.units h.1
  exact ⟨finite, same ▸ h.2⟩

theorem Near.add_zero (h : Near x v) (hz : IsZero z) : Near x (v + z) := by
  obtain ⟨s, hs⟩ := hz
  rw [← Binary64.ofUnpacked_unpacked v] at h
  rw [Binary64.add_eq, hs]
  exact h.of_agree (Binary64.agree_add_zero _ s)

theorem Near.zero_add (h : Near x v) (hz : IsZero z) : Near x (z + v) := by
  obtain ⟨s, hs⟩ := hz
  rw [← Binary64.ofUnpacked_unpacked v] at h
  rw [Binary64.add_eq, hs]
  exact h.of_agree (Binary64.agree_zero_add _ s)

theorem Near.sub_zero (h : Near x v) (hz : IsZero z) : Near x (v - z) := by
  obtain ⟨s, hs⟩ := hz
  rw [← Binary64.ofUnpacked_unpacked v] at h
  rw [Binary64.sub_eq, hs]
  exact h.of_agree (Binary64.agree_sub_zero _ s)

theorem Near.zero_sub (h : Near x (-v)) (hz : IsZero z) : Near x (z - v) := by
  obtain ⟨s, hs⟩ := hz
  rw [Binary64.sub_eq, hs]
  exact h.of_agree (Binary64.agree_zero_sub _ s)

theorem near_zero (finite : x.isFinite = true) (h : x.abs < negligible) : Near x 0 := by
  have hzero : units 0 = 0 := rfl
  have hsmall : units negligible ≤ units 0.001 := by decide +kernel
  obtain ⟨hfinite, hsign⟩ := Binary64.abs_unsigned finite
  have hlt := Binary64.units_lt_of_lt hfinite rfl hsign rfl h
  rw [Binary64.units_abs finite] at hlt
  refine ⟨rfl, ?_⟩
  rw [hzero, Int.zero_sub, abs_neg]
  omega

theorem not_isZero (h : ¬x.abs < negligible) : ¬IsZero x := by
  rintro ⟨s, hs⟩
  refine h ?_
  rw [Binary64.lt_iff, Binary64.abs_eq, hs]
  cases s <;> rfl

def leadingSign (x : Float) : Option Sign := if isNegative x then some .minus else none

def signText (x : Float) : List Char := if isNegative x then ['-'] else []

def magnitudeText (x : Float) : List Char := (Number.fixed 3 x.abs).toList

theorem toList_fixed (finite : x.isFinite = true) :
    (Number.fixed 3 x).toList = signText x ++ magnitudeText x := Number.toList_fixed 3 finite

theorem numeral_magnitudeText (finite : x.isFinite = true) : Numeral (magnitudeText x) := by
  obtain ⟨hfinite, hsign⟩ := Binary64.abs_unsigned finite
  exact Number.numeral_fixed 3 hfinite hsign

def reread (x : Float) : Float := (Number.read? (magnitudeText x)).getD 0

theorem read?_magnitudeText (finite : x.isFinite = true) :
    Number.read? (magnitudeText x) = some (reread x) ∧ Near x.abs (reread x) := by
  obtain ⟨hfinite, hsign⟩ := Binary64.abs_unsigned finite
  obtain ⟨v, read, hv, hclose⟩ := Number.read?_fixed hfinite hsign (by decide : 3 ≤ 300)
  have hreread : reread x = v := by rw [reread, magnitudeText, read, Option.getD_some]
  have hplace : unitsOfOne ≤ units 0.001 * 10 ^ 3 := by decide +kernel
  rw [hreread]
  exact ⟨read, hv, by omega⟩

theorem Near.of_negative (h : Near x.abs v) (finite : x.isFinite = true)
    (negative : isNegative x = true) : Near x (-v) := by
  have habs := Binary64.abs_eq_of_isFinite finite
  rw [negative, if_pos rfl] at habs
  rw [← Binary64.neg_neg_of_isFinite finite, ← habs]
  exact h.neg (Binary64.abs_unsigned finite).1

theorem Near.of_unsigned (h : Near x.abs v) (finite : x.isFinite = true)
    (unsigned : isNegative x = false) : Near x v := by
  have habs := Binary64.abs_eq_of_isFinite finite
  rw [unsigned, if_neg Bool.false_ne_true] at habs
  rwa [habs] at h

theorem Near.signed (h : Near x.abs v) (finite : x.isFinite = true) :
    Near x (Sign.factor (leadingSign x) * v) := by
  cases hsign : isNegative x with
  | true =>
    rw [leadingSign, hsign, if_pos rfl, Sign.factor, Binary64.neg_one_mul_of_isFinite h.1]
    exact h.of_negative finite hsign
  | false =>
    rw [leadingSign, hsign, if_neg Bool.false_ne_true, Sign.factor,
      Binary64.one_mul_of_isFinite h.1]
    exact h.of_unsigned finite hsign

variable {text : List Glyph} {rest : List Char}

theorem scan_mark (kind : Kind) {c : Char} (hmem : ([c], kind) ∈ lexicon.words)
    (alone : ∀ other ∈ lexicon.words, [c] <+: other.1 → other = ([c], kind))
    (h : text.map Glyph.char = c :: rest) : ∃ token after,
      lexicon.scanFrom 0 text = token :: lexicon.scanFrom 0 after ∧
        after.map Glyph.char = rest ∧ token.kind = kind := by
  obtain ⟨glyph, after, rfl, hc, hrest⟩ := List.map_eq_cons_iff.mp h
  exact ⟨_, after, isTable.scanFrom_mark hmem alone hc after, hrest, rfl⟩

theorem scan_sign (h : text.map Glyph.char = signText x ++ rest) : ∃ signs after,
    lexicon.scanFrom 0 text = signs ++ lexicon.scanFrom 0 after ∧
      after.map Glyph.char = rest ∧ Signs signs (leadingSign x) := by
  rw [signText] at h
  rw [leadingSign]
  split
  · next negative =>
    rw [if_pos negative] at h
    obtain ⟨token, after, hscan, hrest, kind⟩ :=
      scan_mark (.operator .sub) (by decide) (by decide) h
    exact ⟨[token], after, hscan, hrest, .some .minus kind⟩
  · next positive =>
    rw [if_neg positive] at h
    exact ⟨[], text, rfl, h, .none⟩

theorem scan_magnitude (finite : x.isFinite = true)
    (h : text.map Glyph.char = magnitudeText x ++ rest)
    (hrest : ∀ c ∈ rest.head?, Pattern.isNumeral c = false) : ∃ token after,
      lexicon.scanFrom 0 text = token :: lexicon.scanFrom 0 after ∧
        after.map Glyph.char = rest ∧ token.kind = .number ∧
        Number.read? token.lexeme = some (reread x) := by
  obtain ⟨front, after, rfl, hfront, hafter⟩ := List.map_eq_append_iff.mp h
  have hnumeral := numeral_magnitudeText finite
  rw [← hfront] at hnumeral
  obtain ⟨token, hscan, kind, lexeme⟩ := isTable.scanFrom_numeral front after
    (fun hnil => hnumeral.ne_nil (by rw [hnil]; rfl))
    (fun glyph hglyph => hnumeral.numerals _ (List.mem_map_of_mem hglyph))
    (fun glyph hglyph => hrest _ (by
      rw [← hafter, List.head?_map]
      exact Option.mem_map_of_mem _ hglyph))
  refine ⟨token, after, hscan, hafter, kind, ?_⟩
  rw [lexeme, hfront]
  exact (read?_magnitudeText finite).1

theorem derives_real (finite : x.isFinite = true)
    (h : text.map Glyph.char = signText x ++ (magnitudeText x ++ rest))
    (hrest : ∀ c ∈ rest.head?, Pattern.isNumeral c = false) : ∃ tokens after,
      lexicon.scanFrom 0 text = tokens ++ lexicon.scanFrom 0 after ∧
        after.map Glyph.char = rest ∧
        Derives .factor tokens (.real (leadingSign x) (reread x)) := by
  obtain ⟨signs, between, hsigns, hbetween, signed⟩ := scan_sign h
  obtain ⟨token, after, hscan, hafter, kind, read⟩ := scan_magnitude finite hbetween hrest
  refine ⟨signs ++ [token], after, ?_, hafter, .real signed kind read⟩
  rw [hsigns, hscan, List.append_assoc, List.singleton_append]

theorem derives_imaginary (finite : x.isFinite = true) {signs : List (Token Kind)}
    {sign : Option Sign} (signed : Signs signs sign)
    (h : text.map Glyph.char = magnitudeText x ++ ['i']) :
    Derives .factor (signs ++ lexicon.scanFrom 0 text) (.imaginary sign (some (reread x))) := by
  obtain ⟨token, between, hscan, hbetween, kind, read⟩ :=
    scan_magnitude finite h fun c hc => by cases hc; rfl
  obtain ⟨unit, after, hunit, hafter, unitKind⟩ :=
    scan_mark .unit (by decide) (by decide) hbetween
  rw [hscan, hunit, List.map_eq_nil_iff.mp hafter]
  exact .imaginary signed (.some kind read) unitKind

def signedReread (x : Float) : Float := Sign.factor (leadingSign x) * reread x

/-- What the text of a number is evaluated to. -/
def readBack (z : Complex) : Complex :=
  if z.im.abs < negligible then real (signedReread z.re)
  else if z.re.abs < negligible then imaginary (signedReread z.im)
  else if isNegative z.im then real (signedReread z.re) - imaginary (1 * reread z.im)
  else real (signedReread z.re) + imaginary (1 * reread z.im)

def Evaluates (tokens : List (Token Kind)) (w : Complex) : Prop :=
  ∃ e, Derives .expression tokens e ∧ e.value? = some w

variable {number : Complex}

theorem evaluates_real (finite : number.re.isFinite = true)
    (h : text.map Glyph.char = signText number.re ++ magnitudeText number.re) :
    Evaluates (lexicon.scanFrom 0 text) (real (signedReread number.re)) := by
  rw [← List.append_nil (magnitudeText number.re)] at h
  obtain ⟨tokens, after, hscan, hafter, derived⟩ := derives_real finite h fun c hc => by cases hc
  rw [hscan, List.map_eq_nil_iff.mp hafter, Lexicon.scanFrom, List.append_nil]
  exact ⟨_, .term (.factor derived), rfl⟩

theorem evaluates_imaginary (finite : number.im.isFinite = true)
    (h : text.map Glyph.char = signText number.im ++ (magnitudeText number.im ++ ['i'])) :
    Evaluates (lexicon.scanFrom 0 text) (imaginary (signedReread number.im)) := by
  obtain ⟨signs, after, hscan, hafter, signed⟩ := scan_sign h
  rw [hscan]
  exact ⟨_, .term (.factor (derives_imaginary finite signed hafter)), rfl⟩

/-- Both parts. The sign between them is an operator: the real part is taken by itself, and what is
added to it or subtracted from it has no sign. -/
theorem evaluates_sum (hre : number.re.isFinite = true) (him : number.im.isFinite = true)
    (h : text.map Glyph.char = signText number.re ++ (magnitudeText number.re ++
      (if isNegative number.im then '-' else '+') :: (magnitudeText number.im ++ ['i']))) :
    Evaluates (lexicon.scanFrom 0 text)
      (if isNegative number.im then real (signedReread number.re) - imaginary (1 * reread number.im)
        else real (signedReread number.re) + imaginary (1 * reread number.im)) := by
  have hmark : Pattern.isNumeral (if isNegative number.im then '-' else '+') = false := by
    split <;> rfl
  obtain ⟨tokens, between, hscan, hbetween, derived⟩ :=
    derives_real hre h (fun c hc => by cases hc; exact hmark)
  rw [hscan]
  cases hsign : isNegative number.im with
  | true =>
    rw [hsign, if_pos rfl] at hbetween
    obtain ⟨token, after, hoperator, hafter, kind⟩ :=
      scan_mark (.operator .sub) (by decide) (by decide) hbetween
    rw [hoperator]
    exact ⟨_, .minus (.term (.factor derived)) kind (.factor (derives_imaginary him .none hafter)),
      rfl⟩
  | false =>
    rw [hsign, if_neg Bool.false_ne_true] at hbetween
    obtain ⟨token, after, hoperator, hafter, kind⟩ :=
      scan_mark (.operator .add) (by decide) (by decide) hbetween
    rw [hoperator]
    exact ⟨_, .plus (.term (.factor derived)) kind (.factor (derives_imaginary him .none hafter)),
      rfl⟩

theorem chars_strip_fixed (finite : x.isFinite = true) :
    (Source.strip (Number.fixed 3 x)).chars = signText x ++ magnitudeText x := by
  have hsign : (signText x).filter (fun c => !Text.isBlank c) = signText x := by
    rw [signText]
    split <;> rfl
  rw [Source.chars_strip, toList_fixed finite, List.filter_append, hsign,
    (numeral_magnitudeText finite).filter_not_isBlank]

theorem chars_strip_magnitude (finite : x.isFinite = true) :
    (Source.strip (Number.fixed 3 x.abs)).chars = magnitudeText x := by
  rw [Source.chars_strip]
  exact (numeral_magnitudeText finite).filter_not_isBlank

theorem lt_zero_iff (finite : x.isFinite = true) (h : ¬x.abs < negligible) :
    x < 0 ↔ isNegative x = true := by
  rcases Binary64.pos_or_neg finite (not_isZero h) with ⟨-, hlt, hsign⟩ | ⟨-, hlt, hsign⟩
  · simp [hlt, hsign]
  · simp [hlt, hsign]

theorem evaluates_render (hre : number.re.isFinite = true) (him : number.im.isFinite = true) :
    Evaluates (tokensOf number.render) (readBack number) := by
  have hunit : (Source.strip "i").chars = ['i'] := rfl
  rw [render, readBack]
  split
  · exact evaluates_real hre (chars_strip_fixed hre)
  · next right =>
    have hsign := lt_zero_iff him right
    split
    · refine evaluates_imaginary him ?_
      have hfront : (Source.strip (if number.im < 0 then "-" else "")).chars =
          signText number.im := by
        rw [signText]
        simp only [hsign]
        split <;> rfl
      change (Source.strip _).chars = _
      rw [Source.chars_strip_append, Source.chars_strip_append, hfront,
        chars_strip_magnitude him, hunit, List.append_assoc]
    · refine evaluates_sum hre him ?_
      have hbetween : (Source.strip (if number.im < 0 then " - " else " + ")).chars =
          [if isNegative number.im then '-' else '+'] := by
        simp only [hsign]
        split <;> rfl
      change (Source.strip _).chars = _
      rw [Source.chars_strip_append, Source.chars_strip_append, Source.chars_strip_append,
        chars_strip_fixed hre, hbetween, chars_strip_magnitude him, hunit]
      simp

theorem near_readBack (hre : number.re.isFinite = true) (him : number.im.isFinite = true) :
    Near number.re (readBack number).re ∧ Near number.im (readBack number).im := by
  have nearRe := (read?_magnitudeText hre).2
  have nearIm := (read?_magnitudeText him).2
  rw [readBack]
  split
  · next left => exact ⟨nearRe.signed hre, near_zero him left⟩
  · split
    · next left => exact ⟨near_zero hre left, nearIm.signed him⟩
    · split
      · next hsign =>
        have hpart : Near number.im (0 - 1 * reread number.im) := by
          rw [Binary64.one_mul_of_isFinite nearIm.1]
          exact (nearIm.of_negative him hsign).zero_sub Binary64.isZero_zero
        exact ⟨(nearRe.signed hre).sub_zero Binary64.isZero_zero, hpart⟩
      · next hsign =>
        have hpart : Near number.im (0 + 1 * reread number.im) := by
          rw [Binary64.one_mul_of_isFinite nearIm.1]
          exact (nearIm.of_unsigned him (Bool.eq_false_iff.mpr hsign)).zero_add Binary64.isZero_zero
        exact ⟨(nearRe.signed hre).add_zero Binary64.isZero_zero, hpart⟩

def Denotes (tokens : List (Token Kind)) (z : Complex) : Prop :=
  ∃ e w, Derives .expression tokens e ∧ e.value? = some w ∧ Near z.re w.re ∧ Near z.im w.im

theorem denotes_render (hre : number.re.isFinite = true) (him : number.im.isFinite = true) :
    Denotes (tokensOf number.render) number := by
  obtain ⟨e, derived, value⟩ := evaluates_render hre him
  exact ⟨e, readBack number, derived, value, near_readBack hre him⟩

/-- The text of a number with finite parts is read as a number that has each part within `0.001` of
the one written, whichever parts the text shows and whatever their signs and magnitudes are. -/
theorem parse_render_approxEq (z : Complex) (hre : z.re.isFinite = true)
    (him : z.im.isFinite = true) :
    ∃ w, parse z.render = .ok w ∧ w.approxEq z 0.001 = true := by
  obtain ⟨e, w, derived, value, nearRe, nearIm⟩ := denotes_render hre him
  refine ⟨w, parse_of_derives derived value, ?_⟩
  rw [approxEq, Bool.and_eq_true]
  exact ⟨decide_eq_true (nearRe.abs_sub_le hre), decide_eq_true (nearIm.abs_sub_le him)⟩

/-- A part that is rounded to a zero with a sign, and one whose neighbours are further away than the
last place. -/
theorem parse_render_of_extremes :
    let z : Complex := ⟨-0.0004, -1.2345678901234567e20⟩
    z.re.isFinite = true ∧ z.im.isFinite = true ∧
      z.render = "-0.000 - 123456789012345667584.000i" ∧
      ∃ w, parse z.render = .ok w ∧ w.approxEq z 0.001 = true := by
  intro z
  have hre : z.re.isFinite = true := by decide +kernel
  have him : z.im.isFinite = true := by decide +kernel
  have hrender : z.render = "-0.000 - 123456789012345667584.000i" := by decide +kernel
  exact ⟨hre, him, hrender, parse_render_approxEq z hre him⟩

end Calculator.Complex
