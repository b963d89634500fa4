import Calculator.Diagnostic
import Calculator.Proofs.Text.Numerals
import Mathlib.Data.List.Basic

/-!
The input with `1` in place of each malformed number. Whatever stands in the region of such a
number, blanks included, is replaced by a single `1`, and the rest of the input stays; what is read
from it are the tokens of the input with these numbers mended.
-/

set_option autoImplicit false
set_option relaxedAutoImplicit false

namespace Calculator

instance (outer inner : Span) : Decidable (outer.Contains inner) :=
  inferInstanceAs (Decidable (_ ∧ _))

/-- What becomes of a character if `1` is written in place of each of some regions: the `1` stands
where a region ends. -/
def Glyph.mend (regions : List Span) (glyph : Glyph) : List Char :=
  match regions.find? fun region => decide (region.Contains glyph.span) with
  | none => [glyph.char]
  | some region => if glyph.span.stop = region.stop then ['1'] else []

/-- The input with `1` in place of each of some regions. -/
def Source.withOnes (regions : List Span) (input : String) : String :=
  String.ofList ((place 0 input.toList).flatMap (Glyph.mend regions))

def Tokens.malformed {κ : Type} [DecidableEq κ] (number : κ) (tokens : List (Token κ)) :
    List Span :=
  Tokens.spans (tokens.filter (Token.isMalformed number))

section Regions

variable {regions : List Span} {glyph : Glyph} {text part : List Glyph} {span : Span} {stop : Nat}

theorem Glyph.mend_outside (h : ∀ region ∈ regions, ¬region.Contains glyph.span) :
    glyph.mend regions = [glyph.char] := by
  have hnone : regions.find? (fun region => decide (region.Contains glyph.span)) = none :=
    List.find?_eq_none.mpr fun region hmem => by simpa using h region hmem
  rw [mend, hnone]

theorem Glyph.mend_inside (hmem : span ∈ regions) (hspan : span.Contains glyph.span)
    (honly : ∀ region ∈ regions, region.Contains glyph.span → region = span) :
    glyph.mend regions = if glyph.span.stop = span.stop then ['1'] else [] := by
  cases hfind : regions.find? fun region => decide (region.Contains glyph.span) with
  | none => exact absurd (decide_eq_true hspan) (List.find?_eq_none.mp hfind span hmem)
  | some region =>
    obtain ⟨hcontains, -⟩ := List.find?_eq_some_iff_append.mp hfind
    have hregion := honly region (List.mem_of_find?_eq_some hfind) (of_decide_eq_true hcontains)
    rw [mend, hfind, hregion]

theorem Glyph.mend_cases (regions : List Span) (glyph : Glyph) :
    glyph.mend regions = [glyph.char] ∨ ∃ region ∈ regions,
      glyph.mend regions = [] ∨ glyph.span.stop = region.stop ∧ glyph.mend regions = ['1'] := by
  cases hfind : regions.find? fun region => decide (region.Contains glyph.span) with
  | none => exact .inl (by rw [mend, hfind])
  | some region =>
    refine .inr ⟨region, List.mem_of_find?_eq_some hfind, ?_⟩
    simp only [mend, hfind]
    split
    · next hstop => exact .inr ⟨hstop, rfl⟩
    · exact .inl rfl

theorem flatMap_eq_of_filter {α β : Type} {p : α → Bool} {f g : α → List β} {members : List α}
    (kept : ∀ a ∈ members, p a = true → f a = g a)
    (dropped : ∀ a ∈ members, p a = false → f a = []) :
    members.flatMap f = (members.filter p).flatMap g := by
  induction members with
  | nil => rfl
  | cons a members ih =>
    have hrest := ih (fun b hb => kept b (List.mem_cons_of_mem a hb))
      fun b hb => dropped b (List.mem_cons_of_mem a hb)
    rw [List.flatMap_cons, hrest]
    cases ha : p a with
    | true =>
      rw [List.filter_cons_of_pos ha, List.flatMap_cons, kept a List.mem_cons_self ha]
    | false =>
      rw [List.filter_cons_of_neg (by simp [ha]), dropped a List.mem_cons_self ha, List.nil_append]

namespace Source.Ordered

variable {front back : List Glyph}

theorem append_left (h : (Source.mk (front ++ back) stop).Ordered) :
    (Source.mk front stop).Ordered where
  sorted := (List.pairwise_append.mp h.sorted).1
  proper glyph hmem := h.proper glyph (List.mem_append_left back hmem)
  within glyph hmem := h.within glyph (List.mem_append_left back hmem)

theorem append_right (h : (Source.mk (front ++ back) stop).Ordered) :
    (Source.mk back stop).Ordered where
  sorted := (List.pairwise_append.mp h.sorted).2.1
  proper glyph hmem := h.proper glyph (List.mem_append_right front hmem)
  within glyph hmem := h.within glyph (List.mem_append_right front hmem)

theorem stop_le_start_of_mem (h : (Source.mk (front ++ back) stop).Ordered) {a b : Glyph}
    (ha : a ∈ front) (hb : b ∈ back) : a.span.stop ≤ b.span.start :=
  (List.pairwise_append.mp h.sorted).2.2 a ha b hb

theorem contains_of_isExtent (h : (Source.mk text stop).Ordered)
    (extent : span.IsExtent (Glyphs.spans text)) : ∀ glyph ∈ text, span.Contains glyph.span := by
  intro glyph hmem
  constructor
  · obtain ⟨first, rest, rfl⟩ := List.exists_cons_of_ne_nil (List.ne_nil_of_mem hmem)
    have hstart : first.span.start = span.start := Option.some.inj extent.start
    rcases List.mem_cons.mp hmem with rfl | hmem
    · exact Nat.le_of_eq hstart.symm
    · have := List.rel_of_pairwise_cons h.sorted hmem
      have := h.proper first List.mem_cons_self
      omega
  · obtain ⟨front, last, rfl⟩ := (List.eq_nil_or_concat' text).resolve_left
      (List.ne_nil_of_mem hmem)
    have hstop : last.span.stop = span.stop := by simpa using extent.stop
    have hlast := h.proper last (by simp)
    rcases List.mem_append.mp hmem with hmem | hmem
    · have := h.stop_le_start_of_mem hmem List.mem_cons_self
      omega
    · rw [List.mem_singleton.mp hmem, hstop]

theorem stop_le_start_of_isExtent (h : (Source.mk (front ++ back) stop).Ordered)
    (extent : span.IsExtent (Glyphs.spans front)) (hmem : glyph ∈ back) :
    span.stop ≤ glyph.span.start := by
  obtain ⟨last, hlast, hstop⟩ := Option.map_eq_some_iff.mp extent.stop
  obtain ⟨member, hmember, rfl⟩ := List.mem_map.mp (List.mem_of_getLast? hlast)
  rw [← hstop]
  exact h.stop_le_start_of_mem hmember hmem

theorem flatMap_mend_inside (h : (Source.mk text stop).Ordered)
    (extent : span.IsExtent (Glyphs.spans text)) (hmem : span ∈ regions)
    (honly : ∀ glyph ∈ text, ∀ region ∈ regions, region.Contains glyph.span → region = span) :
    text.flatMap (Glyph.mend regions) = ['1'] := by
  have hmend : ∀ glyph ∈ text,
      glyph.mend regions = if glyph.span.stop = span.stop then ['1'] else [] := fun glyph hglyph =>
    Glyph.mend_inside hmem (h.contains_of_isExtent extent glyph hglyph) (honly glyph hglyph)
  have hne : text ≠ [] := fun hnil => extent.ne_nil (congrArg Glyphs.spans hnil)
  obtain ⟨front, last, rfl⟩ := (List.eq_nil_or_concat' text).resolve_left hne
  have hstop : last.span.stop = span.stop := by simpa using extent.stop
  have hlast := h.proper last (by simp)
  have hfront : front.flatMap (Glyph.mend regions) = [] := by
    refine List.flatMap_eq_nil_iff.mpr fun glyph hglyph => ?_
    rw [hmend glyph (List.mem_append_left _ hglyph), if_neg]
    have := h.stop_le_start_of_mem hglyph List.mem_cons_self
    omega
  rw [List.flatMap_append, hfront, List.nil_append, List.flatMap_singleton,
    hmend last (by simp), if_pos hstop]

end Source.Ordered

theorem Tokens.mem_malformed_cons {κ : Type} [DecidableEq κ] {number : κ} {token : Token κ}
    {tokens : List (Token κ)} {region : Span} : region ∈ malformed number (token :: tokens) ↔
      token.isMalformed number = true ∧ region = token.span ∨ region ∈ malformed number tokens := by
  rw [malformed, List.filter_cons]
  split
  · next hbad => simp [malformed, spans, hbad]
  · next hgood => simp [malformed, hgood]

namespace Lexicon

variable {κ : Type} {lexicon : Lexicon κ} {number : κ} {token : Token κ} {tokens : List (Token κ)}

theorem exists_through_of_mem_scanFrom (h : token ∈ lexicon.scanFrom 0 text) :
    ∃ first ∈ text, ∃ last ∈ text, token.span = Span.through first.span last.span := by
  obtain ⟨before, after, hsplit⟩ := List.append_of_mem h
  rw [← List.singleton_append] at hsplit
  obtain ⟨front, part, back, rfl, hpart⟩ := scanFrom_part hsplit
  have hextent := isExtent_of_scanFrom hpart
  have hmem : ∀ glyph ∈ part, glyph ∈ front ++ (part ++ back) := fun glyph hglyph =>
    List.mem_append_right _ (List.mem_append_left _ hglyph)
  obtain ⟨start, hhead, hstart⟩ := Option.map_eq_some_iff.mp hextent.start
  obtain ⟨first, hfirst, rfl⟩ := List.mem_map.mp (List.mem_of_mem_head? hhead)
  obtain ⟨stop, hend, hstop⟩ := Option.map_eq_some_iff.mp hextent.stop
  obtain ⟨last, hlast, rfl⟩ := List.mem_map.mp (List.mem_of_getLast? hend)
  refine ⟨first, hmem first hfirst, last, hmem last hlast, ?_⟩
  rw [Span.through, hstart, hstop]

variable {front back : List Glyph}

theorem not_contains_of_mem_scanFrom (ordered : (Source.mk (front ++ back) stop).Ordered)
    (h : token ∈ lexicon.scanFrom 0 back) (hmem : glyph ∈ front) :
    ¬token.span.Contains glyph.span := by
  obtain ⟨first, hfirst, last, -, hspan⟩ := exists_through_of_mem_scanFrom h
  intro hcontains
  have hproper := ordered.proper glyph (List.mem_append_left _ hmem)
  have horder := ordered.stop_le_start_of_mem hmem hfirst
  rw [hspan] at hcontains
  have : first.span.start ≤ glyph.span.start := hcontains.1
  omega

theorem flatMap_mend_token [DecidableEq κ] (ordered : (Source.mk text stop).Ordered)
    (hscan : lexicon.scanFrom 0 text = [token])
    (hown : ∀ glyph ∈ text, ∀ region ∈ regions, region.Contains glyph.span →
      token.isMalformed number = true ∧ region = token.span)
    (hmem : token.isMalformed number = true → token.span ∈ regions) :
    text.flatMap (Glyph.mend regions) = (token.mend number).lexeme := by
  cases hbad : token.isMalformed number with
  | true =>
    rw [Token.mend, if_pos hbad]
    exact ordered.flatMap_mend_inside (isExtent_of_scanFrom hscan) (hmem hbad)
      fun glyph hglyph region hregion hcontains => (hown glyph hglyph region hregion hcontains).2
  | false =>
    have hchars := chars_scanFrom lexicon text
    rw [hscan, Tokens.chars_cons, Tokens.chars_nil, List.append_nil] at hchars
    rw [Token.mend_of_good hbad, hchars, List.map_eq_flatMap]
    refine List.flatMap_congr fun glyph hglyph =>
      Glyph.mend_outside fun region hregion hcontains => ?_
    have htoken := (hown glyph hglyph region hregion hcontains).1
    rw [hbad] at htoken
    cases htoken

/-- Writing `1` in place of malformed numbers mends each of them and leaves the other tokens. -/
theorem flatMap_mend [DecidableEq κ] (ordered : (Source.mk text stop).Ordered)
    (hscan : lexicon.scanFrom 0 text = tokens)
    (honly : ∀ glyph ∈ text, ∀ region ∈ regions, region.Contains glyph.span →
      region ∈ Tokens.malformed number tokens)
    (hall : ∀ region ∈ Tokens.malformed number tokens, region ∈ regions) :
    text.flatMap (Glyph.mend regions) = Tokens.chars (tokens.map (Token.mend number)) := by
  induction tokens generalizing text with
  | nil =>
    cases text with
    | nil => rfl
    | cons glyph text => cases hscan
  | cons token tokens ih =>
    rw [← List.singleton_append] at hscan
    obtain ⟨front, back, rfl, hfront, hback⟩ := scanFrom_split hscan
    have hrest : back.flatMap (Glyph.mend regions) =
        Tokens.chars (tokens.map (Token.mend number)) := by
      refine ih ordered.append_right hback (fun glyph hglyph region hmem hcontains => ?_)
        fun region hmem => hall region (Tokens.mem_malformed_cons.mpr (.inr hmem))
      have hregion := honly glyph (List.mem_append_right _ hglyph) region hmem hcontains
      refine (Tokens.mem_malformed_cons.mp hregion).resolve_left fun htoken => ?_
      obtain ⟨-, rfl⟩ := htoken
      have hbefore := ordered.stop_le_start_of_isExtent (isExtent_of_scanFrom hfront) hglyph
      have hproper := ordered.proper glyph (List.mem_append_right _ hglyph)
      have := hcontains.2
      omega
    have hfirst : front.flatMap (Glyph.mend regions) = (token.mend number).lexeme := by
      refine flatMap_mend_token ordered.append_left hfront
        (fun glyph hglyph region hmem hcontains => ?_)
        fun hbad => hall _ (Tokens.mem_malformed_cons.mpr (.inl ⟨hbad, rfl⟩))
      have hregion := honly glyph (List.mem_append_left _ hglyph) region hmem hcontains
      refine (Tokens.mem_malformed_cons.mp hregion).resolve_right fun hbehind => ?_
      obtain ⟨other, hother, rfl⟩ := List.mem_map.mp hbehind
      have hscanned : other ∈ lexicon.scanFrom 0 back := by
        rw [hback]
        exact List.mem_of_mem_filter hother
      exact not_contains_of_mem_scanFrom ordered hscanned hglyph hcontains
    rw [List.flatMap_append, hrest, hfirst, List.map_cons, Tokens.chars_cons]

end Lexicon

namespace Source

theorem Ordered.eq_of_stop_eq {source : Source} (h : source.Ordered) {a b : Glyph}
    (ha : a ∈ source.glyphs) (hb : b ∈ source.glyphs) (hstop : a.span.stop = b.span.stop) :
    a = b := by
  obtain ⟨i, hi⟩ := List.mem_iff_getElem?.mp ha
  obtain ⟨k, hk⟩ := List.mem_iff_getElem?.mp hb
  have hik := (h.stop_le_stop_iff hi hk).mp (Nat.le_of_eq hstop)
  have hki := (h.stop_le_stop_iff hk hi).mp (Nat.le_of_eq hstop.symm)
  obtain rfl := Nat.le_antisymm hik hki
  exact Option.some.inj (hi.symm.trans hk)

theorem place_ordered (text : List Char) :
    (Source.mk (place 0 text) (byteLength text)).Ordered where
  sorted := place_sorted 0 text
  proper glyph h := (bounds_of_mem_place h).2.1
  within glyph h := by
    have := (bounds_of_mem_place h).2.2
    rwa [Nat.zero_add] at this

variable {κ : Type} [DecidableEq κ] {lexicon : Lexicon κ} {number : κ}

theorem chars_strip_withOnes {input : String}
    (h : ∀ region ∈ regions, ∃ glyph ∈ (strip input).glyphs, region.stop = glyph.span.stop) :
    (strip (withOnes regions input)).chars =
      (strip input).glyphs.flatMap (Glyph.mend regions) := by
  rw [chars_strip, withOnes, String.toList_ofList, List.filter_flatMap]
  refine flatMap_eq_of_filter (fun glyph _ hkept => ?_) fun glyph hglyph hblank => ?_
  · refine List.filter_eq_self.mpr fun c hc => ?_
    rcases Glyph.mend_cases regions glyph with hmend | ⟨region, -, hmend | ⟨-, hmend⟩⟩
    · rw [hmend] at hc
      rwa [List.mem_singleton.mp hc]
    · rw [hmend] at hc
      cases hc
    · rw [hmend] at hc
      rw [List.mem_singleton.mp hc]
      rfl
  · rcases Glyph.mend_cases regions glyph with hmend | ⟨region, hmem, hmend | ⟨hstop, -⟩⟩
    · exact List.filter_eq_nil_iff.mpr fun c hc => by
        rw [hmend] at hc
        simpa [List.mem_singleton.mp hc] using hblank
    · rw [hmend]
      rfl
    · -- No region ends with a blank character, since each ends with a character of a token.
      obtain ⟨last, hlast, hend⟩ := h region hmem
      obtain ⟨hplaced, hkept⟩ := List.mem_filter.mp hlast
      have hsame := (place_ordered input.toList).eq_of_stop_eq hglyph hplaced (hstop.trans hend)
      rw [hsame, hkept] at hblank
      cases hblank

theorem scan_withOnes (apart : lexicon.NumbersApart number) (input : String) {left right : Nat} :
    Tokens.Alike (.loose left right) ((lexicon.scan (strip input)).map (Token.mend number))
      (lexicon.scan (strip
        (withOnes (Tokens.malformed number (lexicon.scan (strip input))) input))) := by
  refine apart.scanFrom_mend ?_
  have hends : ∀ region ∈ Tokens.malformed number (lexicon.scan (strip input)),
      ∃ glyph ∈ (strip input).glyphs, region.stop = glyph.span.stop := by
    intro region hregion
    obtain ⟨token, htoken, rfl⟩ := List.mem_map.mp hregion
    obtain ⟨_, -, last, hlast, hspan⟩ :=
      Lexicon.exists_through_of_mem_scanFrom (List.mem_of_mem_filter htoken)
    exact ⟨last, hlast, by rw [hspan]; rfl⟩
  exact (chars_strip_withOnes hends).trans
    (Lexicon.flatMap_mend (strip_ordered input) rfl (fun _ _ _ hmem _ => hmem) fun _ hmem => hmem)

end Source

end Regions

def Token.notANumber {κ : Type} (token : Token κ) : Diagnostic :=
  .one token.span (.invalidNumber token.text)

section Members

variable {κ : Type} {ls rs inner front back : List (Token κ)}
  {one between opening closing : Token κ}

theorem Tokens.split_append (h : ls ++ rs = front ++ one :: back) :
    (∃ more, ls = front ++ one :: more ∧ back = more ++ rs) ∨
      ∃ more, front = ls ++ more ∧ rs = more ++ one :: back := by
  rcases List.append_eq_append_iff.mp h with ⟨more, hfront, hrs⟩ | ⟨more, hls, hback⟩
  · exact .inr ⟨more, hfront, hrs⟩
  · cases more with
    | nil => exact .inr ⟨[], by simpa using hls.symm, by simpa using hback.symm⟩
    | cons first more =>
      obtain ⟨rfl, rfl⟩ := List.cons.inj hback
      exact .inl ⟨more, hls, rfl⟩

theorem Tokens.split_between (h : ls ++ between :: rs = front ++ one :: back)
    (hne : between.kind ≠ one.kind) :
    (∃ more, ls = front ++ one :: more ∧ back = more ++ between :: rs) ∨
      ∃ more, front = ls ++ between :: more ∧ rs = more ++ one :: back := by
  refine (Tokens.split_append h).imp_right fun ⟨more, hfront, hrs⟩ => ?_
  cases more with
  | nil => exact absurd (congrArg Token.kind (List.cons.inj hrs).1) hne
  | cons first more =>
    obtain ⟨rfl, rfl⟩ := List.cons.inj hrs
    exact ⟨more, hfront, rfl⟩

theorem Tokens.split_cons (h : between :: rs = front ++ one :: back)
    (hne : between.kind ≠ one.kind) :
    ∃ more, front = between :: more ∧ rs = more ++ one :: back := by
  have hparts : [] ++ between :: rs = front ++ one :: back := h
  rcases Tokens.split_between hparts hne with ⟨more, hnil, -⟩ | hmore
  · simp at hnil
  · exact hmore

theorem Tokens.split_enclosed (h : opening :: (inner ++ [closing]) = front ++ one :: back)
    (opens : opening.kind ≠ one.kind) (closes : closing.kind ≠ one.kind) :
    ∃ more last, front = opening :: more ∧ inner = more ++ one :: last ∧
      back = last ++ [closing] := by
  obtain ⟨more, rfl, hinner⟩ := Tokens.split_cons h opens
  rcases Tokens.split_between hinner closes with ⟨last, rfl, rfl⟩ | ⟨last, -, hnil⟩
  · exact ⟨more, last, rfl, rfl, rfl⟩
  · simp at hnil

theorem Tokens.exists_front_kind {first bad : Token κ} {tail : List (Token κ)}
    (hsplit : first :: tail = front ++ one :: back) (kind : one.kind = bad.kind)
    (rest : List (Token κ)) :
    ∃ token more, front ++ bad :: rest = token :: more ∧ token.kind = first.kind := by
  cases front with
  | nil =>
    obtain ⟨rfl, -⟩ := List.cons.inj hsplit
    exact ⟨bad, rest, rfl, kind.symm⟩
  | cons token front =>
    obtain ⟨rfl, -⟩ := List.cons.inj hsplit
    exact ⟨first, _, rfl, rfl⟩

end Members

structure FirstMalformed {κ : Type} [DecidableEq κ] (number : κ) (tokens front : List (Token κ))
    (bad : Token κ) : Prop where
  split : ∃ back, tokens = front ++ bad :: back
  good : ∀ token ∈ front, token.isMalformed number = false
  malformed : bad.isMalformed number = true

namespace FirstMalformed

variable {κ : Type} [DecidableEq κ] {number : κ} {tokens front : List (Token κ)} {bad : Token κ}

theorem of_filter_eq {others : List (Token κ)} (h : FirstMalformed number tokens front bad)
    (hfilter : tokens.filter (Token.isMalformed number) =
      others.filter (Token.isMalformed number)) :
    ∃ before, FirstMalformed number others before bad := by
  obtain ⟨back, rfl⟩ := h.split
  have hnone : front.filter (Token.isMalformed number) = [] :=
    List.filter_eq_nil_iff.mpr fun token hmem => by simp [h.good token hmem]
  rw [List.filter_append, hnone, List.nil_append, List.filter_cons_of_pos h.malformed] at hfilter
  obtain ⟨before, after, rfl, hbefore, -, -⟩ := List.filter_eq_cons_iff.mp hfilter.symm
  exact ⟨before, ⟨after, rfl⟩, fun token hmem => by simpa using hbefore token hmem, h.malformed⟩

theorem map_mend (h : FirstMalformed number tokens front bad) :
    ∃ back, tokens = front ++ bad :: back ∧ tokens.map (Token.mend number) =
      front ++ bad.mend number :: back.map (Token.mend number) := by
  obtain ⟨back, rfl⟩ := h.split
  refine ⟨back, rfl, ?_⟩
  have hfront : front.map (Token.mend number) = front :=
    (List.map_congr_left fun token hmem => Token.mend_of_good (h.good token hmem)).trans
      (List.map_id' front)
  rw [List.map_append, hfront, List.map_cons]

end FirstMalformed

theorem SameOutcome.exists_ok {α β : Type} {region : Span → Span → Prop} {R : α → β → Prop}
    {x : Except Diagnostic α} {b : β} (h : SameOutcome region R x (.ok b)) :
    ∃ a, x = .ok a ∧ R a b := by
  cases h with
  | ok h => exact ⟨_, rfl, h⟩

end Calculator
