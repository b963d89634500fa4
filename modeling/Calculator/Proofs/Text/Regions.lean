import Calculator.Proofs.Text.Stripping
import Calculator.Report

/-!
Regions that stand in order. The tokens of an input stand one after another, and start and end at
boundaries between its characters. An error points at tokens, from one token to a later one, or at
the end of the input; its regions are then in order as well, one for each label of its report.
-/

set_option autoImplicit false
set_option relaxedAutoImplicit false

namespace Calculator

/-- A region up to `stop` that starts and ends at edges. -/
structure Span.Fits (edge : Nat → Prop) (stop : Nat) (span : Span) : Prop where
  proper : span.start ≤ span.stop
  within : span.stop ≤ stop
  start : edge span.start
  stop : edge span.stop

/-- Regions up to `stop`, one after another, that start and end at edges. -/
structure InOrder (edge : Nat → Prop) (stop : Nat) (spans : List Span) : Prop where
  fits : ∀ span ∈ spans, span.Fits edge stop
  sorted : spans.Pairwise fun a b => a.stop ≤ b.start

variable {edge : Nat → Prop} {stop : Nat}

namespace Span

theorem Fits.point (h : edge stop) : (point stop).Fits edge stop :=
  ⟨Nat.le_refl stop, Nat.le_refl stop, h, h⟩

theorem Fits.toEnd {span : Span} (h : span.Fits edge stop) (hstop : edge stop) :
    (Span.mk span.start stop).Fits edge stop :=
  ⟨Nat.le_trans h.proper h.within, Nat.le_refl stop, h.start, hstop⟩

theorem Fits.through {first last : Span} (hfirst : first.Fits edge stop)
    (hlast : last.Fits edge stop) (h : first.stop ≤ last.start) :
    (through first last).Fits edge stop := by
  refine ⟨?_, hlast.within, hfirst.start, hlast.stop⟩
  calc first.start ≤ first.stop := hfirst.proper
    _ ≤ last.start := h
    _ ≤ last.stop := hlast.proper

end Span

namespace InOrder

variable {spans part before between after : List Span} {a b : Span}

theorem sublist (h : InOrder edge stop spans) (hpart : part.Sublist spans) :
    InOrder edge stop part :=
  ⟨fun span hmem => h.fits span (hpart.mem hmem), h.sorted.sublist hpart⟩

theorem head (h : InOrder edge stop (a :: after)) : a.Fits edge stop :=
  h.fits a List.mem_cons_self

theorem tail (h : InOrder edge stop (a :: after)) : InOrder edge stop after :=
  h.sublist (List.sublist_cons_self a after)

theorem stop_le_start (h : InOrder edge stop (a :: after)) (hmem : b ∈ after) :
    a.stop ≤ b.start :=
  (List.pairwise_cons.mp h.sorted).1 b hmem

theorem joined (h : InOrder edge stop (a :: b :: after)) : (Span.through a b).Fits edge stop :=
  h.head.through h.tail.head (h.stop_le_start List.mem_cons_self)

theorem widen {wider : Nat} (h : InOrder edge stop spans) (hle : stop ≤ wider) :
    InOrder edge wider spans where
  sorted := h.sorted
  fits span hmem :=
    have hspan := h.fits span hmem
    ⟨hspan.proper, Nat.le_trans hspan.within hle, hspan.start, hspan.stop⟩

theorem front (h : InOrder edge stop (before ++ a :: after)) : InOrder edge a.start before where
  sorted := (List.pairwise_append.mp h.sorted).1
  fits span hmem :=
    have hspan := h.fits span (List.mem_append_left _ hmem)
    have hbefore := (List.pairwise_append.mp h.sorted).2.2 span hmem a List.mem_cons_self
    ⟨hspan.proper, hbefore, hspan.start, hspan.stop⟩

theorem singleton (h : a.Fits edge stop) : InOrder edge stop [a] where
  sorted := List.pairwise_singleton _ a
  fits _ hmem := List.mem_singleton.mp hmem ▸ h

theorem pair (ha : a.Fits edge stop) (hb : b.Fits edge stop) (h : a.stop ≤ b.start) :
    InOrder edge stop [a, b] where
  sorted := List.pairwise_pair.mpr h
  fits span hmem := by
    rcases List.mem_pair.mp hmem with rfl | rfl
    · exact ha
    · exact hb

theorem through (h : InOrder edge stop (before ++ a :: (between ++ b :: after))) :
    InOrder edge stop (before ++ Span.through a b :: after) := by
  obtain ⟨hbefore, htail, hcross⟩ := List.pairwise_append.mp h.sorted
  obtain ⟨ha, htail⟩ := List.pairwise_cons.mp htail
  obtain ⟨-, hafter, -⟩ := List.pairwise_append.mp htail
  obtain ⟨hb, hafter⟩ := List.pairwise_cons.mp hafter
  have whole : (Span.through a b).Fits edge stop :=
    (h.fits a (by simp)).through (h.fits b (by simp)) (ha b (by simp))
  constructor
  · intro span hmem
    rcases List.mem_append.mp hmem with hmem | hmem
    · exact h.fits span (List.mem_append_left _ hmem)
    rcases List.mem_cons.mp hmem with rfl | hmem
    · exact whole
    · exact h.fits span (by simp [hmem])
  · refine List.pairwise_append.mpr ⟨hbefore, List.pairwise_cons.mpr ⟨hb, hafter⟩, ?_⟩
    intro x hx y hy
    rcases List.mem_cons.mp hy with rfl | hy
    · exact hcross x hx a List.mem_cons_self
    · exact hcross x hx y (by simp [hy])

end InOrder

/-- An error with one region for each label of its cause, and these in order. -/
structure Diagnostic.Placed (edge : Nat → Prop) (stop : Nat) (d : Diagnostic) : Prop where
  labels : d.spans.length = d.cause.labels.length
  regions : InOrder edge stop d.spans

namespace Diagnostic.Placed

variable {cause : Cause} {spans : List Span} {a b : Span} {d : Diagnostic}

theorem one (h : a.Fits edge stop) (labels : cause.labels.length = 1) :
    (Diagnostic.one a cause).Placed edge stop :=
  ⟨labels.symm, .singleton h⟩

theorem two (h : InOrder edge stop [a, b]) (labels : cause.labels.length = 2) :
    (Diagnostic.two a b cause).Placed edge stop :=
  ⟨labels.symm, h⟩

theorem widen {wider : Nat} (h : d.Placed edge stop) (hle : stop ≤ wider) : d.Placed edge wider :=
  ⟨h.labels, h.regions.widen hle⟩

end Diagnostic.Placed

/-- A result with a property, or an error at regions that are in order. -/
inductive Located {α : Type} (edge : Nat → Prop) (stop : Nat) (P : α → Prop) :
    Except Diagnostic α → Prop
  | ok {a : α} (h : P a) : Located edge stop P (.ok a)
  | error {d : Diagnostic} (h : d.Placed edge stop) : Located edge stop P (.error d)

namespace Located

variable {α β : Type} {P : α → Prop} {Q : β → Prop} {x : Except Diagnostic α}

theorem bind {next : α → Except Diagnostic β} (h : Located edge stop P x)
    (hnext : ∀ a, x = .ok a → P a → Located edge stop Q (next a)) :
    Located edge stop Q (x >>= next) := by
  cases h with
  | ok h => exact hnext _ rfl h
  | error h => exact .error h

theorem imp {R : α → Prop} (h : Located edge stop P x) (hR : ∀ a, P a → R a) :
    Located edge stop R x := by
  cases h with
  | ok h => exact .ok (hR _ h)
  | error h => exact .error h

theorem widen {wider : Nat} (h : Located edge stop P x) (hle : stop ≤ wider) :
    Located edge wider P x := by
  cases h with
  | ok h => exact .ok h
  | error h => exact .error (h.widen hle)

theorem placed {d : Diagnostic} (h : Located edge stop P (.error d)) : d.Placed edge stop := by
  cases h with
  | error h => exact h

end Located

abbrev Tokens.spans {κ : Type} (tokens : List (Token κ)) : List Span := tokens.map Token.span

theorem InOrder.part {κ : Type} {tokens part : List (Token κ)}
    (h : InOrder edge stop (Tokens.spans tokens)) (hpart : part.Sublist tokens) :
    InOrder edge stop (Tokens.spans part) :=
  h.sublist (hpart.map Token.span)

abbrev Glyphs.spans (text : List Glyph) : List Span := text.map Glyph.span

namespace Lexicon

variable {κ : Type} {lexicon : Lexicon κ} {text : List Glyph} {before : List Span}

theorem tokenOf_inOrder {glyph : Glyph} {taken left : List Glyph} (kind : κ)
    (h : InOrder edge stop (before ++ glyph.span :: Glyphs.spans (taken ++ left))) :
    InOrder edge stop (before ++ (tokenOf kind glyph taken).span :: Glyphs.spans left) := by
  rcases List.eq_nil_or_concat' taken with rfl | ⟨between, last, rfl⟩
  · exact h
  · have hlast : (between ++ [last]).getLast?.getD glyph = last := by simp
    have hspans : InOrder edge stop
        (before ++ glyph.span :: (Glyphs.spans between ++ last.span :: Glyphs.spans left)) := by
      simpa using h
    rw [tokenOf, hlast]
    exact hspans.through

theorem scanFrom_inOrder (h : InOrder edge stop (before ++ Glyphs.spans text)) :
    InOrder edge stop (before ++ Tokens.spans (lexicon.scanFrom 0 text)) := by
  induction text using scan_induction generalizing before with
  | nil => exact h
  | cons glyph text ih =>
    cases hl : lexicon.longest (glyph :: text) with
    | mk kind length =>
      have hfirst : InOrder edge stop (before ++
          (tokenOf kind glyph (text.take (length - 1))).span ::
            Glyphs.spans (text.drop (length - 1))) :=
        tokenOf_inOrder kind (by rwa [List.take_append_drop])
      rw [scanFrom_cons hl, Tokens.spans, List.map_cons, List.append_cons]
      rw [List.append_cons] at hfirst
      exact ih (length - 1) hfirst

end Lexicon

/-- Whether an offset is a boundary between the characters of an input. -/
def Boundary (input : String) (offset : Nat) : Prop := String.Pos.Raw.IsValid input ⟨offset⟩

namespace Source

theorem byteLength_eq (text : List Char) : byteLength text = (String.ofList text).utf8ByteSize := by
  induction text with
  | nil => rfl
  | cons c text ih => rw [byteLength_cons, ih]; simp

theorem boundary_byteLength (front back : List Char) :
    Boundary (String.ofList (front ++ back)) (byteLength front) := by
  refine String.Pos.Raw.isValid_iff_exists_append.mpr ⟨.ofList front, .ofList back, ?_, ?_⟩
  · exact String.ofList_append
  · rw [byteLength_eq]
    rfl

theorem boundary_of_mem_place {front text : List Char} {glyph : Glyph}
    (h : glyph ∈ place (byteLength front) text) :
    Boundary (String.ofList (front ++ text)) glyph.span.start ∧
      Boundary (String.ofList (front ++ text)) glyph.span.stop := by
  induction text generalizing front with
  | nil => cases h
  | cons c text ih =>
    have hlength : byteLength front + c.utf8Size = byteLength (front ++ [c]) := by
      rw [byteLength_eq, byteLength_eq]
      simp
    rw [place, hlength] at h
    rcases List.mem_cons.mp h with rfl | h
    · refine ⟨boundary_byteLength front _, ?_⟩
      rw [List.append_cons]
      exact boundary_byteLength (front ++ [c]) text
    · rw [List.append_cons]
      exact ih h

theorem strip_stop (input : String) : (strip input).stop = input.utf8ByteSize := by
  have hstop : (strip input).stop = byteLength input.toList := rfl
  rw [hstop, byteLength_eq, String.ofList_toList]

theorem boundary_stop (input : String) : Boundary input (strip input).stop := by
  have := boundary_byteLength input.toList []
  rwa [List.append_nil, String.ofList_toList] at this

theorem strip_inOrder (input : String) :
    InOrder (Boundary input) (strip input).stop (Glyphs.spans (strip input).glyphs) where
  sorted := List.pairwise_map.mpr (strip_ordered input).sorted
  fits span hmem := by
    obtain ⟨glyph, hglyph, rfl⟩ := List.mem_map.mp hmem
    have hmem : glyph ∈ place (byteLength []) input.toList := (List.mem_filter.mp hglyph).1
    have hedges := boundary_of_mem_place hmem
    rw [List.nil_append, String.ofList_toList] at hedges
    have hproper := (strip_ordered input).proper glyph hglyph
    exact ⟨Nat.le_of_lt hproper, (strip_ordered input).within glyph hglyph, hedges.1, hedges.2⟩

theorem scan_inOrder {κ : Type} (lexicon : Lexicon κ) (input : String) :
    InOrder (Boundary input) (strip input).stop (Tokens.spans (lexicon.scan (strip input))) := by
  have hglyphs : InOrder (Boundary input) (strip input).stop
      ([] ++ Glyphs.spans (strip input).glyphs) := strip_inOrder input
  exact Lexicon.scanFrom_inOrder hglyphs

end Source

end Calculator
