import Calculator.Diagnostic
import Calculator.Proofs.Text.Scanning
import Mathlib.Data.List.Forall2

/-!
Two texts side by side. Their characters are the same, but stand at different places; `Places` says
which offsets belong together. No grammar decides anything by an offset: it only takes offsets over
from its tokens and from the end of the text. What it makes of two texts is therefore `Alike`, the
same apart from regions, which belong together again.
-/

set_option autoImplicit false
set_option relaxedAutoImplicit false

namespace Calculator

/-- Which offsets of two texts belong together, where characters start and where characters end,
and the lengths of the texts. -/
structure Places where
  starts : Nat → Nat → Prop
  stops : Nat → Nat → Prop
  left : Nat
  right : Nat

namespace Places

structure Run (places : Places) (x y : Span) : Prop where
  start : places.starts x.start y.start
  stop : places.stops x.stop y.stop

/-- Regions that an error can point at: what tokens cover, the text from a token on, the empty
region in front of a token, and the one at the end of the text. -/
inductive Region (places : Places) : Span → Span → Prop
  | run {x y : Span} (h : places.Run x y) : Region places x y
  | rest {x y : Span} (h : places.Run x y) :
      Region places ⟨x.start, places.left⟩ ⟨y.start, places.right⟩
  | before {x y : Span} (h : places.Run x y) :
      Region places (Span.point x.start) (Span.point y.start)
  | atEnd : Region places (Span.point places.left) (Span.point places.right)

theorem Run.through {places : Places} {x y x' y' : Span} (first : places.Run x y)
    (last : places.Run x' y') : places.Run (Span.through x x') (Span.through y y') :=
  ⟨first.start, last.stop⟩

end Places

variable {places : Places}

structure Diagnostic.Alike (region : Span → Span → Prop) (d e : Diagnostic) : Prop where
  cause : d.cause = e.cause
  spans : List.Forall₂ region d.spans e.spans

theorem Diagnostic.Alike.one {region : Span → Span → Prop} {x y : Span} (h : region x y)
    (cause : Cause) : Diagnostic.Alike region (.one x cause) (.one y cause) :=
  ⟨rfl, .cons h .nil⟩

theorem Diagnostic.Alike.two {region : Span → Span → Prop} {x y x' y' : Span} (h : region x y)
    (h' : region x' y') (cause : Cause) :
    Diagnostic.Alike region (.two x x' cause) (.two y y' cause) :=
  ⟨rfl, .cons h (.cons h' .nil)⟩

/-- Results that are related, or errors with the same cause about related regions. -/
inductive SameOutcome {α β : Type} (region : Span → Span → Prop) (R : α → β → Prop) :
    Except Diagnostic α → Except Diagnostic β → Prop
  | ok {a : α} {b : β} (h : R a b) : SameOutcome region R (.ok a) (.ok b)
  | error {d e : Diagnostic} (h : d.Alike region e) : SameOutcome region R (.error d) (.error e)

namespace SameOutcome

variable {α β γ δ : Type} {region : Span → Span → Prop} {R : α → β → Prop} {S : γ → δ → Prop}

theorem bind {x : Except Diagnostic α} {y : Except Diagnostic β} {next : α → Except Diagnostic γ}
    {next' : β → Except Diagnostic δ} (h : SameOutcome region R x y)
    (hn : ∀ a b, x = .ok a → R a b → SameOutcome region S (next a) (next' b)) :
    SameOutcome region S (x >>= next) (y >>= next') := by
  cases h with
  | ok h => exact hn _ _ rfl h
  | error h => exact .error h

theorem mono {other : Span → Span → Prop} {R' : α → β → Prop} {x : Except Diagnostic α}
    {y : Except Diagnostic β} (h : SameOutcome region R x y)
    (regions : ∀ a b, region a b → other a b)
    (results : ∀ a b, R a b → R' a b) : SameOutcome other R' x y := by
  cases h with
  | ok h => exact .ok (results _ _ h)
  | error h => exact .error ⟨h.cause, h.spans.imp regions⟩

theorem map {x y : Except Diagnostic α} (h : SameOutcome region Eq x y) (f : α → β) :
    SameOutcome region Eq (x.map f) (y.map f) := by
  cases h with
  | ok h => exact .ok (congrArg f h)
  | error h => exact .error h

end SameOutcome

structure Glyph.Alike (places : Places) (a b : Glyph) : Prop where
  char : a.char = b.char
  span : places.Run a.span b.span

structure Token.Alike {κ : Type} (places : Places) (a b : Token κ) : Prop where
  kind : a.kind = b.kind
  lexeme : a.lexeme = b.lexeme
  span : places.Run a.span b.span

theorem Token.Alike.text {κ : Type} {a b : Token κ} (h : a.Alike places b) : a.text = b.text :=
  congrArg String.ofList h.lexeme

abbrev Tokens.Alike {κ : Type} (places : Places) : List (Token κ) → List (Token κ) → Prop :=
  List.Forall₂ (Token.Alike places)

theorem Pattern.matchLength_congr {text other : List Glyph}
    (h : text.map Glyph.char = other.map Glyph.char) (pattern : Pattern) :
    pattern.matchLength text = pattern.matchLength other := by
  cases pattern with
  | run belongs =>
    have hlength (glyphs : List Glyph) : (run belongs).matchLength glyphs =
        ((glyphs.map Glyph.char).takeWhile belongs).length := by
      rw [List.takeWhile_map, List.length_map]
      rfl
    rw [hlength, hlength, h]
  | word letters =>
    have hstarts : startsWith letters text = startsWith letters other := by
      rw [Bool.eq_iff_iff, startsWith_iff, startsWith_iff, h]
    simp only [matchLength, hstarts]

namespace Lexicon

variable {κ : Type} {lexicon : Lexicon κ} {text other : List Glyph}

theorem chars_eq_of_alike (h : List.Forall₂ (Glyph.Alike places) text other) :
    text.map Glyph.char = other.map Glyph.char := by
  induction h with
  | nil => rfl
  | cons head _ ih => rw [List.map_cons, List.map_cons, head.char, ih]

theorem last_alike {first first' : Glyph} (hfirst : first.Alike places first')
    (h : List.Forall₂ (Glyph.Alike places) text other) :
    (text.getLast?.getD first).Alike places (other.getLast?.getD first') := by
  induction h generalizing first first' with
  | nil => exact hfirst
  | cons head _ ih =>
    rw [List.getLast?_cons, List.getLast?_cons]
    exact ih head

theorem tokenOf_alike {first first' : Glyph} (kind : κ) (hfirst : first.Alike places first')
    (h : List.Forall₂ (Glyph.Alike places) text other) :
    (tokenOf kind first text).Alike places (tokenOf kind first' other) where
  kind := rfl
  lexeme := by rw [tokenOf, tokenOf, hfirst.char, chars_eq_of_alike h]
  span := hfirst.span.through (last_alike hfirst h).span

/-- The tokens of a text depend on its characters only, and stand where these stand. -/
theorem scanFrom_alike (h : List.Forall₂ (Glyph.Alike places) text other) :
    Tokens.Alike places (lexicon.scanFrom 0 text) (lexicon.scanFrom 0 other) := by
  induction text using scan_induction generalizing other with
  | nil =>
    cases h
    exact .nil
  | cons glyph text ih =>
    cases h with
    | @cons _ glyph' _ text' head tail =>
      cases hl : lexicon.longest (glyph :: text) with
      | mk kind length =>
        have hl' : lexicon.longest (glyph' :: text') = (kind, length) :=
          (longest_congr fun entry _ =>
            entry.1.matchLength_congr (chars_eq_of_alike (.cons head tail))).symm.trans hl
        rw [scanFrom_cons hl, scanFrom_cons hl']
        exact .cons (tokenOf_alike kind head (List.forall₂_take _ tail))
          (ih _ (List.forall₂_drop _ tail))

end Lexicon

structure Source.Alike (places : Places) (s t : Source) : Prop where
  glyphs : List.Forall₂ (Glyph.Alike places) s.glyphs t.glyphs
  left : s.stop = places.left
  right : t.stop = places.right

namespace Source.Alike

variable {s t : Source}

theorem isEmpty (h : s.Alike places t) : s.isEmpty = t.isEmpty := by
  rw [Source.isEmpty, Source.isEmpty, Bool.eq_iff_iff, List.isEmpty_iff_length_eq_zero,
    List.isEmpty_iff_length_eq_zero, h.glyphs.length_eq]

theorem endSpan (h : s.Alike places t) : places.Region s.endSpan t.endSpan := by
  rw [Source.endSpan, Source.endSpan, h.left, h.right]
  exact .atEnd

theorem scan {κ : Type} (h : s.Alike places t) (lexicon : Lexicon κ) :
    Tokens.Alike places (lexicon.scan s) (lexicon.scan t) :=
  Lexicon.scanFrom_alike h.glyphs

end Source.Alike

end Calculator
