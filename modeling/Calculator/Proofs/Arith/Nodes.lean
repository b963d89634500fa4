import Calculator.Proofs.Arith.Grouping
import Calculator.Proofs.Arith.Parentheses
import Calculator.Proofs.Text.Cutting

/-!
What the region of a node covers. Every node is made of tokens that follow one another in the input,
and its region reaches from the first of them to the last, but for parentheses: those around an
operand leave no node, and an operation whose operand stands at an end of it starts or ends inside
of them. Such a region lacks nothing but these parentheses, and is rejected for their partners. Any
other one is read as the node again.
-/

set_option autoImplicit false
set_option relaxedAutoImplicit false

namespace Calculator.Arith

/-- An expression and all of its parts. -/
def Expr.nodes : Expr → List Expr
  | .literal value span => [.literal value span]
  | .binary op opSpan lhs rhs span => .binary op opSpan lhs rhs span :: (lhs.nodes ++ rhs.nodes)
  | .call f arg span => .call f arg span :: arg.nodes

def Expr.isOperation : Expr → Bool
  | .binary _ _ _ _ _ => true
  | .literal _ _ | .call _ _ _ => false

variable {p q r : Phrase} {tokens ls rs segment : List (Token Kind)} {token : Token Kind}
  {op : Operator} {e l k n : Expr}

/-- The tokens of a node itself, without parentheses around it: a number, a call, or an operator
between two operands. -/
inductive Direct : List (Token Kind) → Expr → Prop
  | number {token : Token Kind} {value : Float} (kind : token.kind = .number)
      (read : Number.read? token.lexeme = some value) :
      Direct [token] (.literal value token.span)
  | call {name opening closing : Token Kind} {inner : List (Token Kind)} {f : Builtin} {arg : Expr}
      (kind : name.kind = .name) (known : Builtin.ofName? name.text = some f)
      (opens : opening.kind = .opening) (closes : closing.kind = .closing)
      (inside : Derives .expression inner arg) :
      Direct (name :: opening :: (inner ++ [closing]))
        (.call f arg (Span.through name.span closing.span))
  | join {p q r : Phrase} {ls rs : List (Token Kind)} {token : Token Kind} {op : Operator}
      {l k : Expr} (lhs : Derives p ls l) (kind : token.kind = .operator op) (rhs : Derives q rs k)
      (whole : Derives r (ls ++ token :: rs) (.join op token.span l k)) :
      Direct (ls ++ token :: rs) (.join op token.span l k)

theorem Direct.derives (h : Direct tokens e) : Derives .expression tokens e := by
  cases h with
  | number kind read => exact (Derives.number kind read).loosen (Nat.zero_le _)
  | call kind known opens closes inside =>
    exact (Derives.call kind known opens closes inside).loosen (Nat.zero_le _)
  | join _ _ _ whole => exact whole.loosen (Nat.zero_le _)

theorem exists_direct_join (whole : Direct (ls ++ token :: rs) (.join op token.span l k))
    (lhs : n ∈ l.nodes → ∃ segment, segment <:+: ls ∧ Direct segment n)
    (rhs : n ∈ k.nodes → ∃ segment, segment <:+: rs ∧ Direct segment n)
    (hn : n ∈ (Expr.join op token.span l k).nodes) :
    ∃ segment, segment <:+: ls ++ token :: rs ∧ Direct segment n := by
  rcases List.mem_cons.mp hn with rfl | hn
  · exact ⟨_, List.infix_rfl, whole⟩
  rcases List.mem_append.mp hn with hn | hn
  · obtain ⟨segment, hsegment, direct⟩ := lhs hn
    exact ⟨segment, hsegment.trans (List.prefix_append _ _).isInfix, direct⟩
  · obtain ⟨segment, hsegment, direct⟩ := rhs hn
    have hsuffix : rs <:+ ls ++ token :: rs := (List.suffix_cons _ _).trans (List.suffix_append _ _)
    exact ⟨segment, hsegment.trans hsuffix.isInfix, direct⟩

theorem Derives.exists_direct (h : Derives p tokens e) (hn : n ∈ e.nodes) :
    ∃ segment, segment <:+: tokens ∧ Direct segment n := by
  induction h with
  | number kind read =>
    obtain rfl := List.mem_singleton.mp hn
    exact ⟨_, List.infix_rfl, .number kind read⟩
  | @call name opening closing inner f arg kind known opens closes inside ih =>
    rcases List.mem_cons.mp hn with rfl | hn
    · exact ⟨_, List.infix_rfl, .call kind known opens closes inside⟩
    · obtain ⟨segment, hsegment, direct⟩ := ih hn
      exact ⟨segment, hsegment.trans ⟨[name, opening], [closing], by simp⟩, direct⟩
  | @group opening closing inner e _ _ _ ih =>
    obtain ⟨segment, hsegment, direct⟩ := ih hn
    exact ⟨segment, hsegment.trans ⟨[opening], [closing], by simp⟩, direct⟩
  | atom _ ih | power _ ih | term _ ih => exact ih hn
  | raised lhs kind rhs ihl ihr =>
    exact exists_direct_join (.join lhs kind rhs (.raised lhs kind rhs)) ihl ihr hn
  | scaled lhs kind scales rhs ihl ihr =>
    exact exists_direct_join (.join lhs kind rhs (.scaled lhs kind scales rhs)) ihl ihr hn
  | shifted lhs kind shifts rhs ihl ihr =>
    exact exists_direct_join (.join lhs kind rhs (.shifted lhs kind shifts rhs)) ihl ihr hn

/-- Tokens without some parentheses in front of them and some behind them. -/
structure Trimmed (tokens opens core closes : List (Token Kind)) : Prop where
  eq : tokens = opens ++ (core ++ closes)
  opens : ∀ token ∈ opens, token.kind = .opening
  closes : ∀ token ∈ closes, token.kind = .closing

theorem Trimmed.whole (tokens : List (Token Kind)) : Trimmed tokens [] tokens [] :=
  ⟨(List.append_nil tokens).symm, List.forall_mem_nil _, List.forall_mem_nil _⟩

section Trims

variable {opens core closes opens' core' closes' : List (Token Kind)}

theorem Trimmed.group {opening closing : Token Kind} (h : Trimmed tokens opens core closes)
    (hopening : opening.kind = .opening) (hclosing : closing.kind = .closing) :
    Trimmed (opening :: (tokens ++ [closing])) (opening :: opens) core (closes ++ [closing]) where
  eq := by simp [h.eq]
  opens := List.forall_mem_cons.mpr ⟨hopening, h.opens⟩
  closes := List.forall_mem_append.mpr ⟨h.closes, by simpa using hclosing⟩

theorem Trimmed.join (left : Trimmed ls opens core closes) (right : Trimmed rs opens' core' closes')
    (token : Token Kind) :
    Trimmed (ls ++ token :: rs) opens (core ++ ((closes ++ token :: opens') ++ core')) closes' where
  eq := by simp [left.eq, right.eq]
  opens := left.opens
  closes := right.closes

theorem isExtent_call (name opening closing : Token Kind) (inner : List (Token Kind)) :
    (Span.through name.span closing.span).IsExtent
      (Tokens.spans (name :: opening :: (inner ++ [closing]))) := by
  have extent := Span.IsExtent.through name.span closing.span (Tokens.spans (opening :: inner))
  simpa using extent

theorem isExtent_join (token : Token Kind) (left : l.span.IsExtent (Tokens.spans core))
    (right : k.span.IsExtent (Tokens.spans core')) :
    (Expr.join op token.span l k).span.IsExtent
      (Tokens.spans (core ++ ((closes ++ token :: opens') ++ core'))) := by
  rw [Tokens.spans, List.map_append, List.map_append]
  exact left.append right

theorem Derives.exists_core (h : Derives p tokens e) : ∃ opens core closes,
    Trimmed tokens opens core closes ∧ e.span.IsExtent (Tokens.spans core) := by
  induction h with
  | @number token => exact ⟨[], [token], [], .whole [token], .single token.span⟩
  | @call name opening closing inner f arg =>
    exact ⟨[], _, [], .whole _, isExtent_call name opening closing inner⟩
  | group hopening hclosing _ ih =>
    obtain ⟨opens, core, closes, trimmed, extent⟩ := ih
    exact ⟨_, core, _, trimmed.group hopening hclosing, extent⟩
  | atom _ ih | power _ ih | term _ ih => exact ih
  | @raised _ _ token _ _ _ _ _ ihl ihr | @scaled _ _ token _ _ _ _ _ _ _ ihl ihr
  | @shifted _ _ token _ _ _ _ _ _ _ ihl ihr =>
    obtain ⟨opens, core, closes, left, extent⟩ := ihl
    obtain ⟨opens', core', closes', right, extent'⟩ := ihr
    exact ⟨_, _, _, left.join right token, isExtent_join token extent extent'⟩

theorem chars_eq_replicate {c : Char} (h : ∀ token ∈ tokens, token.lexeme = [c]) :
    Tokens.chars tokens = List.replicate tokens.length c := by
  induction tokens with
  | nil => rfl
  | cons token tokens ih =>
    obtain ⟨htoken, htokens⟩ := List.forall_mem_cons.mp h
    rw [Tokens.chars_cons, htoken, ih htokens, List.length_cons, List.replicate_succ,
      List.singleton_append]

theorem Trimmed.chars_opens (h : Trimmed tokens opens core closes)
    (spelled : ∀ token ∈ tokens, Spelled token) :
    Tokens.chars opens = List.replicate opens.length '(' :=
  chars_eq_replicate fun token hmem =>
    (spelled token (by simp [h.eq, hmem])).opening (h.opens token hmem)

theorem Trimmed.chars_closes (h : Trimmed tokens opens core closes)
    (spelled : ∀ token ∈ tokens, Spelled token) :
    Tokens.chars closes = List.replicate closes.length ')' :=
  chars_eq_replicate fun token hmem =>
    (spelled token (by simp [h.eq, hmem])).closing (h.closes token hmem)

theorem Trimmed.eq_nil_of_paired (left : Trimmed ls opens core closes)
    (right : Trimmed rs opens' core' closes') (lhs : Derives p ls l)
    (kind : token.kind = .operator op) (rhs : Derives q rs k)
    (spelled : ∀ member ∈ ls ++ token :: rs, Spelled member)
    (paired : Paired (Tokens.chars (core ++ ((closes ++ token :: opens') ++ core')))) :
    opens = [] ∧ closes' = [] := by
  have spelledL : ∀ member ∈ ls, Spelled member :=
    fun member hmem => spelled member (List.mem_append_left _ hmem)
  have spelledR : ∀ member ∈ rs, Spelled member :=
    fun member hmem => spelled member (List.mem_append_right _ (List.mem_cons_of_mem _ hmem))
  -- The first operand is paired, so what follows the parentheses before it closes all of them.
  have hleft : depthAfter opens.length (Tokens.chars (core ++ closes)) = some 0 := by
    have hdepth := lhs.depthAfter_chars spelledL 0 []
    rw [List.append_nil, left.eq, Tokens.chars_append, left.chars_opens spelledL,
      depthAfter_append, depthAfter_replicate_opening, Nat.zero_add] at hdepth
    exact hdepth
  have hsplit : core ++ ((closes ++ token :: opens') ++ core') =
      (core ++ closes) ++ token :: (opens' ++ core') := by simp
  rw [Paired, hsplit, Tokens.chars_append, depthAfter_append] at paired
  obtain ⟨depth, hdepth, paired⟩ := Option.bind_eq_some_iff.mp paired
  have hopens := depthAfter_add opens.length hdepth
  rw [Nat.zero_add, hleft] at hopens
  have hsum : 0 = depth + opens.length := Option.some.inj hopens
  have hzero : depth = 0 := by omega
  refine ⟨List.eq_nil_of_length_eq_zero (by omega), ?_⟩
  -- So nothing is open at the operator, and the parentheses behind the second operand close none.
  have hright : depthAfter 0 (Tokens.chars (opens' ++ core')) = some 0 := by
    have htoken := spelled token (by simp)
    rwa [htoken.depthAfter_other (by simp [kind]) (by simp [kind]), hzero] at paired
  have hcloses := rhs.depthAfter_chars spelledR 0 []
  rw [List.append_nil, right.eq, ← List.append_assoc, Tokens.chars_append, depthAfter_append,
    hright, right.chars_closes spelledR] at hcloses
  exact List.eq_nil_of_length_eq_zero (eq_of_depthAfter_replicate_closing hcloses).symm

/-- The region of a node is that of its own tokens, unless the parentheses of an operation are torn
apart by it. -/
theorem Direct.exists_core (h : Direct segment n) (spelled : ∀ token ∈ segment, Spelled token) :
    ∃ opens core closes, Trimmed segment opens core closes ∧
      n.span.IsExtent (Tokens.spans core) ∧
      (n.isOperation = false ∨ Paired (Tokens.chars core) → opens = [] ∧ closes = []) := by
  cases h with
  | @number token => exact ⟨[], [token], [], .whole _, .single token.span, fun _ => ⟨rfl, rfl⟩⟩
  | @call name opening closing inner =>
    exact ⟨[], _, [], .whole _, isExtent_call name opening closing inner, fun _ => ⟨rfl, rfl⟩⟩
  | @join p q r ls rs token op l k lhs kind rhs whole =>
    obtain ⟨opens, core, closes, left, extent⟩ := lhs.exists_core
    obtain ⟨opens', core', closes', right, extent'⟩ := rhs.exists_core
    refine ⟨_, _, _, left.join right token, isExtent_join token extent extent', ?_⟩
    rintro (hoperation | paired)
    · cases hoperation
    · exact left.eq_nil_of_paired right lhs kind rhs spelled paired

end Trims

section Inputs

variable {input text : String} {before after : List (Token Kind)}

theorem Direct.parse_of_chars_eq (h : Direct segment n)
    (hscan : lexicon.scan (Source.strip input) = before ++ (segment ++ after))
    (chars : (Source.strip text).chars = Tokens.chars segment) :
    ∃ n', parse text = .ok n' ∧ n.Same n' := by
  obtain ⟨places, halike⟩ := Lexicon.scan_alike_of_chars_eq hscan chars
  obtain ⟨-, n', derived, same⟩ := h.derives.regroups (.of_alike halike)
  exact ⟨n', ofSource_eq_ok_iff_derives.mpr derived, same⟩

theorem paired_chars_strip : Paired (Source.strip text).chars ↔ Paired text.toList := by
  rw [Source.chars_strip, Paired, Paired, depthAfter_filter]

theorem paired_of_parse (h : parse text = .ok e) : Paired text.toList := by
  have derived := ofSource_eq_ok_iff_derives.mp h
  have hdepth := derived.depthAfter_chars (fun _ => spelled_of_mem_scan) 0 []
  rw [List.append_nil, Lexicon.scan, Lexicon.chars_scanFrom] at hdepth
  exact paired_chars_strip.mp hdepth

theorem exists_error_of_not_paired (h : ¬Paired text.toList) : ∃ d, parse text = .error d := by
  cases hparse : parse text with
  | error d => exact ⟨d, rfl⟩
  | ok e => exact absurd (paired_of_parse hparse) h

def enclose (opened closed : Nat) (text : String) : String :=
  String.ofList (List.replicate opened '(') ++ text ++ String.ofList (List.replicate closed ')')

theorem chars_strip_enclose (opened closed : Nat) (text : String) :
    (Source.strip (enclose opened closed text)).chars =
      List.replicate opened '(' ++ ((Source.strip text).chars ++ List.replicate closed ')') := by
  have hmark {c : Char} (count : Nat) (hc : Text.isBlank c = false) :
      (Source.strip (String.ofList (List.replicate count c))).chars = List.replicate count c := by
    rw [Source.chars_strip, String.toList_ofList, List.filter_replicate, if_pos (by simp [hc])]
  rw [enclose, Source.chars_strip_append, Source.chars_strip_append, hmark _ (by decide),
    hmark _ (by decide), List.append_assoc]

/-- The region of every node lies in the input and lacks nothing of the node but parentheses at its
ends. It is read as the node itself if and only if its parentheses belong together in pairs, as they
do for numbers and calls, and is rejected otherwise. -/
theorem parse_cut (h : parse input = .ok e) (hn : n ∈ e.nodes) :
    n.span.Fits (Boundary input) input.utf8ByteSize ∧
    (∃ opened closed n', parse (enclose opened closed (n.span.cut input)) = .ok n' ∧ n.Same n') ∧
    ((∃ n', parse (n.span.cut input) = .ok n' ∧ n.Same n') ↔
      Paired (n.span.cut input).toList) ∧
    (¬Paired (n.span.cut input).toList → ∃ d, parse (n.span.cut input) = .error d) ∧
    (n.isOperation = false → Paired (n.span.cut input).toList) := by
  obtain ⟨segment, ⟨before, after, hscan⟩, direct⟩ :=
    (ofSource_eq_ok_iff_derives.mp h).exists_direct hn
  rw [List.append_assoc] at hscan
  have scanned : ∀ token ∈ lexicon.scan (Source.strip input), Spelled token :=
    fun _ => spelled_of_mem_scan
  have spelled : ∀ token ∈ segment, Spelled token := fun token hmem =>
    scanned token (hscan ▸ by simp [hmem])
  obtain ⟨opens, core, closes, trimmed, extent, whole⟩ := direct.exists_core spelled
  have hcore : lexicon.scan (Source.strip input) =
      (before ++ opens) ++ (core ++ (closes ++ after)) := by
    rw [← hscan, trimmed.eq]
    simp
  have hchars := Source.chars_cut hcore extent
  have paired_iff : Paired (Tokens.chars core) ↔ Paired (n.span.cut input).toList := by
    rw [← hchars, paired_chars_strip]
  have of_whole (hnil : opens = [] ∧ closes = []) :
      ∃ n', parse (n.span.cut input) = .ok n' ∧ n.Same n' := by
    have heq := trimmed.eq
    rw [hnil.1, hnil.2, List.nil_append, List.append_nil] at heq
    exact direct.parse_of_chars_eq hscan.symm (heq ▸ hchars)
  refine ⟨Source.fits_of_scan hcore extent, ?_, ⟨?_, ?_⟩, exists_error_of_not_paired, ?_⟩
  · refine ⟨opens.length, closes.length, direct.parse_of_chars_eq hscan.symm ?_⟩
    rw [chars_strip_enclose, hchars, ← trimmed.chars_opens spelled,
      ← trimmed.chars_closes spelled, ← Tokens.chars_append, ← Tokens.chars_append, ← trimmed.eq]
  · rintro ⟨n', hparse, -⟩
    exact paired_of_parse hparse
  · exact fun paired => of_whole (whole (.inr (paired_iff.mpr paired)))
  · intro hoperation
    obtain ⟨n', hparse, -⟩ := of_whole (whole (.inl hoperation))
    exact paired_of_parse hparse

theorem parse_cut_of_sum :
    ∃ e n, parse "2 * (1 + 3)" = .ok e ∧ n ∈ e.nodes ∧ n.span.cut "2 * (1 + 3)" = "1 + 3" ∧
      ∃ n', parse (n.span.cut "2 * (1 + 3)") = .ok n' ∧ n.Same n' := by
  have hparse : parse "2 * (1 + 3)" = .ok (.binary .mul ⟨2, 3⟩ (.literal 2 ⟨0, 1⟩)
      (.binary .add ⟨7, 8⟩ (.literal 1 ⟨5, 6⟩) (.literal 3 ⟨9, 10⟩) ⟨5, 10⟩) ⟨0, 10⟩) := by
    decide +kernel
  refine ⟨_, .binary .add ⟨7, 8⟩ (.literal 1 ⟨5, 6⟩) (.literal 3 ⟨9, 10⟩) ⟨5, 10⟩, hparse, ?_,
    by decide +kernel, (parse_cut hparse ?_).2.2.1.mpr (by decide +kernel)⟩
  · simp [Expr.nodes]
  · simp [Expr.nodes]

/-- The region of a product starts inside the parentheses around its first factor. -/
theorem product_region_torn :
    ∃ e n, parse "(1+2)*3" = .ok e ∧ n ∈ e.nodes ∧ n.span.cut "(1+2)*3" = "1+2)*3" ∧
      ¬∃ n', parse (n.span.cut "(1+2)*3") = .ok n' ∧ n.Same n' := by
  refine ⟨.binary .mul ⟨5, 6⟩ (.binary .add ⟨2, 3⟩ (.literal 1 ⟨1, 2⟩) (.literal 2 ⟨3, 4⟩) ⟨1, 4⟩)
    (.literal 3 ⟨6, 7⟩) ⟨1, 7⟩, _, by decide +kernel, List.mem_cons_self, by decide +kernel, ?_⟩
  rintro ⟨n', hparse, -⟩
  have torn : ¬Paired ((Span.mk 1 7).cut "(1+2)*3").toList := by decide +kernel
  exact torn (paired_of_parse hparse)

end Inputs

end Calculator.Arith
