import DeepDiffForge.Lib.Greedy
import DeepDiffForge.Tui.Paint

/-! The highlighter's spans, and the two renderers that colour a source with them: colouring
changes nothing but colour. -/

namespace DeepDiffForge.Tui
open Text Slices Greedy DeepDiffForge.Core DeepDiffForge.Projection

def HighlightClass.ansiSgr : HighlightClass → Str
  | .keyword => "35".toList
  | .function => "34".toList
  | .type => "36".toList
  | .stringLit => "32".toList
  | .comment => "90".toList
  | .number | .constant | .attribute => "33".toList
  | .operator => "37".toList
  | .variable | .plain => "39".toList

/-- Whether one span may stand before another: by start, then by length. -/
def spanLe (one two : HighlightSpan) : Bool :=
  one.start < two.start ||
    (one.start = two.start && one.stop - one.start ≤ two.stop - two.start)

/-- Overlapping captures resolved: the shortest at a start, then nothing that overlaps. -/
def flatten (raw : List HighlightSpan) : List HighlightSpan :=
  greedy (·.start) (·.stop) 0 (raw.mergeSort spanLe)

def displaySafeLines (text : Str) : Str :=
  ['\n'].intercalate ((text.splitOn '\n').map displaySafe)

def escape : Char := Char.ofNat 0x1B

def openCode (cls : HighlightClass) : Str := escape :: '[' :: (cls.ansiSgr ++ ['m'])

def resetCode : Str := [escape, '[', '0', 'm']

def ansiFrom (source : Str) : Nat → List HighlightSpan → Str
  | cursor, [] => (textGet source cursor (byteLength source)).elim [] displaySafeLines
  | cursor, span :: spans =>
      (if cursor < span.start then (textGet source cursor span.start).elim [] displaySafeLines
        else []) ++
      (textGet source span.start span.stop).elim []
        (fun text => openCode span.cls ++ displaySafeLines text ++ resetCode) ++
      ansiFrom source (max span.stop cursor) spans

def toAnsi (source : Str) (spans : List HighlightSpan) : Str := ansiFrom source 0 spans

/-- Text with its colour codes deleted; `inside` holds within one. -/
def stripCodes : Bool → Str → Str
  | _, [] => []
  | false, c :: rest => if c = escape then stripCodes true rest else c :: stripCodes false rest
  | true, c :: rest => stripCodes (c ≠ 'm') rest

structure HighlightSpan.Within (span : HighlightSpan) (source : Str) : Prop where
  start : isCharBoundary (Utf8.encode source) span.start = true
  stop : isCharBoundary (Utf8.encode source) span.stop = true
  starts : span.start ≤ byteLength source
  stops : span.stop ≤ byteLength source

/-! ### The spans kept -/

theorem spanLe_iff (one two : HighlightSpan) :
    spanLe one two = true ↔ one.start < two.start ∨ one.start = two.start ∧
      one.stop - one.start ≤ two.stop - two.start := by
  rw [spanLe, Bool.or_eq_true, Bool.and_eq_true, decide_eq_true_iff, decide_eq_true_iff,
    decide_eq_true_iff]

theorem sorted_spans (raw : List HighlightSpan) :
    (raw.mergeSort spanLe).Pairwise fun one two => one.start < two.start ∨
      one.start = two.start ∧ one.stop - one.start ≤ two.stop - two.start := by
  have sorted := @List.pairwise_mergeSort HighlightSpan spanLe
    (fun one two three first second => by
      rw [spanLe_iff] at *
      omega)
    (fun one two => by
      rw [Bool.or_eq_true, spanLe_iff, spanLe_iff]
      omega) raw
  exact sorted.imp fun less => (spanLe_iff _ _).1 less

/-- The spans kept are of those given, sorted, filled and disjoint; each filled span overlaps one;
and where one is kept none that begins there is shorter. -/
structure Flat (raw kept : List HighlightSpan) : Prop where
  own : ∃ sorted : List HighlightSpan, sorted.Perm raw ∧ kept.Sublist sorted
  filled : ∀ span ∈ kept, span.start < span.stop
  disjoint : kept.Pairwise fun one two => one.stop ≤ two.start
  maximal : ∀ span ∈ raw, span.start < span.stop → ∃ other ∈ kept,
    other.start < span.stop ∧ span.start < other.stop
  shortest : ∀ other ∈ kept, ∀ span ∈ raw, span.start < span.stop → span.start = other.start →
    other.stop ≤ span.stop

theorem flatten_flat (raw : List HighlightSpan) : Flat raw (flatten raw) := by
  have sorted := sorted_spans raw
  have perm : (raw.mergeSort spanLe).Perm raw := List.mergeSort_perm ..
  exact {
    own := ⟨_, perm, greedy_sublist _ _ _ _⟩
    filled := fun span listed => (greedy_after _ _ _ _ span listed).2
    disjoint := greedy_disjoint _ _ _ _
    maximal := by
      intro span listed filled
      have starts := sorted.imp fun {one two} order =>
        show one.start ≤ two.start from order.elim Nat.le_of_lt fun same => Nat.le_of_eq same.1
      exact (greedy_overlaps _ _ 0 _ starts span (perm.mem_iff.2 listed) filled).resolve_left
        (Nat.not_lt_zero _)
    shortest := by
      intro other taken span listed filled same
      exact greedy_shortest _ _ 0 _ sorted other span taken (perm.mem_iff.2 listed) filled same }

/-! ### Lines made safe -/

def safeChar (c : Char) : Str := if c = '\n' then ['\n'] else displayChar c

theorem displaySafeLines_chars (text : Str) : displaySafeLines text = text.flatMap safeChar := by
  induction text with
  | nil => rfl
  | cons c text ih =>
    obtain ⟨line, lines, split⟩ := List.exists_cons_of_ne_nil (List.splitOn_ne_nil '\n' text)
    rw [displaySafeLines, split, List.map_cons] at ih
    rw [displaySafeLines, List.splitOn_cons_eq_if_modifyHead, List.flatMap_cons, safeChar, ← ih]
    by_cases feed : c = '\n'
    · rw [if_pos feed, if_pos (beq_iff_eq.2 feed), split]
      rfl
    · rw [if_neg feed, if_neg (by rwa [beq_iff_eq]), split, List.modifyHead_cons, List.map_cons,
        displaySafe_cons]
      cases lines with
      | nil => simp
      | cons next lines => simp [List.intercalate_cons_cons]

theorem displaySafeLines_append (one two : Str) :
    displaySafeLines (one ++ two) = displaySafeLines one ++ displaySafeLines two := by
  rw [displaySafeLines_chars, displaySafeLines_chars, displaySafeLines_chars, List.flatMap_append]

theorem escape_safe (text : Str) : escape ∉ displaySafeLines text := by
  rw [displaySafeLines_chars]
  intro listed
  obtain ⟨c, -, shown⟩ := List.mem_flatMap.1 listed
  rw [safeChar] at shown
  split at shown
  · exact absurd shown (by decide)
  · exact absurd (shownSafely_displayChar c _ shown) (by decide)

/-! ### Cutting a text -/

theorem cut_next (source done rest : Str) (n : Nat) (whole : source = done ++ rest)
    (boundary : isCharBoundary (Utf8.encode source) n = true) (within : n ≤ byteLength source)
    (past : byteLength done ≤ n) :
    ∃ gap after, rest = gap ++ after ∧ byteLength (done ++ gap) = n := by
  obtain ⟨before, after, same, length⟩ := boundary_split source n within boundary
  rw [whole] at same
  rcases List.append_eq_append_iff.1 same with ⟨gap, first, second⟩ | ⟨back, first, second⟩
  · exact ⟨gap, after, second, by rw [← first]; exact length⟩
  · have empty : back = [] := by
      by_contra present
      have more := byteLength_pos back present
      rw [first, byteLength_append] at past
      have length' : byteLength before = n := length
      omega
    refine ⟨[], after, ?_, ?_⟩
    · rw [second, empty]
      rfl
    · rw [List.append_nil, first, empty, List.append_nil]
      exact length

theorem textGet_cut (before text after : Str) :
    textGet (before ++ (text ++ after)) (byteLength before) (byteLength (before ++ text)) =
      some text := by
  have first : isCharBoundary (Utf8.encode (before ++ (text ++ after))) (byteLength before) = true :=
    boundary_append before _
  have second : isCharBoundary (Utf8.encode (before ++ (text ++ after)))
      (byteLength (before ++ text)) = true := by
    rw [← List.append_assoc]
    exact boundary_append (before ++ text) after
  have sizes : byteLength before ≤ byteLength (before ++ text) := by
    rw [byteLength_append]
    omega
  have bytes : (Utf8.encode (before ++ (text ++ after))).take (byteLength (before ++ text)) =
      Utf8.encode before ++ Utf8.encode text := by
    rw [← List.append_assoc, Utf8.encode_append, byteLength, List.take_left, Utf8.encode_append]
  have fits : byteLength (before ++ text) ≤ (Utf8.encode (before ++ (text ++ after))).length := by
    rw [← List.append_assoc, Utf8.encode_append, List.length_append]
    exact Nat.le_add_right _ _
  unfold textGet
  rw [if_pos ⟨sizes, fits, first, second⟩, bytes, byteLength, List.drop_left, Utf8.decode_encode]

structure Follows (source : Str) (cursor : Nat) (spans : List HighlightSpan) : Prop where
  within : ∀ span ∈ spans, span.Within source
  after : ∀ span ∈ spans, cursor ≤ span.start ∧ span.start < span.stop
  disjoint : spans.Pairwise fun one two => one.stop ≤ two.start

theorem follows_tail (source : Str) (cursor : Nat) (span : HighlightSpan)
    (spans : List HighlightSpan) (follows : Follows source cursor (span :: spans)) :
    Follows source span.stop spans where
  within := fun other listed => follows.within other (List.mem_cons_of_mem _ listed)
  after := fun other listed => ⟨(List.pairwise_cons.1 follows.disjoint).1 other listed,
    (follows.after other (List.mem_cons_of_mem _ listed)).2⟩
  disjoint := (List.pairwise_cons.1 follows.disjoint).2

theorem cut_span (source done rest : Str) (span : HighlightSpan) (spans : List HighlightSpan)
    (whole : source = done ++ rest)
    (follows : Follows source (byteLength done) (span :: spans)) :
    ∃ gap token after, rest = gap ++ (token ++ after) ∧ byteLength (done ++ gap) = span.start ∧
      byteLength (done ++ gap ++ token) = span.stop ∧
      textGet source (byteLength done) span.start = some gap ∧
      textGet source span.start span.stop = some token := by
  have within := follows.within span List.mem_cons_self
  obtain ⟨past, filled⟩ := follows.after span List.mem_cons_self
  obtain ⟨gap, later, same, start⟩ :=
    cut_next source done rest span.start whole within.start within.starts past
  have whole' : source = (done ++ gap) ++ later := by
    rw [whole, same, List.append_assoc]
  obtain ⟨token, after, same', stop⟩ := cut_next source (done ++ gap) later span.stop whole'
    within.stop within.stops (by omega)
  refine ⟨gap, token, after, by rw [same, same'], start, stop, ?_, ?_⟩
  · rw [← start, whole, same]
    exact textGet_cut done gap later
  · rw [← start, ← stop, whole', same']
    exact textGet_cut (done ++ gap) token after

theorem textGet_rest (done rest : Str) :
    textGet (done ++ rest) (byteLength done) (byteLength (done ++ rest)) = some rest := by
  have cut := textGet_cut done rest []
  rwa [List.append_nil] at cut

/-! ### The ANSI text -/

inductive Part where
  | bare (text : Str)
  | coloured (cls : HighlightClass) (text : Str)

namespace Part

def text : Part → Str
  | .bare text => text
  | .coloured _ text => text

def write : Part → Str
  | .bare text => displaySafeLines text
  | .coloured cls text => openCode cls ++ displaySafeLines text ++ resetCode

def span : Part → Option (HighlightClass × Str)
  | .bare _ => none
  | .coloured cls text => some (cls, text)

end Part

def spanText (source : Str) (span : HighlightSpan) : HighlightClass × Str :=
  (span.cls, (textGet source span.start span.stop).getD [])

theorem ansi_parts (source done rest : Str) (spans : List HighlightSpan)
    (whole : source = done ++ rest) (follows : Follows source (byteLength done) spans) :
    ∃ parts : List Part, ansiFrom source (byteLength done) spans = parts.flatMap Part.write ∧
      parts.flatMap Part.text = rest ∧ parts.filterMap Part.span = spans.map (spanText source) := by
  induction spans generalizing done rest with
  | nil =>
    refine ⟨[.bare rest], ?_, List.append_nil rest, rfl⟩
    rw [ansiFrom, whole, textGet_rest]
    exact (List.append_nil _).symm
  | cons span spans ih =>
    obtain ⟨gap, token, after, same, start, stop, before, own⟩ :=
      cut_span source done rest span spans whole follows
    have whole' : source = (done ++ gap ++ token) ++ after := by
      rw [whole, same, List.append_assoc, List.append_assoc]
    have tail := follows_tail source _ span spans follows
    rw [← stop] at tail
    obtain ⟨parts, written, texts, colours⟩ := ih _ _ whole' tail
    have cursor : max span.stop (byteLength done) = byteLength (done ++ gap ++ token) := by
      have := (follows.after span List.mem_cons_self)
      omega
    have lead : (if byteLength done < span.start then
        (textGet source (byteLength done) span.start).elim [] displaySafeLines else []) =
        displaySafeLines gap := by
      by_cases ahead : byteLength done < span.start
      · rw [if_pos ahead, before, Option.elim_some]
      · have empty : gap = [] := by
          by_contra present
          have more := byteLength_pos gap present
          rw [byteLength_append] at start
          omega
        rw [if_neg ahead, empty]
        rfl
    refine ⟨.bare gap :: .coloured span.cls token :: parts, ?_, ?_, ?_⟩
    · rw [ansiFrom, lead, own, Option.elim_some, cursor, written, List.flatMap_cons,
        List.flatMap_cons, List.append_assoc]
      rfl
    · rw [List.flatMap_cons, List.flatMap_cons, texts, same]
      rfl
    · rw [List.filterMap_cons_none rfl, List.map_cons, ← colours, spanText, own]
      rfl

theorem stripCodes_free (text rest : Str) (free : escape ∉ text) :
    stripCodes false (text ++ rest) = text ++ stripCodes false rest := by
  induction text with
  | nil => rfl
  | cons c text ih =>
    rw [List.mem_cons, not_or] at free
    rw [List.cons_append, stripCodes, if_neg (Ne.symm free.1), ih free.2, List.cons_append]

theorem stripCodes_open (cls : HighlightClass) (rest : Str) :
    stripCodes false (openCode cls ++ rest) = stripCodes false rest := by
  cases cls <;> rfl

theorem stripCodes_parts (parts : List Part) :
    stripCodes false (parts.flatMap Part.write) = displaySafeLines (parts.flatMap Part.text) := by
  induction parts with
  | nil => rfl
  | cons part parts ih =>
    rw [List.flatMap_cons, List.flatMap_cons, displaySafeLines_append]
    cases part with
    | bare text =>
      rw [Part.write, Part.text, stripCodes_free _ _ (escape_safe text), ih]
    | coloured cls text =>
      have reset : stripCodes false (resetCode ++ parts.flatMap Part.write) =
          stripCodes false (parts.flatMap Part.write) := rfl
      rw [Part.write, Part.text, List.append_assoc, List.append_assoc, stripCodes_open,
        stripCodes_free _ _ (escape_safe text), reset, ih]

/-- Where an escape stands in two texts, the first free of them, it stands in the second. -/
theorem escape_later (text rest before after : Str) (free : escape ∉ text)
    (same : text ++ rest = before ++ escape :: after) :
    ∃ before', rest = before' ++ escape :: after := by
  rcases List.append_eq_append_iff.1 same with ⟨middle, -, second⟩ | ⟨middle, first, second⟩
  · exact ⟨middle, second⟩
  · cases middle with
    | nil => exact ⟨[], second.symm⟩
    | cons c middle =>
      obtain ⟨rfl, -⟩ := List.cons.inj second
      rw [first] at free
      exact absurd (List.mem_append_right _ List.mem_cons_self) free

def IsCode (code : Str) : Prop := code = resetCode ∨ ∃ cls, code = openCode cls

theorem escape_code (code rest before after : Str) (coded : IsCode code)
    (same : code ++ rest = before ++ escape :: after) :
    startsWith code (escape :: after) = true ∨ ∃ before', rest = before' ++ escape :: after := by
  have shape : ∃ tail, code = escape :: tail ∧ escape ∉ tail := by
    rcases coded with rfl | ⟨cls, rfl⟩
    · exact ⟨_, rfl, by decide⟩
    · refine ⟨_, rfl, ?_⟩
      cases cls <;> decide
  obtain ⟨tail, rfl, free⟩ := shape
  cases before with
  | nil =>
    rw [List.nil_append] at same
    left
    rw [← same]
    exact startsWith_append _ _
  | cons c before =>
    right
    exact escape_later tail rest before after free (List.cons.inj same).2

theorem escape_parts (parts : List Part) (before after : Str)
    (same : parts.flatMap Part.write = before ++ escape :: after) :
    ∃ code, IsCode code ∧ startsWith code (escape :: after) = true := by
  induction parts generalizing before with
  | nil => exact absurd same.symm (List.append_ne_nil_of_right_ne_nil _ (List.cons_ne_nil _ _))
  | cons part parts ih =>
    rw [List.flatMap_cons] at same
    cases part with
    | bare text =>
      obtain ⟨before', same⟩ := escape_later _ _ _ _ (escape_safe text) same
      exact ih before' same
    | coloured cls text =>
      rw [Part.write, List.append_assoc, List.append_assoc] at same
      have opens : IsCode (openCode cls) := .inr ⟨cls, rfl⟩
      rcases escape_code _ _ _ _ opens same with here | ⟨before', same⟩
      · exact ⟨_, opens, here⟩
      · obtain ⟨before', same⟩ := escape_later _ _ _ _ (escape_safe text) same
        rcases escape_code _ _ _ _ (.inl rfl) same with here | ⟨before', same⟩
        · exact ⟨_, .inl rfl, here⟩
        · exact ih before' same

/-! ### The cockpit's spans -/

theorem color_joined (source done rest : Str) (palette : Palette) (base : Style)
    (spans : List HighlightSpan) (whole : source = done ++ rest)
    (follows : Follows source (byteLength done) spans) :
    (colorFrom source palette base (byteLength done) spans).flatMap (·.content) = rest := by
  induction spans generalizing done rest with
  | nil =>
    rw [colorFrom, whole, textGet_rest]
    by_cases more : byteLength done < byteLength (done ++ rest)
    · rw [if_pos more]
      exact List.append_nil rest
    · rw [if_neg more]
      by_contra present
      have longer := byteLength_pos rest (Ne.symm present)
      rw [byteLength_append] at more
      omega
  | cons span spans ih =>
    obtain ⟨gap, token, after, same, start, stop, before, own⟩ :=
      cut_span source done rest span spans whole follows
    have whole' : source = (done ++ gap ++ token) ++ after := by
      rw [whole, same, List.append_assoc, List.append_assoc]
    have tail := follows_tail source _ span spans follows
    rw [← stop] at tail
    have later := ih _ _ whole' tail
    obtain ⟨past, filled⟩ := follows.after span List.mem_cons_self
    have inside := (follows.within span List.mem_cons_self).stops
    have lead : ((if byteLength done < span.start then
        (textGet source (byteLength done) span.start).toList.map (Span.mk · base)
          else []).flatMap (·.content)) = gap := by
      by_cases ahead : byteLength done < span.start
      · rw [if_pos ahead, before]
        exact List.append_nil gap
      · rw [if_neg ahead]
        by_contra present
        have more := byteLength_pos gap (Ne.symm present)
        rw [byteLength_append] at start
        omega
    rw [colorFrom, if_neg (by omega), own, List.flatMap_append, lead, List.flatMap_cons, ← stop,
      later, same]

/-! ### Nothing but colour -/

theorem follows_flatten (source : Str) (raw : List HighlightSpan)
    (within : ∀ span ∈ raw, span.Within source) : Follows source 0 (flatten raw) where
  within := by
    intro span listed
    have kept := (greedy_sublist _ _ _ _).subset listed
    exact within span ((List.mergeSort_perm ..).mem_iff.1 kept)
  after := greedy_after _ _ 0 _
  disjoint := greedy_disjoint _ _ _ _

theorem displaySafe_clean (text : Str)
    (clean : (text.any fun c => isTerminalUnsafe c || isBidiOrInvisible c) = false) :
    displaySafe text = text := by
  induction text with
  | nil => rfl
  | cons c text ih =>
    rw [List.any_cons, Bool.or_eq_false_iff, Bool.or_eq_false_iff] at clean
    obtain ⟨⟨control, hidden⟩, rest⟩ := clean
    rw [displaySafe_cons, ih rest, displayChar, control, hidden]
    rfl

theorem themed_joined (highlight : Str → List HighlightSpan) (line : Str) (palette : Palette)
    (base : Style) (raw : List HighlightSpan) (own : highlight (expandTabs line) = flatten raw)
    (within : ∀ span ∈ raw, span.Within (expandTabs line)) :
    (themedSpans highlight line palette base).flatMap (·.content) =
      displaySafe (expandTabs line) := by
  unfold themedSpans
  dsimp only
  by_cases risky : ((expandTabs line).any fun c =>
      isTerminalUnsafe c || isBidiOrInvisible c) = true
  · rw [if_pos risky]
    exact List.append_nil _
  · rw [if_neg risky, displaySafe_clean _ (Bool.eq_false_iff.2 risky)]
    by_cases absent : (highlight (expandTabs line)).isEmpty = true
    · rw [if_pos absent]
      exact List.append_nil _
    · rw [if_neg absent, own]
      exact color_joined (expandTabs line) [] _ palette base _ rfl (follows_flatten _ raw within)

/-- Colouring changes nothing but colour: the spans kept are flat; without its codes the ANSI text
is the source made safe, and every escape in it begins a code that opens or ends the colour of one
span; and the cockpit's spans joined are the line made safe. -/
theorem colouring_exact (source : Str) (raw : List HighlightSpan)
    (within : ∀ span ∈ raw, span.Within source) :
    Flat raw (flatten raw) ∧
    stripCodes false (toAnsi source (flatten raw)) = displaySafeLines source ∧
    (∃ parts : List Part, toAnsi source (flatten raw) = parts.flatMap Part.write ∧
      parts.flatMap Part.text = source ∧
      parts.filterMap Part.span = (flatten raw).map (spanText source) ∧
      ∀ part ∈ parts, escape ∉ displaySafeLines part.text) ∧
    (∀ before after, toAnsi source (flatten raw) = before ++ escape :: after →
      ∃ code, IsCode code ∧ startsWith code (escape :: after) = true) ∧
    ∀ (highlight : Str → List HighlightSpan) (line : Str) (palette : Palette) (base : Style),
      expandTabs line = source → highlight source = flatten raw →
        (themedSpans highlight line palette base).flatMap (·.content) =
          displaySafe (expandTabs line) := by
  obtain ⟨parts, written, texts, colours⟩ :=
    ansi_parts source [] source (flatten raw) rfl (follows_flatten source raw within)
  have whole : toAnsi source (flatten raw) = parts.flatMap Part.write := written
  refine ⟨flatten_flat raw, ?_, ⟨parts, whole, texts, colours, fun part _ => escape_safe _⟩, ?_, ?_⟩
  · rw [whole, stripCodes_parts, texts]
  · rw [whole]
    exact escape_parts parts
  · rintro highlight line palette base rfl own
    exact themed_joined highlight line palette base raw own within

/-- Captures of a short source: one inside another, and an empty one. -/
def nestedCaptures : List HighlightSpan :=
  [⟨0, 6, .function⟩, ⟨0, 2, .keyword⟩, ⟨3, 3, .operator⟩, ⟨3, 6, .variable⟩]

theorem colouring_exact_nested :
    stripCodes false (toAnsi "fn \x1Bab".toList (flatten nestedCaptures)) =
      "fn \\x1bab".toList := by
  have within : ∀ span ∈ nestedCaptures, span.Within "fn \x1Bab".toList := by
    have all : nestedCaptures.all (fun span =>
        isCharBoundary (Utf8.encode "fn \x1Bab".toList) span.start &&
        isCharBoundary (Utf8.encode "fn \x1Bab".toList) span.stop &&
        span.start ≤ byteLength "fn \x1Bab".toList &&
        span.stop ≤ byteLength "fn \x1Bab".toList) = true := by
      decide
    intro span listed
    have held := List.all_eq_true.1 all span listed
    simp only [Bool.and_eq_true, decide_eq_true_eq] at held
    exact ⟨held.1.1.1, held.1.1.2, held.1.2, held.2⟩
  have same := (colouring_exact _ _ within).2.1
  rw [same]
  decide

end DeepDiffForge.Tui
