import DeepDiffForge.Core.Escapes
import DeepDiffForge.Pipeline.Review
import Mathlib.Data.List.Chain

/-! The spans of a file as regions of source lines, one hunk and one kind each. -/

namespace DeepDiffForge.Core
open Text

def SemanticChangeKind.rank : SemanticChangeKind → Nat
  | .addedNode => 0
  | .removedNode => 1
  | .modifiedNode => 2
  | .movedNode => 3
  | .reformattedOnly => 4
  | .renamedSymbol => 5

def SemanticChangeKind.wireName : SemanticChangeKind → Str
  | .addedNode => "AddedNode".toList
  | .removedNode => "RemovedNode".toList
  | .modifiedNode => "ModifiedNode".toList
  | .movedNode => "MovedNode".toList
  | .reformattedOnly => "ReformattedOnly".toList
  | .renamedSymbol => "RenamedSymbol".toList

theorem SemanticChangeKind.rank_injective : Function.Injective SemanticChangeKind.rank := by
  intro one two same
  cases one <;> cases two <;> first | rfl | exact absurd same (by decide)

end DeepDiffForge.Core

namespace DeepDiffForge.Pipeline
open Text DeepDiffForge.Core

abbrev Lines : Type := Option (Nat × Nat)

def lines (range : Option TextRange) : Lines := range.map fun r => (r.startLine, r.endLine)

/-- `next` continues a run that starts at or before it and ends no earlier than the line above. -/
def adjoins (run next : Lines) : Bool :=
  match run, next with
  | none, none => true
  | some (start, stop), some (nextStart, _) =>
      start ≤ nextStart && nextStart ≤ saturatingAdd stop 1
  | _, _ => false

def widen (run next : Lines) : Lines :=
  match run, next with
  | some (start, stop), some (_, nextStop) => some (start, max stop nextStop)
  | run, _ => run

def linesJson (lines : Lines) : Str :=
  lines.elim "null".toList fun (start, stop) =>
    '[' :: (decimal start ++ ',' :: (decimal stop ++ [']']))

/-- How a side sorts: an absent one first, then by its lines. -/
def Lines.key : Lines → List Nat
  | none => [0]
  | some (start, stop) => [1, start, stop]

def keyLe : List Nat → List Nat → Bool
  | [], _ => true
  | _ :: _, [] => false
  | a :: as, b :: bs => a < b || (a = b && keyLe as bs)

def sortKey (span : SemanticSpan) : List Nat :=
  span.hunkId :: span.kind.rank ::
    (Lines.key (lines span.oldRange) ++ Lines.key (lines span.newRange))

def sortSpans (spans : List SemanticSpan) : List SemanticSpan :=
  spans.mergeSort fun one two => keyLe (sortKey one) (sortKey two)

structure Region where
  hunkId : HunkId
  kind : SemanticChangeKind
  old : Lines
  new : Lines
  count : Nat
  deriving DecidableEq

def Region.first (span : SemanticSpan) : Region :=
  ⟨span.hunkId, span.kind, lines span.oldRange, lines span.newRange, 1⟩

def Region.joins (region : Region) (span : SemanticSpan) : Bool :=
  region.hunkId = span.hunkId && region.kind = span.kind &&
    adjoins region.old (lines span.oldRange) && adjoins region.new (lines span.newRange)

def Region.extended (region : Region) (span : SemanticSpan) : Region :=
  { region with
    old := widen region.old (lines span.oldRange)
    new := widen region.new (lines span.newRange)
    count := region.count + 1 }

def pushSpan (regions : List Region) (span : SemanticSpan) : List Region :=
  match regions.getLast? with
  | some last =>
      if last.joins span then regions.dropLast ++ [last.extended span] else regions ++ [.first span]
  | none => [.first span]

def regions (spans : List SemanticSpan) : List Region := (sortSpans spans).foldl pushSpan []

def Region.json (region : Region) : Str :=
  "\x7b\"hunk_id\":".toList ++ decimal region.hunkId ++ ",\"kind\":".toList ++
    jsonEscape region.kind.wireName ++ ",\"old_lines\":".toList ++ linesJson region.old ++
    ",\"new_lines\":".toList ++ linesJson region.new ++ ",\"spans\":".toList ++
    decimal region.count ++ ['\x7d']

def regionsJson (spans : List SemanticSpan) : Str :=
  [','].intercalate ((regions spans).map Region.json)

/-! ### Runs of spans -/

def OneLine (range : Option TextRange) : Prop :=
  ∀ r ∈ range, r.startLine = r.endLine ∧ r.endLine ≤ u32Max

def OneLines (span : SemanticSpan) : Prop := OneLine span.oldRange ∧ OneLine span.newRange

theorem lines_oneLine (range : Option TextRange) (whole : OneLine range) :
    lines range = none ∨ ∃ n, lines range = some (n, n) ∧ n ≤ u32Max := by
  cases range with
  | none => exact .inl rfl
  | some r =>
    obtain ⟨same, fits⟩ := whole r rfl
    right
    refine ⟨r.endLine, ?_, fits⟩
    rw [lines, Option.map_some, same]

/-- On one side, the run's interval is exactly the lines of the spans. -/
def CoversSide (run : Lines) (sides : List Lines) : Prop :=
  match run with
  | none => ∀ side ∈ sides, side = none
  | some (start, stop) => (∀ side ∈ sides, ∃ n, side = some (n, n)) ∧
      ∀ n, start ≤ n ∧ n ≤ stop ↔ some (n, n) ∈ sides

structure Covers (region : Region) (spans : List SemanticSpan) : Prop where
  filled : spans ≠ []
  same : ∀ span ∈ spans, span.hunkId = region.hunkId ∧ span.kind = region.kind
  count : region.count = spans.length
  old : CoversSide region.old (spans.map fun span => lines span.oldRange)
  new : CoversSide region.new (spans.map fun span => lines span.newRange)

theorem covers_single (side : Lines)
    (whole : side = none ∨ ∃ n, side = some (n, n) ∧ n ≤ u32Max) : CoversSide side [side] := by
  rcases whole with rfl | ⟨n, rfl, -⟩
  · intro other listed
    exact List.mem_singleton.1 listed
  · refine ⟨fun other listed => ?_, fun m => ?_⟩
    · exact ⟨n, List.mem_singleton.1 listed⟩
    · rw [List.mem_singleton, Option.some.injEq, Prod.mk.injEq, and_self]
      omega

theorem covers_widen (run side : Lines) (sides : List Lines) (covers : CoversSide run sides)
    (filled : sides ≠ []) (whole : side = none ∨ ∃ n, side = some (n, n) ∧ n ≤ u32Max)
    (joins : adjoins run side = true) : CoversSide (widen run side) (sides ++ [side]) := by
  cases run with
  | none =>
    rcases whole with rfl | ⟨n, rfl, -⟩
    · intro other listed
      rcases List.mem_append.1 listed with old | new
      · exact covers other old
      · exact List.mem_singleton.1 new
    · cases joins
  | some bounds =>
    obtain ⟨start, stop⟩ := bounds
    rcases whole with rfl | ⟨n, rfl, fits⟩
    · cases joins
    · obtain ⟨present, exactly⟩ := covers
      rw [adjoins, Bool.and_eq_true, decide_eq_true_iff, decide_eq_true_iff] at joins
      unfold saturatingAdd at joins
      have nonempty : start ≤ stop := by
        obtain ⟨first, listed⟩ := List.exists_mem_of_ne_nil sides filled
        obtain ⟨k, same⟩ := present first listed
        have inside := (exactly k).2 (same ▸ listed)
        omega
      refine ⟨fun other listed => ?_, fun m => ?_⟩
      · rcases List.mem_append.1 listed with old | new
        · exact present other old
        · exact ⟨n, List.mem_singleton.1 new⟩
      · rw [List.mem_append, ← exactly m, List.mem_singleton, Option.some.injEq, Prod.mk.injEq,
          and_self]
        omega

abbrev Runs : Type := List (Region × List SemanticSpan)

def Split (run next : Region × List SemanticSpan) : Prop :=
  ∀ span ∈ next.2.head?, run.1.joins span = false

structure RunsOf (done : List SemanticSpan) (runs : Runs) : Prop where
  spans : runs.flatMap (·.2) = done
  covers : ∀ run ∈ runs, Covers run.1 run.2
  split : runs.IsChain Split

theorem covers_first (span : SemanticSpan) (whole : OneLines span) :
    Covers (.first span) [span] where
  filled := List.cons_ne_nil _ _
  same := by
    intro other listed
    rw [List.mem_singleton.1 listed]
    exact ⟨rfl, rfl⟩
  count := rfl
  old := covers_single _ (lines_oneLine _ whole.1)
  new := covers_single _ (lines_oneLine _ whole.2)

theorem covers_extended (region : Region) (spans : List SemanticSpan) (span : SemanticSpan)
    (covers : Covers region spans) (whole : OneLines span) (joins : region.joins span = true) :
    Covers (region.extended span) (spans ++ [span]) := by
  simp only [Region.joins, Bool.and_eq_true, decide_eq_true_eq] at joins
  obtain ⟨⟨⟨hunk, kind⟩, old⟩, new⟩ := joins
  have filled (side : SemanticSpan → Lines) : spans.map side ≠ [] := by
    rw [ne_eq, List.map_eq_nil_iff]
    exact covers.filled
  exact {
    filled := List.append_ne_nil_of_left_ne_nil covers.filled _
    same := by
      intro other listed
      rcases List.mem_append.1 listed with early | last
      · exact covers.same other early
      · rw [List.mem_singleton.1 last]
        exact ⟨hunk.symm, kind.symm⟩
    count := by
      rw [List.length_append, ← covers.count]
      rfl
    old := by
      rw [List.map_append]
      exact covers_widen _ _ _ covers.old (filled _) (lines_oneLine _ whole.1) old
    new := by
      rw [List.map_append]
      exact covers_widen _ _ _ covers.new (filled _) (lines_oneLine _ whole.2) new }

theorem push_runs (done : List SemanticSpan) (runs : Runs) (span : SemanticSpan)
    (held : RunsOf done runs) (whole : OneLines span) :
    ∃ runs', RunsOf (done ++ [span]) runs' ∧
      pushSpan (runs.map (·.1)) span = runs'.map (·.1) := by
  obtain rfl | ⟨init, last, rfl⟩ := List.eq_nil_or_concat runs
  · refine ⟨[(.first span, [span])], ?_, rfl⟩
    exact {
      spans := by rw [← held.spans]; rfl
      covers := by
        intro run listed
        rw [List.mem_singleton.1 listed]
        exact covers_first span whole
      split := List.isChain_singleton _ }
  · rw [List.concat_eq_append] at held ⊢
    obtain ⟨region, spans⟩ := last
    have spans' := held.spans
    have own := held.covers (region, spans) (List.mem_append_right _ List.mem_cons_self)
    have pushed : pushSpan ((init ++ [(region, spans)]).map (·.1)) span =
        if region.joins span then init.map (·.1) ++ [region.extended span]
        else init.map (·.1) ++ [region] ++ [.first span] := by
      rw [pushSpan, List.map_append, List.map_singleton, List.getLast?_concat]
      dsimp only
      rw [List.dropLast_concat]
    by_cases joins : region.joins span = true
    · refine ⟨init ++ [(region.extended span, spans ++ [span])], ?_, ?_⟩
      · exact {
          spans := by
            rw [← spans', List.flatMap_append, List.flatMap_append, List.flatMap_singleton,
              List.flatMap_singleton, List.append_assoc]
          covers := by
            intro run listed
            rcases List.mem_append.1 listed with early | final
            · exact held.covers run (List.mem_append_left _ early)
            · rw [List.mem_singleton.1 final]
              exact covers_extended region spans span own whole joins
          split := by
            obtain ⟨before, -, link⟩ := List.isChain_append.1 held.split
            refine List.isChain_append.2 ⟨before, List.isChain_singleton _, ?_⟩
            intro run final next head
            cases head
            have linked := link run final _ rfl
            intro first start
            apply linked first
            rw [List.head?_append_of_ne_nil _ own.filled] at start
            exact start }
      · rw [pushed, if_pos joins, List.map_append]
        rfl
    · refine ⟨init ++ [(region, spans)] ++ [(.first span, [span])], ?_, ?_⟩
      · exact {
          spans := by
            rw [List.flatMap_append, spans']
            rfl
          covers := by
            intro run listed
            rcases List.mem_append.1 listed with early | final
            · exact held.covers run early
            · rw [List.mem_singleton.1 final]
              exact covers_first span whole
          split := by
            refine List.isChain_append.2 ⟨held.split, List.isChain_singleton _, ?_⟩
            intro run final next head
            rw [List.getLast?_concat] at final
            cases final
            cases head
            intro first start
            cases start
            exact Bool.not_eq_true _ ▸ joins }
      · rw [pushed, if_neg joins, List.map_append, List.map_append]
        rfl

theorem fold_runs (spans : List SemanticSpan) (whole : ∀ span ∈ spans, OneLines span) :
    ∃ runs, RunsOf spans runs ∧ spans.foldl pushSpan [] = runs.map (·.1) := by
  induction spans using List.reverseRecOn with
  | nil =>
    refine ⟨[], ?_, rfl⟩
    exact {
      spans := rfl
      covers := fun run listed => absurd listed List.not_mem_nil
      split := List.isChain_nil }
  | append_singleton spans span ih =>
    obtain ⟨runs, held, same⟩ := ih fun other listed => whole other (List.mem_append_left _ listed)
    obtain ⟨runs', held', pushed⟩ := push_runs spans runs span held
      (whole span (List.mem_append_right _ List.mem_cons_self))
    refine ⟨runs', held', ?_⟩
    rw [List.foldl_append, same]
    exact pushed

/-! ### Sorted spans -/

theorem sortSpans_perm (spans : List SemanticSpan) : (sortSpans spans).Perm spans :=
  List.mergeSort_perm ..

theorem keyLe_cons (a b : Nat) (as bs : List Nat) :
    keyLe (a :: as) (b :: bs) = true ↔ a < b ∨ a = b ∧ keyLe as bs = true := by
  rw [keyLe, Bool.or_eq_true, Bool.and_eq_true, decide_eq_true_iff, decide_eq_true_iff]

/-- How one line sorts before another, with what follows them. -/
theorem keyLe_line (m n : Nat) (as bs : List Nat) :
    keyLe (Lines.key (some (m, m)) ++ as) (Lines.key (some (n, n)) ++ bs) = true ↔
      m < n ∨ m = n ∧ keyLe as bs = true := by
  show keyLe (1 :: m :: m :: as) (1 :: n :: n :: bs) = true ↔ _
  rw [keyLe_cons, keyLe_cons, keyLe_cons]
  constructor
  · intro less
    rcases less with less | ⟨-, less | ⟨same, less | ⟨-, rest⟩⟩⟩
    · exact absurd less (Nat.lt_irrefl 1)
    · exact .inl less
    · exact .inl less
    · exact .inr ⟨same, rest⟩
  · intro less
    rcases less with less | ⟨same, rest⟩
    · exact .inr ⟨rfl, .inl less⟩
    · exact .inr ⟨rfl, .inr ⟨same, .inr ⟨same, rest⟩⟩⟩

theorem keyLe_none (as bs : List Nat) :
    keyLe (Lines.key none ++ as) (Lines.key none ++ bs) = keyLe as bs := by
  show keyLe (0 :: as) (0 :: bs) = _
  rw [Bool.eq_iff_iff, keyLe_cons]
  constructor
  · intro less
    exact (less.resolve_left (Nat.lt_irrefl 0)).2
  · intro rest
    exact .inr ⟨rfl, rest⟩

theorem keyLe_total (one two : List Nat) : (keyLe one two || keyLe two one) = true := by
  rw [Bool.or_eq_true]
  induction one generalizing two with
  | nil => exact .inl rfl
  | cons a one ih =>
    cases two with
    | nil => exact .inr rfl
    | cons b two =>
      rw [keyLe_cons, keyLe_cons]
      have rest := ih two
      rcases Nat.lt_trichotomy a b with less | same | more
      · exact .inl (.inl less)
      · exact rest.imp (fun rest => .inr ⟨same, rest⟩) (fun rest => .inr ⟨same.symm, rest⟩)
      · exact .inr (.inl more)

theorem keyLe_trans (one two three : List Nat) (first : keyLe one two = true)
    (second : keyLe two three = true) : keyLe one three = true := by
  induction one generalizing two three with
  | nil => rfl
  | cons a one ih =>
    cases two with
    | nil => cases first
    | cons b two =>
      cases three with
      | nil => cases second
      | cons c three =>
        rw [keyLe_cons] at first second ⊢
        rcases first with less | ⟨same, rest⟩
        · rcases second with less' | ⟨same', -⟩
          · exact .inl (less.trans less')
          · exact .inl (same' ▸ less)
        · rcases second with less' | ⟨same', rest'⟩
          · exact .inl (same ▸ less')
          · exact .inr ⟨same.trans same', ih two three rest rest'⟩

theorem keyLe_antisymm (one two : List Nat) (first : keyLe one two = true)
    (second : keyLe two one = true) : one = two := by
  induction one generalizing two with
  | nil =>
    cases two with
    | nil => rfl
    | cons => cases second
  | cons a one ih =>
    cases two with
    | nil => cases first
    | cons b two =>
      rw [keyLe_cons] at first second
      rcases first with less | ⟨same, rest⟩
      · rcases second with less' | ⟨same', -⟩ <;> omega
      · rcases second with less' | ⟨-, rest'⟩
        · omega
        · rw [same, ih two rest rest']

theorem sortSpans_sorted (spans : List SemanticSpan) :
    (sortSpans spans).Pairwise fun one two => keyLe (sortKey one) (sortKey two) = true :=
  @List.pairwise_mergeSort SemanticSpan (fun one two => keyLe (sortKey one) (sortKey two))
    (fun one two three => keyLe_trans (sortKey one) (sortKey two) (sortKey three))
    (fun one two => keyLe_total (sortKey one) (sortKey two)) spans

def lineKey (span : SemanticSpan) : List Nat :=
  Lines.key (lines span.oldRange) ++ Lines.key (lines span.newRange)

theorem sortKey_le (one two : SemanticSpan) :
    keyLe (sortKey one) (sortKey two) = true ↔
      one.hunkId < two.hunkId ∨ one.hunkId = two.hunkId ∧
        (one.kind.rank < two.kind.rank ∨ one.kind.rank = two.kind.rank ∧
          keyLe (lineKey one) (lineKey two) = true) := by
  rw [sortKey, sortKey, keyLe_cons, keyLe_cons]
  rfl

theorem between_same (one span two : SemanticSpan)
    (first : keyLe (sortKey one) (sortKey span) = true)
    (second : keyLe (sortKey span) (sortKey two) = true) (hunk : one.hunkId = two.hunkId)
    (kind : one.kind = two.kind) :
    span.hunkId = one.hunkId ∧ span.kind = one.kind ∧
      keyLe (lineKey one) (lineKey span) = true ∧ keyLe (lineKey span) (lineKey two) = true := by
  rw [sortKey_le] at first second
  have ranks : one.kind.rank = two.kind.rank := congrArg _ kind
  have low : one.hunkId ≤ span.hunkId :=
    first.elim Nat.le_of_lt fun same => Nat.le_of_eq same.1
  have high : span.hunkId ≤ one.hunkId := by
    rw [hunk]
    exact second.elim Nat.le_of_lt fun same => Nat.le_of_eq same.1
  have hunks : span.hunkId = one.hunkId := Nat.le_antisymm high low
  have rank : span.kind.rank = one.kind.rank := by
    rw [hunks, hunk] at second
    rw [hunks] at first
    have first' := first.resolve_left (Nat.lt_irrefl _)
    have second' := second.resolve_left (Nat.lt_irrefl _)
    omega
  have hunks' : span.hunkId = two.hunkId := hunks.trans hunk
  rw [hunks, rank] at first
  rw [hunks', rank, ranks] at second
  refine ⟨hunks, SemanticChangeKind.rank_injective rank, ?_, ?_⟩
  · rcases first with less | ⟨-, less | ⟨-, rest⟩⟩
    · exact absurd less (Nat.lt_irrefl _)
    · exact absurd less (Nat.lt_irrefl _)
    · exact rest
  · rcases second with less | ⟨-, less | ⟨-, rest⟩⟩
    · exact absurd less (Nat.lt_irrefl _)
    · exact absurd less (Nat.lt_irrefl _)
    · exact rest

/-! ### Regions apart -/

theorem coversSide_bounds (start stop : Nat) (sides : List Lines)
    (covers : CoversSide (some (start, stop)) sides) (filled : sides ≠ []) : start ≤ stop := by
  obtain ⟨first, listed⟩ := List.exists_mem_of_ne_nil sides filled
  obtain ⟨k, same⟩ := covers.1 first listed
  have inside := (covers.2 k).2 (same ▸ listed)
  omega

/-- A line at or below a run's start that does not adjoin it is past the line after its end. -/
theorem adjoins_false (start stop n : Nat) (fits : n ≤ u32Max) (low : start ≤ n)
    (apart : adjoins (some (start, stop)) (some (n, n)) = false) : stop + 1 < n := by
  rw [adjoins, Bool.and_eq_false_iff, decide_eq_false_iff_not, decide_eq_false_iff_not] at apart
  rcases apart with under | past
  · exact absurd low under
  · unfold saturatingAdd at past
    rcases Nat.lt_or_ge (stop + 1) n with less | more
    · exact less
    · exact absurd (Nat.le_min.2 ⟨more, fits⟩) past

theorem run_between (done : List SemanticSpan) (runs front rest : Runs)
    (run next : Region × List SemanticSpan) (held : RunsOf done runs)
    (sorted : done.Pairwise fun one two => keyLe (sortKey one) (sortKey two) = true)
    (split : runs = front ++ run :: rest) (later : next ∈ rest) (one two : SemanticSpan)
    (first : one ∈ run.2) (second : two ∈ next.2) :
    ∃ span ∈ done, run.1.joins span = false ∧
      keyLe (sortKey one) (sortKey span) = true ∧ keyLe (sortKey span) (sortKey two) = true := by
  cases rest with
  | nil => cases later
  | cons after rest =>
    have own := held.covers after (by rw [split]; simp)
    obtain ⟨span, others, starts⟩ := List.exists_cons_of_ne_nil own.filled
    have link : Split run after := by
      have chain := held.split
      rw [split] at chain
      exact (List.isChain_append_cons_cons.1 chain).2.1
    have whole : done = front.flatMap (·.2) ++ (run.2 ++ (span :: others ++ rest.flatMap (·.2))) := by
      rw [← held.spans, split, List.flatMap_append, List.flatMap_cons, List.flatMap_cons, starts]
    rw [whole, List.pairwise_append] at sorted
    obtain ⟨-, sorted, -⟩ := sorted
    rw [List.pairwise_append] at sorted
    obtain ⟨-, tail, before⟩ := sorted
    rw [List.cons_append, List.pairwise_cons] at tail
    refine ⟨span, ?_, link span (by rw [starts]; rfl), ?_, ?_⟩
    · rw [whole]
      simp
    · exact before one first span (by simp)
    · have member : two ∈ span :: (others ++ rest.flatMap (·.2)) := by
        rcases List.mem_cons.1 later with rfl | later
        · rw [starts] at second
          exact List.mem_append_left _ second
        · rw [← List.cons_append]
          exact List.mem_append_right _ (List.mem_flatMap.2 ⟨next, later, second⟩)
      rcases List.mem_cons.1 member with rfl | inside
      · have total := keyLe_total (sortKey two) (sortKey two)
        rwa [Bool.or_self] at total
      · exact tail.1 two inside

theorem side_none (side : SemanticSpan → Lines) (spans : List SemanticSpan)
    (covers : CoversSide none (spans.map side)) (span : SemanticSpan) (listed : span ∈ spans) :
    side span = none := covers _ (List.mem_map_of_mem listed)

theorem side_some (side : SemanticSpan → Lines) (spans : List SemanticSpan) (start stop n : Nat)
    (covers : CoversSide (some (start, stop)) (spans.map side)) (low : start ≤ n) (high : n ≤ stop) :
    ∃ span ∈ spans, side span = some (n, n) := by
  obtain ⟨span, listed, same⟩ := List.mem_map.1 ((covers.2 n).1 ⟨low, high⟩)
  exact ⟨span, listed, same⟩

section
variable (done : List SemanticSpan) (runs front rest : Runs)
  (run next : Region × List SemanticSpan) (held : RunsOf done runs)
  (whole : ∀ span ∈ done, OneLines span)
  (sorted : done.Pairwise fun one two => keyLe (sortKey one) (sortKey two) = true)
  (split : runs = front ++ run :: rest) (later : next ∈ rest)
  (hunk : run.1.hunkId = next.1.hunkId) (kind : run.1.kind = next.1.kind)

include held sorted split later hunk kind in
theorem span_between (one two : SemanticSpan) (first : one ∈ run.2) (second : two ∈ next.2) :
    ∃ span ∈ done, (span.hunkId = run.1.hunkId ∧ span.kind = run.1.kind) ∧
      (adjoins run.1.old (lines span.oldRange) && adjoins run.1.new (lines span.newRange)) = false ∧
      keyLe (lineKey one) (lineKey span) = true ∧ keyLe (lineKey span) (lineKey two) = true := by
  have own := held.covers run (by rw [split]; simp)
  have own' := held.covers next (by rw [split]; simp [later])
  obtain ⟨span, listed, apart, before, after⟩ :=
    run_between done runs front rest run next held sorted split later one two first second
  obtain ⟨oneHunk, oneKind⟩ := own.same one first
  obtain ⟨twoHunk, twoKind⟩ := own'.same two second
  obtain ⟨sameHunk, sameKind, low, high⟩ := between_same one span two before after
    (by rw [oneHunk, twoHunk, hunk]) (by rw [oneKind, twoKind, kind])
  rw [oneHunk] at sameHunk
  rw [oneKind] at sameKind
  refine ⟨span, listed, ⟨sameHunk, sameKind⟩, ?_, low, high⟩
  rw [Region.joins, sameHunk, sameKind] at apart
  simpa only [decide_true, Bool.true_and] using apart

include held whole sorted split later hunk kind in
/-- Two regions with only a new side do not touch. -/
theorem apart_new (old : run.1.old = none) (old' : next.1.old = none) (a b c d : Nat)
    (new : run.1.new = some (a, b)) (new' : next.1.new = some (c, d)) : b + 1 < c := by
  have own := held.covers run (by rw [split]; simp)
  have own' := held.covers next (by rw [split]; simp [later])
  have bounds : a ≤ b := coversSide_bounds a b _ (new ▸ own.new) (by simpa using own.filled)
  have bounds' : c ≤ d := coversSide_bounds c d _ (new' ▸ own'.new) (by simpa using own'.filled)
  obtain ⟨one, first, oneNew⟩ := side_some _ run.2 a b b (new ▸ own.new) bounds (Nat.le_refl b)
  obtain ⟨two, second, twoNew⟩ := side_some _ next.2 c d c (new' ▸ own'.new) (Nat.le_refl c) bounds'
  have oneOld := side_none _ run.2 (old ▸ own.old) one first
  have twoOld := side_none _ next.2 (old' ▸ own'.old) two second
  obtain ⟨span, listed, -, apart, before, after⟩ :=
    span_between done runs front rest run next held sorted split later hunk kind one two first second
  unfold lineKey at before after
  rw [oneOld, oneNew] at before
  rw [twoOld, twoNew] at after
  rw [old, new] at apart
  rcases lines_oneLine _ (whole span listed).1 with spanOld | ⟨m, spanOld, -⟩
  · rcases lines_oneLine _ (whole span listed).2 with spanNew | ⟨n, spanNew, fits⟩
    · rw [spanOld, spanNew] at before
      cases before
    · rw [spanOld, spanNew] at before after apart
      rw [keyLe_none] at before after
      have low : b ≤ n :=
        ((keyLe_line b n [] []).1 before).elim Nat.le_of_lt fun same => Nat.le_of_eq same.1
      have high : n ≤ c :=
        ((keyLe_line n c [] []).1 after).elim Nat.le_of_lt fun same => Nat.le_of_eq same.1
      exact Nat.lt_of_lt_of_le
        (adjoins_false a b n fits (Nat.le_trans bounds low) (by simpa [adjoins] using apart)) high
  · rw [spanOld] at after
    cases after

include held whole sorted split later hunk kind in
/-- Two regions with only an old side are disjoint, and they touch only where a span with both
sides stands on the last line of the first. -/
theorem apart_old (new : run.1.new = none) (new' : next.1.new = none) (a b c d : Nat)
    (old : run.1.old = some (a, b)) (old' : next.1.old = some (c, d)) :
    b < c ∧ (b + 1 = c → ∃ span ∈ done, (span.hunkId = run.1.hunkId ∧ span.kind = run.1.kind) ∧
      lines span.oldRange = some (b, b) ∧ lines span.newRange ≠ none) := by
  have own := held.covers run (by rw [split]; simp)
  have own' := held.covers next (by rw [split]; simp [later])
  have bounds : a ≤ b := coversSide_bounds a b _ (old ▸ own.old) (by simpa using own.filled)
  have bounds' : c ≤ d := coversSide_bounds c d _ (old' ▸ own'.old) (by simpa using own'.filled)
  obtain ⟨one, first, oneOld⟩ := side_some _ run.2 a b b (old ▸ own.old) bounds (Nat.le_refl b)
  obtain ⟨two, second, twoOld⟩ := side_some _ next.2 c d c (old' ▸ own'.old) (Nat.le_refl c) bounds'
  have oneNew := side_none _ run.2 (new ▸ own.new) one first
  have twoNew := side_none _ next.2 (new' ▸ own'.new) two second
  obtain ⟨span, listed, same, apart, before, after⟩ :=
    span_between done runs front rest run next held sorted split later hunk kind one two first second
  unfold lineKey at before after
  rw [oneOld, oneNew] at before
  rw [twoOld, twoNew] at after
  rw [old, new] at apart
  rcases lines_oneLine _ (whole span listed).1 with spanOld | ⟨m, spanOld, fits⟩
  · rw [spanOld] at before
    cases before
  · rcases lines_oneLine _ (whole span listed).2 with spanNew | ⟨n, spanNew, -⟩
    · rw [spanOld, spanNew] at before after apart
      rw [keyLe_line] at before after
      have low : b ≤ m := before.elim Nat.le_of_lt fun same => Nat.le_of_eq same.1
      have high : m ≤ c := after.elim Nat.le_of_lt fun same => Nat.le_of_eq same.1
      have gap : b + 1 < c := Nat.lt_of_lt_of_le
        (adjoins_false a b m fits (Nat.le_trans bounds low) (by simpa [adjoins] using apart)) high
      exact ⟨Nat.lt_of_succ_lt gap, fun touch => absurd touch (Nat.ne_of_lt gap)⟩
    · rw [spanOld, spanNew] at before after
      rw [keyLe_line] at before after
      have low : b ≤ m := before.elim Nat.le_of_lt fun same => Nat.le_of_eq same.1
      have high : m < c := by
        rcases after with less | ⟨-, rest⟩
        · exact less
        · cases rest
      refine ⟨Nat.lt_of_le_of_lt low high, fun touch => ⟨span, listed, same, ?_, ?_⟩⟩
      · have line : m = b := by
          rw [← touch] at high
          exact Nat.le_antisymm (Nat.le_of_lt_succ high) low
        rw [spanOld, line]
      · rw [spanNew]
        exact Option.some_ne_none _

end

/-! ### The order of the spans -/

def regionData (span : SemanticSpan) : HunkId × SemanticChangeKind × Lines × Lines :=
  (span.hunkId, span.kind, lines span.oldRange, lines span.newRange)

theorem linesKey_inj (side side' : Lines) (rest rest' : List Nat)
    (same : Lines.key side ++ rest = Lines.key side' ++ rest') : side = side' ∧ rest = rest' := by
  rcases side with _ | ⟨start, stop⟩ <;> rcases side' with _ | ⟨start', stop'⟩ <;>
    simp_all [Lines.key]

theorem regionData_of_key (one two : SemanticSpan) (same : sortKey one = sortKey two) :
    regionData one = regionData two := by
  unfold sortKey at same
  obtain ⟨hunk, same⟩ := List.cons.inj same
  obtain ⟨kind, same⟩ := List.cons.inj same
  obtain ⟨old, same⟩ := linesKey_inj _ _ _ _ same
  have new := (linesKey_inj _ _ [] [] (by simpa using same)).1
  rw [regionData, regionData, hunk, SemanticChangeKind.rank_injective kind, old, new]

theorem pushSpan_data (regions : List Region) (one two : SemanticSpan)
    (same : regionData one = regionData two) : pushSpan regions one = pushSpan regions two := by
  simp only [regionData, Prod.mk.injEq] at same
  obtain ⟨hunk, kind, old, new⟩ := same
  have first : Region.first one = .first two := by
    rw [Region.first, Region.first, hunk, kind, old, new]
  have joins (region : Region) : region.joins one = region.joins two := by
    rw [Region.joins, Region.joins, hunk, kind, old, new]
  have extended (region : Region) : region.extended one = region.extended two := by
    rw [Region.extended, Region.extended, old, new]
  unfold pushSpan
  rw [first]
  simp only [joins, extended]

theorem fold_data (one two : List SemanticSpan)
    (same : List.Forall₂ (fun a b => regionData a = regionData b) one two)
    (regions : List Region) : one.foldl pushSpan regions = two.foldl pushSpan regions := by
  induction same generalizing regions with
  | nil => rfl
  | cons first rest ih =>
    rw [List.foldl_cons, List.foldl_cons, pushSpan_data regions _ _ first, ih]

/-- The regions are of the spans, in whatever order they are given. -/
theorem regions_perm (one two : List SemanticSpan) (same : one.Perm two) :
    regions one = regions two := by
  have perm : ((sortSpans one).map sortKey).Perm ((sortSpans two).map sortKey) :=
    ((sortSpans_perm one).trans (same.trans (sortSpans_perm two).symm)).map sortKey
  have keys : (sortSpans one).map sortKey = (sortSpans two).map sortKey := by
    have sorted (spans : List SemanticSpan) :
        ((sortSpans spans).map sortKey).Pairwise fun a b => keyLe a b = true :=
      List.pairwise_map.2 (sortSpans_sorted spans)
    exact perm.eq_of_pairwise (fun a b _ _ => keyLe_antisymm a b) (sorted one) (sorted two)
  have paired : List.Forall₂ (fun a b => sortKey a = sortKey b) (sortSpans one) (sortSpans two) := by
    have equal : List.Forall₂ Eq ((sortSpans one).map sortKey) ((sortSpans two).map sortKey) := by
      rw [keys]
      exact List.forall₂_same.2 fun _ _ => rfl
    exact List.forall₂_map_left_iff.1 (List.forall₂_map_right_iff.1 equal)
  exact fold_data _ _ (paired.imp fun _ _ same => regionData_of_key _ _ same) []

/-- Two regions of one hunk and kind on the new side only do not touch; on the old side only they
are disjoint, and touch only at a span with both sides. -/
def Apart (spans : List SemanticSpan) (one two : Region) : Prop :=
  one.hunkId = two.hunkId → one.kind = two.kind →
    (one.old = none → two.old = none → ∀ a b c d, one.new = some (a, b) →
      two.new = some (c, d) → b + 1 < c) ∧
    (one.new = none → two.new = none → ∀ a b c d, one.old = some (a, b) →
      two.old = some (c, d) → b < c ∧ (b + 1 = c → ∃ span ∈ spans,
        (span.hunkId = one.hunkId ∧ span.kind = one.kind) ∧
          lines span.oldRange = some (b, b) ∧ lines span.newRange ≠ none))

theorem pairwise_splits {α : Type} (R : α → α → Prop) (runs : List α)
    (holds : ∀ front run rest, runs = front ++ run :: rest → ∀ next ∈ rest, R run next) :
    runs.Pairwise R := by
  induction runs with
  | nil => exact List.Pairwise.nil
  | cons run runs ih =>
    refine List.pairwise_cons.2 ⟨holds [] run runs rfl, ih fun front later rest split => ?_⟩
    apply holds (run :: front) later rest
    rw [split, List.cons_append]

/-- The regions part the spans by hunk and kind, each side is just its spans' lines, one-sided
regions stand apart, and the order of the spans does not matter. -/
theorem regions_cover (spans : List SemanticSpan) (whole : ∀ span ∈ spans, OneLines span) :
    (∃ runs : List (Region × List SemanticSpan), regions spans = runs.map (·.1) ∧
      (runs.flatMap (·.2)).Perm spans ∧ (∀ run ∈ runs, Covers run.1 run.2)) ∧
    ((regions spans).map (·.count)).sum = spans.length ∧
    (regions spans).Pairwise (Apart spans) ∧
    ∀ other : List SemanticSpan, other.Perm spans → regionsJson other = regionsJson spans := by
  have perm := sortSpans_perm spans
  have whole' : ∀ span ∈ sortSpans spans, OneLines span :=
    fun span listed => whole span (perm.mem_iff.1 listed)
  obtain ⟨runs, held, folded⟩ := fold_runs (sortSpans spans) whole'
  have same : regions spans = runs.map (·.1) := folded
  refine ⟨⟨runs, same, held.spans ▸ perm, held.covers⟩, ?_, ?_, ?_⟩
  · have counts : (regions spans).map (·.count) = runs.map fun run => run.2.length := by
      rw [same, List.map_map]
      exact List.map_congr_left fun run listed => (held.covers run listed).count
    rw [counts, ← perm.length_eq, ← held.spans, List.length_flatMap]
  · rw [same, List.pairwise_map]
    apply pairwise_splits
    intro front run rest split next later hunk kind
    have sorted := sortSpans_sorted spans
    constructor
    · exact apart_new _ runs front rest run next held whole' sorted split later hunk kind
    · intro new new' a b c d old old'
      obtain ⟨disjoint, touch⟩ := apart_old _ runs front rest run next held whole' sorted split later
        hunk kind new new' a b c d old old'
      refine ⟨disjoint, fun adjacent => ?_⟩
      obtain ⟨span, listed, holds⟩ := touch adjacent
      exact ⟨span, perm.mem_iff.1 listed, holds⟩
  · intro other permuted
    rw [regionsJson, regionsJson, regions_perm other spans permuted]

def wholeLine (n : Nat) : TextRange := ⟨0, 0, n, n⟩

/-- Two spans on old lines only, and one on both sides between them. -/
def stackedSpans : List SemanticSpan :=
  [⟨0, 0, .movedNode, some (wholeLine 1), none⟩,
    ⟨1, 0, .movedNode, some (wholeLine 1), some (wholeLine 5)⟩,
    ⟨2, 0, .movedNode, some (wholeLine 2), none⟩]

theorem stackedSpans_whole : ∀ span ∈ stackedSpans, OneLines span := by
  have line (n : Nat) (fits : n ≤ u32Max) : OneLine (some (wholeLine n)) := by
    intro r same
    rw [← Option.some.inj same]
    exact ⟨rfl, fits⟩
  have absent : OneLine none := by
    intro r same
    cases same
  intro span listed
  simp only [stackedSpans, List.mem_cons, List.not_mem_nil, or_false] at listed
  rcases listed with rfl | rfl | rfl
  · exact ⟨line 1 (by decide), absent⟩
  · exact ⟨line 1 (by decide), line 5 (by decide)⟩
  · exact ⟨line 2 (by decide), absent⟩

theorem regions_stacked : regions stackedSpans =
    [⟨0, .movedNode, some (1, 1), none, 1⟩, ⟨0, .movedNode, some (1, 1), some (5, 5), 1⟩,
      ⟨0, .movedNode, some (2, 2), none, 1⟩] := by
  have sorted : sortSpans stackedSpans = stackedSpans := List.mergeSort_of_pairwise (by decide)
  rw [regions, sorted]
  decide

/-- Two regions of one hunk and kind, both on old lines only, touch. -/
theorem regions_touch : (∀ span ∈ stackedSpans, OneLines span) ∧
    ∃ one ∈ regions stackedSpans, ∃ two ∈ regions stackedSpans,
      one.hunkId = two.hunkId ∧ one.kind = two.kind ∧ one.new = none ∧ two.new = none ∧
        one.old = some (1, 1) ∧ two.old = some (2, 2) := by
  refine ⟨stackedSpans_whole, ⟨0, .movedNode, some (1, 1), none, 1⟩, ?_,
    ⟨0, .movedNode, some (2, 2), none, 1⟩, ?_, rfl, rfl, rfl, rfl, rfl, rfl⟩
  · rw [regions_stacked]
    exact List.mem_cons_self
  · rw [regions_stacked]
    exact List.mem_cons_of_mem _ (List.mem_cons_of_mem _ List.mem_cons_self)

theorem regions_cover_stacked :
    ((regions stackedSpans).map (·.count)).sum = 3 ∧
      (regions stackedSpans).Pairwise (Apart stackedSpans) ∧
      regionsJson stackedSpans.reverse = regionsJson stackedSpans := by
  obtain ⟨-, counts, apart, order⟩ := regions_cover stackedSpans stackedSpans_whole
  exact ⟨counts, apart, order _ (List.reverse_perm _)⟩

end DeepDiffForge.Pipeline
