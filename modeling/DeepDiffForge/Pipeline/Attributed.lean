import DeepDiffForge.Pipeline.Review
import DeepDiffForge.Patch.Files

/-! Enrichment leaves the patch as it was captured, and a file counts as analyzed exactly when
each of its changed tokens has its span. -/

namespace DeepDiffForge.Pipeline
open Text DeepDiffForge.Core DeepDiffForge.Patch DeepDiffForge.Syntax Fallible

def fileSpans (file : ReviewFile) : List SemanticSpan := file.semanticTwin.elim [] (·.spans)

def changedKinds (changes : List TokenChange) : List SemanticChangeKind :=
  changes.filterMap fun change => spanKind change.kind

def changedTokens (changes : List TokenChange) : List TokenChange :=
  changes.filter fun change => (spanKind change.kind).isSome

/-- The token has some lines on a side, and `n` is one of them. -/
def occupies (change : TokenChange) (start : Option Nat) (n : Nat) : Prop :=
  ∃ first, start = some first ∧ first ≤ n ∧ n ≤ first + change.text.count '\n'

def HeldIn (file : ReviewFile) (change : TokenChange) (id : HunkId) : Prop :=
  ∃ hunk ∈ file.patchTwin.hunks, hunk.id = id ∧ ∃ line ∈ hunk.lines, ∃ n,
    (line.oldLine = some n ∧ occupies change change.oldLine n) ∨
      (line.newLine = some n ∧ occupies change change.newLine n)

structure Attributed (file : ReviewFile) (change : TokenChange) (span : SemanticSpan) : Prop where
  kind : spanKind change.kind = some span.kind
  held : HeldIn file change span.hunkId

theorem heldBy_some (side : PatchLine → Option Nat) (hunks : List PatchHunk) (n : Nat)
    (id : HunkId) (found : heldBy side hunks n = some id) :
    ∃ hunk ∈ hunks, hunk.id = id ∧ ∃ line ∈ hunk.lines, side line = some n := by
  unfold heldBy at found
  obtain ⟨⟨number, id'⟩, first, same⟩ := Option.map_eq_some_iff.1 found
  have number' : number = n := by simpa using List.find?_some first
  have listed := List.mem_reverse.1 (List.mem_of_find?_eq_some first)
  obtain ⟨hunk, member, inside⟩ := List.mem_flatMap.1 listed
  obtain ⟨line, held, made⟩ := List.mem_filterMap.1 inside
  obtain ⟨number'', side', pair⟩ := Option.map_eq_some_iff.1 made
  cases pair
  exact ⟨hunk, member, same, line, held, side'.trans (congrArg some number')⟩

theorem inHunk_some (change : TokenChange) (held : Nat → Option HunkId) (start : Option Nat)
    (id : HunkId) (found : inHunk change.text held start = some id) :
    ∃ n, occupies change start n ∧ held n = some id := by
  unfold inHunk at found
  obtain ⟨first, starts, found⟩ := Option.bind_eq_some_iff.1 found
  obtain ⟨n, listed, held'⟩ := List.exists_of_findSome?_eq_some found
  rw [List.mem_range'_1] at listed
  refine ⟨n, ⟨first, starts, listed.1, ?_⟩, held'⟩
  have upper := listed.2
  unfold saturatingAdd at upper
  omega

structure Spanned (file : ReviewFile) (start : Nat) (done : List TokenChange) (state : Spans) :
    Prop where
  ids : state.spans.map (·.id) = List.range' start state.spans.length
  next : state.next = start + state.spans.length
  attributed : ∃ taken, taken.Sublist (changedTokens done) ∧
    List.Forall₂ (Attributed file) taken state.spans ∧
    (state.unattributed = true → taken.length < (changedTokens done).length) ∧
    (state.unattributed = false → taken = changedTokens done)

theorem change_spanned (file : ReviewFile) (start : Nat) (oldRanges newRanges : List TextRange)
    (done : List TokenChange) (state : Spans) (change : TokenChange)
    (spanned : Spanned file start done state) :
    Spanned file start (done ++ [change])
      (Spans.change file.patchTwin.hunks oldRanges newRanges state change) := by
  obtain ⟨taken, sub, each, short, whole⟩ := spanned.attributed
  unfold Spans.change
  cases kind : spanKind change.kind with
  | none =>
    have same : changedTokens (done ++ [change]) = changedTokens done := by
      rw [changedTokens, List.filter_append, List.filter_singleton, kind]
      exact List.append_nil _
    exact {
      ids := spanned.ids
      next := spanned.next
      attributed := by
        rw [same]
        exact spanned.attributed }
  | some kind' =>
    have more : changedTokens (done ++ [change]) = changedTokens done ++ [change] := by
      rw [changedTokens, List.filter_append, List.filter_singleton, kind]
      rfl
    dsimp only
    split
    · exact {
        ids := spanned.ids
        next := spanned.next
        attributed := by
          rw [more]
          refine ⟨taken, sub.trans (List.sublist_append_left _ _), each, ?_, ?_⟩
          · intro _
            rw [List.length_append]
            exact Nat.lt_succ_of_le sub.length_le
          · intro never
            cases never }
    · rename_i id found
      have held : HeldIn file change id := by
        rcases Option.or_eq_some_iff.1 found with old | new
        · obtain ⟨n, on, held⟩ := inHunk_some change _ _ id old
          obtain ⟨hunk, member, same, line, inside, side⟩ := heldBy_some _ _ n id held
          exact ⟨hunk, member, same, line, inside, n, .inl ⟨side, on⟩⟩
        · obtain ⟨n, on, held⟩ := inHunk_some change _ _ id new.2
          obtain ⟨hunk, member, same, line, inside, side⟩ := heldBy_some _ _ n id held
          exact ⟨hunk, member, same, line, inside, n, .inr ⟨side, on⟩⟩
      exact {
        ids := by
          rw [List.map_append, spanned.ids, List.length_append, List.map_singleton,
            List.length_singleton, List.range'_concat, spanned.next, Nat.one_mul]
        next := by
          rw [List.length_append, List.length_singleton, ← Nat.add_assoc, ← spanned.next]
        attributed := by
          rw [more]
          refine ⟨taken ++ [change], sub.append_right _, ?_, ?_, ?_⟩
          · exact List.rel_append each (.cons ⟨kind, held⟩ .nil)
          · intro missed
            rw [List.length_append, List.length_append]
            exact Nat.add_lt_add_right (short missed) 1
          · intro all
            rw [whole all] }

theorem changes_spanned (file : ReviewFile) (start : Nat) (oldRanges newRanges : List TextRange)
    (changes : List TokenChange) :
    Spanned file start changes
      (changes.foldl (Spans.change file.patchTwin.hunks oldRanges newRanges) ⟨[], start, false⟩) := by
  induction changes using List.reverseRecOn with
  | nil =>
    refine { ids := rfl, next := rfl, attributed := ⟨[], List.nil_sublist _, .nil, ?_, ?_⟩ }
    · intro never
      cases never
    · intro _
      rfl
  | append_singleton changes change ih =>
    rw [List.foldl_append]
    exact change_spanned file start oldRanges newRanges changes _ change ih

theorem changedKinds_cons (change : TokenChange) (changes : List TokenChange) :
    changedKinds (change :: changes) = (spanKind change.kind).toList ++ changedKinds changes := by
  unfold changedKinds
  rw [List.filterMap_cons]
  cases spanKind change.kind <;> rfl

theorem kinds_taken (file : ReviewFile) (taken : List TokenChange) (spans : List SemanticSpan)
    (each : List.Forall₂ (Attributed file) taken spans) :
    changedKinds taken = spans.map (·.kind) := by
  induction each with
  | nil => rfl
  | cons first rest ih =>
    rw [changedKinds_cons, first.kind, List.map_cons, ← ih]
    rfl

theorem changedKinds_tokens (changes : List TokenChange) :
    changedKinds (changedTokens changes) = changedKinds changes ∧
      (changedKinds changes).length = (changedTokens changes).length := by
  induction changes with
  | nil => exact ⟨rfl, rfl⟩
  | cons change changes ih =>
    cases kind : spanKind change.kind with
    | none =>
      have skipped : changedTokens (change :: changes) = changedTokens changes :=
        List.filter_cons_of_neg (by rw [kind]; decide)
      rw [skipped, changedKinds_cons change changes, kind]
      exact ih
    | some found =>
      have kept : changedTokens (change :: changes) = change :: changedTokens changes :=
        List.filter_cons_of_pos (by rw [kind]; rfl)
      rw [kept, changedKinds_cons, changedKinds_cons, kind, ih.1, List.length_cons, ← ih.2]
      exact ⟨rfl, rfl⟩

theorem spanned_whole (file : ReviewFile) (start : Nat) (changes : List TokenChange)
    (state : Spans) (spanned : Spanned file start changes state) :
    state.unattributed = false ↔ state.spans.map (·.kind) = changedKinds changes := by
  obtain ⟨taken, sub, each, short, whole⟩ := spanned.attributed
  have kinds := kinds_taken file taken state.spans each
  constructor
  · intro all
    rw [← kinds, whole all, (changedKinds_tokens changes).1]
  · intro same
    by_contra missed
    rw [Bool.not_eq_false] at missed
    have less := short missed
    have sizes := congrArg List.length same
    rw [List.length_map, ← each.length_eq, (changedKinds_tokens changes).2] at sizes
    omega

/-! ### The files of a bundle -/

def Kept (file enriched : ReviewFile) : Prop :=
  enriched = { file with semanticTwin := enriched.semanticTwin, planner := enriched.planner }

structure Described (file : ReviewFile) (analysis : FileAnalysis) : Prop where
  path : analysis.path = file.path
  undiffed : analysis.structural = none → fileSpans file = []
  attributed : ∀ diff, analysis.structural = some diff →
    ∃ taken, taken.Sublist (changedTokens diff.changes) ∧
      List.Forall₂ (Attributed file) taken (fileSpans file) ∧
      (analysis.coverage = .analyzed → taken = changedTokens diff.changes)
  analyzed : analysis.coverage = .analyzed ↔ ∃ diff, analysis.structural = some diff ∧
    diff.unavailable = none ∧ diff.degraded = false ∧
      (fileSpans file).map (·.kind) = changedKinds diff.changes

theorem enrich_kept (engine : Engine) (file : ReviewFile) (pair : SourcePair) (start : Nat) :
    Kept file (enrichFile engine file pair start).1 := rfl

section
variable (engine : Engine) (file : ReviewFile) (pair : SourcePair) (start : Nat)

def fileDiff : StructuralDiff :=
  engine (detectLanguage file.path) (pair.old.getD []) (pair.new.getD [])

def foundSpans : Spans :=
  (fileDiff engine file pair).changes.foldl
    (Spans.change file.patchTwin.hunks (lineRanges (pair.old.getD [])) (lineRanges (pair.new.getD [])))
    ⟨[], start, false⟩

theorem found_spanned :
    Spanned file start (fileDiff engine file pair).changes (foundSpans engine file pair start) :=
  changes_spanned file start _ _ _

theorem enrich_coverage :
    (enrichFile engine file pair start).2.1.coverage = .analyzed ↔
      (fileDiff engine file pair).unavailable = none ∧
        (fileDiff engine file pair).degraded = false ∧
          (foundSpans engine file pair start).unattributed = false := by
  have computed : (enrichFile engine file pair start).2.1.coverage =
      let coverage := (fileDiff engine file pair).unavailable.elim
        (if (fileDiff engine file pair).degraded then .partialLcs else .analyzed) .unavailable
      if (foundSpans engine file pair start).unattributed ∧ coverage = .analyzed then .partialLcs
      else coverage := by
    unfold enrichFile foundSpans fileDiff
    dsimp only
    cases (engine (detectLanguage file.path) (pair.old.getD []) (pair.new.getD [])).unavailable <;>
      rfl
  rw [computed]
  cases (fileDiff engine file pair).unavailable with
  | some reason => simp
  | none =>
    cases (fileDiff engine file pair).degraded <;>
      cases (foundSpans engine file pair start).unattributed <;> simp

theorem enrich_described :
    Described (enrichFile engine file pair start).1 (enrichFile engine file pair start).2.1 := by
  have spanned := found_spanned engine file pair start
  obtain ⟨taken, sub, each, -, whole⟩ := spanned.attributed
  exact {
    path := rfl
    undiffed := by
      intro absent
      cases absent
    attributed := by
      intro diff same
      obtain rfl := Option.some.inj same
      refine ⟨taken, sub, each.imp fun _ _ own => ⟨own.kind, own.held⟩, fun analyzed => ?_⟩
      exact whole ((enrich_coverage engine file pair start).1 analyzed).2.2
    analyzed := by
      rw [enrich_coverage, spanned_whole file start _ _ spanned]
      constructor
      · intro whole
        exact ⟨_, rfl, whole⟩
      · intro whole
        obtain ⟨diff, same, whole⟩ := whole
        obtain rfl := Option.some.inj same
        exact whole }

end

theorem skip_described (file : ReviewFile) (coverage : Coverage) (plain : file.semanticTwin = none)
    (skipped : coverage ≠ .analyzed) :
    Described file { path := file.path, coverage, structural := none } where
  path := rfl
  undiffed _ := by
    rw [fileSpans, plain]
    rfl
  attributed := by
    intro diff same
    cases same
  analyzed := by
    constructor
    · intro same
      exact absurd same skipped
    · intro whole
      obtain ⟨diff, same, -⟩ := whole
      cases same

structure Sofar (done : List ReviewFile) (state : Analyzed) : Prop where
  kept : List.Forall₂ Kept done state.files
  described : List.Forall₂ Described state.files state.analyses
  numbered : (state.files.flatMap fileSpans).map (·.id) = List.range state.spanId

theorem skip_sofar (done : List ReviewFile) (state : Analyzed) (file : ReviewFile)
    (coverage : Coverage) (sofar : Sofar done state) (plain : file.semanticTwin = none)
    (skipped : coverage ≠ .analyzed) : Sofar (done ++ [file]) (state.skip file coverage) where
  kept := List.rel_append sofar.kept (.cons rfl .nil)
  described := List.rel_append sofar.described (.cons (skip_described file coverage plain skipped) .nil)
  numbered := by
    have empty : fileSpans file = [] := by
      rw [fileSpans, plain]
      rfl
    show ((state.files ++ [file]).flatMap fileSpans).map (·.id) = List.range state.spanId
    rw [List.flatMap_append, List.flatMap_singleton, empty, List.append_nil]
    exact sofar.numbered

theorem file_sofar (engine : Engine) (debugText : Str → Str) (pairs : List SourcePair)
    (done : List ReviewFile) (state next : Analyzed) (file : ReviewFile) (sofar : Sofar done state)
    (plain : file.semanticTwin = none)
    (taken : Analyzed.file engine debugText pairs state file = .ok next) :
    Sofar (done ++ [file]) next := by
  unfold Analyzed.file at taken
  split at taken
  · cases taken
    exact skip_sofar done state file _ sofar plain (by decide)
  · rename_i pair _
    split_ifs at taken with unsupported mismatch
    · cases taken
      exact skip_sofar done state file _ sofar plain (by decide)
    · cases taken
      have spanned := found_spanned engine file pair state.spanId
      exact {
        kept := List.rel_append sofar.kept (.cons (enrich_kept engine file pair state.spanId) .nil)
        described := List.rel_append sofar.described
          (.cons (enrich_described engine file pair state.spanId) .nil)
        numbered := by
          show ((state.files ++ [_]).flatMap fileSpans).map SemanticSpan.id = List.range _
          rw [List.flatMap_append, List.map_append, sofar.numbered, List.flatMap_singleton]
          show List.range state.spanId ++ (foundSpans engine file pair state.spanId).spans.map _ =
            List.range (foundSpans engine file pair state.spanId).next
          have joined := List.range'_append_1 (s := 0) (m := state.spanId)
            (n := (foundSpans engine file pair state.spanId).spans.length)
          rw [Nat.zero_add] at joined
          rw [spanned.ids, spanned.next, List.range_eq_range', List.range_eq_range', joined] }

theorem files_sofar (engine : Engine) (debugText : Str → Str) (pairs : List SourcePair)
    (files : List ReviewFile) (last : Analyzed)
    (plain : ∀ file ∈ files, file.semanticTwin = none)
    (folded : files.foldlM (Analyzed.file engine debugText pairs) ⟨[], [], 0⟩ = .ok last) :
    Sofar files last := by
  induction files using List.reverseRecOn generalizing last with
  | nil =>
    cases folded
    exact { kept := .nil, described := .nil, numbered := rfl }
  | append_singleton files file ih =>
    rw [List.foldlM_append] at folded
    obtain ⟨state, before, rest⟩ := (bind_eq_ok _ _ _).1 folded
    rw [List.foldlM_cons] at rest
    obtain ⟨next, taken, same⟩ := (bind_eq_ok _ _ _).1 rest
    cases same
    have sofar := ih state (fun file listed => plain file (List.mem_append_left _ listed)) before
    exact file_sofar engine debugText pairs files state _ file sofar
      (plain file (List.mem_append_right _ List.mem_cons_self)) taken

/-- A captured patch has no semantics yet. -/
theorem parsed_plain (text : Str) (files : List ReviewFile) (accepted : parse text = .ok files) :
    ∀ file ∈ files, file.semanticTwin = none := by
  obtain ⟨_, doc, grown, reviewed⟩ := (parse_eq_ok text files).1 accepted
  intro file member
  obtain ⟨part, listed, base, review, ok, rfl⟩ :=
    reviewFrom_origin 0 doc.sections files reviewed file member
  obtain ⟨-, -, -, completed, named, -, -, -, -, -, -, rfl⟩ :=
    finished_cases part.buf review (review_cases part review ok).2
  rfl

/-- Every accepted bundle has the captured files with only their twins and planners changed, one
analysis for each in order, and spans numbered through it; each span is of its own changed token,
whose hunk holds a line of that token, and a file is analyzed just when all of them have one. -/
theorem analyze_attributed (engine : Engine) (debugText : Str → Str) (raw : Str)
    (sources : List SourcePair) (bundle : ReviewBundle)
    (accepted : analyzeReviewWith engine debugText raw sources = .ok bundle) :
    List.Forall₂ Kept bundle.patch.files bundle.files ∧
      List.Forall₂ Described bundle.files bundle.analyses ∧
      (bundle.files.flatMap fileSpans).map (·.id) =
        List.range (bundle.files.flatMap fileSpans).length := by
  unfold analyzeReviewWith at accepted
  obtain ⟨patch, captured, accepted⟩ := (bind_eq_ok _ _ _).1 accepted
  have plain : ∀ file ∈ patch.files, file.semanticTwin = none := by
    cases read : parse raw with
    | error error =>
      rw [capture, read] at captured
      cases captured
    | ok files =>
      rw [capture, read] at captured
      cases captured
      exact parsed_plain raw files read
  dsimp only at accepted
  by_cases repeated : ¬(patch.files.map (·.path)).Nodup
  · rw [if_pos repeated] at accepted
    cases accepted
  rw [if_neg repeated] at accepted
  obtain ⟨⟨pairs, _⟩, _, accepted⟩ := (bind_eq_ok _ _ _).1 accepted
  obtain ⟨analyzed, folded, made⟩ := (bind_eq_ok _ _ _).1 accepted
  cases made
  have sofar := files_sofar engine debugText pairs patch.files analyzed plain folded
  refine ⟨sofar.kept, sofar.described, ?_⟩
  have count := congrArg List.length sofar.numbered
  rw [List.length_map, List.length_range] at count
  show (analyzed.files.flatMap fileSpans).map (·.id) =
    List.range (analyzed.files.flatMap fileSpans).length
  rw [count]
  exact sofar.numbered

theorem analyze_accepts (engine : Engine) (debugText : Str → Str) (raw : Str)
    (sources pairs : List SourcePair) (bytes : Nat) (files : List ReviewFile) (analyzed : Analyzed)
    (read : parse raw = .ok files) (apart : (files.map (·.path)).Nodup)
    (gathered : sources.foldlM (addSource debugText (files.map (·.path))) ([], 0) = .ok (pairs, bytes))
    (folded : files.foldlM (Analyzed.file engine debugText pairs) ⟨[], [], 0⟩ = .ok analyzed) :
    ∃ bundle, analyzeReviewWith engine debugText raw sources = .ok bundle ∧
      bundle.patch.files = files ∧ bundle.files = analyzed.files ∧
        bundle.analyses = analyzed.analyses := by
  unfold analyzeReviewWith capture
  rw [read]
  dsimp only [Except.mapError, bind, Except.bind, pure, Except.pure]
  rw [if_neg (not_not.2 apart), gathered]
  dsimp only
  rw [folded]
  exact ⟨_, rfl, rfl, rfl, rfl⟩

/-- Two lines changed, a line apart. -/
def swapEngine : Engine := fun language _ _ =>
  ⟨language,
    [⟨.removed, ['a'], some 1, none⟩, ⟨.added, ['b'], none, some 1⟩,
      ⟨.unchanged, ['x'], some 2, some 2⟩,
      ⟨.removed, ['c'], some 3, none⟩, ⟨.added, ['d'], none, some 3⟩], 1, 2, 2, 0,
    .minimal false⟩

def swapSources : List SourcePair :=
  [⟨"x.rs".toList, some "a\nx\nc\n".toList, some "b\nx\nd\n".toList,
    by decide, by decide, by decide⟩]

def swapFile : ReviewFile where
  path := "x.rs".toList
  status := .modified
  patchTwin :=
    { binaryBody := []
      hunks :=
        [{ id := 0, oldStart := some 1, newStart := some 1, sectionHeading := none
           lines :=
             [{ noNewline := false, lossy := false, kind := .removed, oldLine := some 1,
                newLine := none, text := ['a'] },
              { noNewline := false, lossy := false, kind := .added, oldLine := none,
                newLine := some 1, text := ['b'] }] },
         { id := 1, oldStart := some 3, newStart := some 3, sectionHeading := none
           lines :=
             [{ noNewline := false, lossy := false, kind := .removed, oldLine := some 3,
                newLine := none, text := ['c'] },
              { noNewline := false, lossy := false, kind := .added, oldLine := none,
                newLine := some 3, text := ['d'] }] }]
      metadata := []
      lossyLines := 0 }
  semanticTwin := none
  planner := { strategy := .line, fallback := none, notes := [] }

theorem analyze_attributed_swap :
    ∃ bundle, analyzeReviewWith swapEngine id
        "--- a/x.rs\n+++ b/x.rs\n@@ -1 +1 @@\n-a\n+b\n@@ -3 +3 @@\n-c\n+d\n".toList
        swapSources = .ok bundle ∧
      List.Forall₂ Kept [swapFile] bundle.files ∧
      List.Forall₂ Described bundle.files bundle.analyses ∧
      bundle.analyses.map (·.coverage) = [.analyzed] ∧
      (bundle.files.flatMap fileSpans).map (fun span => (span.hunkId, span.kind)) =
        [(0, .removedNode), (0, .addedNode), (1, .removedNode), (1, .addedNode)] ∧
      (bundle.files.flatMap fileSpans).map (·.id) = List.range 4 := by
  obtain ⟨bundle, accepted, captured, files, analyses⟩ := analyze_accepts swapEngine id
    "--- a/x.rs\n+++ b/x.rs\n@@ -1 +1 @@\n-a\n+b\n@@ -3 +3 @@\n-c\n+d\n".toList
    swapSources swapSources 12 [swapFile] _ (by decide +kernel) (by decide) rfl rfl
  obtain ⟨kept, described, ids⟩ := analyze_attributed swapEngine id _ _ bundle accepted
  rw [captured] at kept
  have spans : (bundle.files.flatMap fileSpans).length = 4 := by
    rw [files]
    decide +kernel
  refine ⟨bundle, accepted, kept, described, ?_, ?_, ?_⟩
  · rw [analyses]
    decide +kernel
  · rw [files]
    decide +kernel
  · rw [ids, spans]

end DeepDiffForge.Pipeline
