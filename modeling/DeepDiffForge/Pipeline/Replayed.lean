import DeepDiffForge.Lib.Edits
import DeepDiffForge.Patch.Addresses
import DeepDiffForge.Patch.HunkContract
import DeepDiffForge.Pipeline.Attributed

/-! What the replay of a patch over a source says: the hunks are edits at the places their headers
state, and the lines of a verified file are those of its sources. -/

namespace DeepDiffForge.Pipeline
open Text Markers Edits DeepDiffForge.Core DeepDiffForge.Patch

def oldSide (hunk : PatchHunk) : List Str :=
  (hunk.lines.filter (·.onOldSide)).map PatchLine.body

def newSide (hunk : PatchHunk) : List Str :=
  (hunk.lines.filter (·.onNewSide)).map PatchLine.body

/-- A side with lines starts at its first one, an empty one at the line it follows. -/
def StartsAt (start : Option Nat) (before : Nat) (lines : List Str) : Prop :=
  start = some (if lines = [] then before else before + 1)

structure States (hunk : PatchHunk) (edit : Edit Str) : Prop where
  gone : edit.gone = oldSide hunk
  made : edit.made = newSide hunk
  old : StartsAt hunk.oldStart edit.before edit.gone
  new : StartsAt hunk.newStart edit.after edit.made

def Turns (file : ReviewFile) (old new : Str) : Prop :=
  ∃ edits result, List.Forall₂ States file.patchTwin.hunks edits ∧
    Applied 0 0 (sourceLines old) edits result ∧ result.flatten = new

/-! ### The replay -/

theorem countP_oldSide (hunk : PatchHunk) :
    hunk.lines.countP (·.kind ≠ .added) = (oldSide hunk).length := by
  rw [oldSide, List.length_map, List.countP_eq_length_filter]
  rfl

theorem countP_newSide (hunk : PatchHunk) :
    hunk.lines.countP (·.kind ≠ .removed) = (newSide hunk).length := by
  rw [newSide, List.length_map, List.countP_eq_length_filter]
  rfl

theorem lines_replay (oldLines : List Str) (lines : List PatchLine) (replay next : Replay) :
    lines.foldlM (Replay.line oldLines) replay = some next ↔
      (lines.filter (·.onOldSide)).map PatchLine.body <+: oldLines.drop replay.cursor ∧
        next = ⟨replay.cursor + (lines.filter (·.onOldSide)).length,
          replay.output ++ ((lines.filter (·.onNewSide)).map PatchLine.body).flatten,
          replay.outputLines + (lines.filter (·.onNewSide)).length⟩ := by
  induction lines generalizing replay with
  | nil => simp [eq_comm]
  | cons line lines ih =>
    rw [List.foldlM_cons, Option.bind_eq_bind, Option.bind_eq_some_iff]
    have taken (held : oldLines[replay.cursor]? = some (PatchLine.body line)) (rest : List Str) :
        PatchLine.body line :: rest <+: oldLines.drop replay.cursor ↔
          rest <+: oldLines.drop (replay.cursor + 1) := by
      obtain ⟨within, same⟩ := List.getElem?_eq_some_iff.1 held
      rw [List.drop_eq_getElem_cons within, same, List.cons_prefix_cons, and_iff_right rfl]
    have head (rest : List Str)
        (starts : PatchLine.body line :: rest <+: oldLines.drop replay.cursor) :
        oldLines[replay.cursor]? = some (PatchLine.body line) := by
      obtain ⟨tail, whole⟩ := starts
      have first := congrArg (·[0]?) whole
      simpa using first.symm
    cases kind : line.kind with
    | added =>
      have step : Replay.line oldLines replay line = some
          ⟨replay.cursor, replay.output ++ PatchLine.body line, replay.outputLines + 1⟩ := by
        simp [Replay.line, kind]
      simp only [step, Option.some.injEq, exists_eq_left', ih, PatchLine.onOldSide,
        PatchLine.onNewSide, kind, List.filter_cons]
      simp [Nat.add_assoc, Nat.add_comm 1]
    | removed =>
      by_cases held : oldLines[replay.cursor]? = some (PatchLine.body line)
      · have step : Replay.line oldLines replay line = some
            ⟨replay.cursor + 1, replay.output, replay.outputLines⟩ := by
          simp [Replay.line, kind, held]
        simp only [step, Option.some.injEq, exists_eq_left', ih, PatchLine.onOldSide,
          PatchLine.onNewSide, kind, List.filter_cons]
        simp [taken held, Nat.add_assoc, Nat.add_comm 1]
      · have step : Replay.line oldLines replay line = none := by
          simp [Replay.line, kind, held]
        simp only [step, PatchLine.onOldSide, kind, List.filter_cons]
        constructor
        · rintro ⟨_, stopped, -⟩
          cases stopped
        · rintro ⟨starts, -⟩
          exact absurd (head _ (by simpa using starts)) held
    | context =>
      by_cases held : oldLines[replay.cursor]? = some (PatchLine.body line)
      · have step : Replay.line oldLines replay line = some
            ⟨replay.cursor + 1, replay.output ++ PatchLine.body line,
              replay.outputLines + 1⟩ := by
          simp [Replay.line, kind, held]
        simp only [step, Option.some.injEq, exists_eq_left', ih, PatchLine.onOldSide,
          PatchLine.onNewSide, kind, List.filter_cons]
        simp [taken held, Nat.add_assoc, Nat.add_comm 1]
      · have step : Replay.line oldLines replay line = none := by
          simp [Replay.line, kind, held]
        simp only [step, PatchLine.onOldSide, kind, List.filter_cons]
        constructor
        · rintro ⟨_, stopped, -⟩
          cases stopped
        · rintro ⟨starts, -⟩
          exact absurd (head _ (by simpa using starts)) held

def Numbered (hunk : PatchHunk) : Prop :=
  (∃ start, hunk.oldStart = some start ∧ (oldSide hunk ≠ [] → start ≠ 0)) ∧
    hunk.newStart.isSome

theorem startsAt_old (hunk : PatchHunk) (numbered : Numbered hunk) (before : Nat) :
    StartsAt hunk.oldStart before (oldSide hunk) ↔
      (if (oldSide hunk).length = 0 then hunk.oldStart.getD 0 else hunk.oldStart.getD 0 - 1) =
        before := by
  obtain ⟨⟨start, given, least⟩, -⟩ := numbered
  rw [StartsAt, given, Option.getD_some, Option.some.injEq]
  by_cases absent : oldSide hunk = []
  · rw [if_pos absent, if_pos (List.length_eq_zero_iff.2 absent)]
  · have pos := least absent
    rw [if_neg absent, if_neg fun zero => absent (List.length_eq_zero_iff.1 zero)]
    omega

theorem hunk_replay (oldLines : List Str) (hunk : PatchHunk) (numbered : Numbered hunk)
    (replay next : Replay) :
    Replay.hunk oldLines replay hunk = some next ↔
      ∃ edit, States hunk edit ∧ replay.cursor ≤ edit.before ∧ edit.before ≤ oldLines.length ∧
        edit.after = replay.outputLines + (edit.before - replay.cursor) ∧
          edit.gone <+: oldLines.drop edit.before ∧
            next = ⟨edit.before + edit.gone.length,
              replay.output ++ ((oldLines.take edit.before).drop replay.cursor).flatten ++
                edit.made.flatten, edit.after + edit.made.length⟩ := by
  have stated (edit : Edit Str) (states : States hunk edit) :
      (if (oldSide hunk).length = 0 then hunk.oldStart.getD 0 else hunk.oldStart.getD 0 - 1) =
        edit.before := by
    have old := states.old
    rw [states.gone] at old
    exact (startsAt_old hunk numbered edit.before).1 old
  have counted : (hunk.lines.filter (·.onOldSide)).length = (oldSide hunk).length :=
    (List.length_map _).symm
  have counted' : (hunk.lines.filter (·.onNewSide)).length = (newSide hunk).length :=
    (List.length_map _).symm
  unfold Replay.hunk
  dsimp only
  rw [countP_oldSide, countP_newSide]
  generalize place : (if (oldSide hunk).length = 0 then hunk.oldStart.getD 0
    else hunk.oldStart.getD 0 - 1) = start at stated ⊢
  constructor
  · intro replayed
    have inside : ¬(start < replay.cursor ∨ oldLines.length < start) := by
      intro outside
      rw [if_pos outside] at replayed
      cases replayed
    rw [if_neg inside] at replayed
    have placed : hunk.newStart = some (if (newSide hunk).length = 0 then
        replay.outputLines + (start - replay.cursor)
      else replay.outputLines + (start - replay.cursor) + 1) := by
      by_contra elsewhere
      rw [if_pos elsewhere] at replayed
      cases replayed
    rw [if_neg (not_not.2 placed)] at replayed
    obtain ⟨holds, same⟩ := (lines_replay oldLines hunk.lines _ next).1 replayed
    rw [not_or, Nat.not_lt, Nat.not_lt] at inside
    refine ⟨⟨start, replay.outputLines + (start - replay.cursor), oldSide hunk, newSide hunk⟩,
      ⟨rfl, rfl, (startsAt_old hunk numbered start).2 place, ?_⟩, inside.1, inside.2, rfl, holds,
      ?_⟩
    · rw [StartsAt, placed]
      by_cases absent : newSide hunk = []
      · rw [if_pos (List.length_eq_zero_iff.2 absent), if_pos absent]
      · rw [if_neg fun zero => absent (List.length_eq_zero_iff.1 zero), if_neg absent]
    · rw [same, counted, counted']
      rfl
  · rintro ⟨edit, states, passed, within, after, holds, rfl⟩
    obtain rfl := stated edit states
    have new := states.new
    rw [states.made, StartsAt, after] at new
    rw [if_neg (by omega)]
    have expected : hunk.newStart = some (if (newSide hunk).length = 0 then
        replay.outputLines + (edit.before - replay.cursor)
      else replay.outputLines + (edit.before - replay.cursor) + 1) := by
      rw [new]
      by_cases absent : newSide hunk = []
      · rw [if_pos (List.length_eq_zero_iff.2 absent), if_pos absent]
      · rw [if_neg fun zero => absent (List.length_eq_zero_iff.1 zero), if_neg absent]
    rw [if_neg (not_not.2 expected), lines_replay]
    rw [states.gone] at holds
    refine ⟨holds, ?_⟩
    rw [counted, counted', states.gone, states.made, after]
    rfl

theorem hunks_replay (oldLines : List Str) (hunks : List PatchHunk)
    (numbered : ∀ hunk ∈ hunks, Numbered hunk) (replay : Replay)
    (within : replay.cursor ≤ oldLines.length) (total : Str) :
    (∃ last, hunks.foldlM (Replay.hunk oldLines) replay = some last ∧
        last.output ++ (oldLines.drop last.cursor).flatten = total) ↔
      ∃ edits result, List.Forall₂ States hunks edits ∧
        Applied replay.cursor replay.outputLines (oldLines.drop replay.cursor) edits result ∧
          replay.output ++ result.flatten = total := by
  induction hunks generalizing replay with
  | nil =>
    constructor
    · rintro ⟨last, same, whole⟩
      cases same
      exact ⟨[], _, .nil, .rest _ _ _, whole⟩
    · rintro ⟨edits, result, stated, applied, whole⟩
      cases stated
      generalize held : oldLines.drop replay.cursor = items at applied
      cases applied
      rw [← held] at whole
      exact ⟨replay, rfl, whole⟩
  | cons hunk hunks ih =>
    rw [List.forall_mem_cons] at numbered
    constructor
    · rintro ⟨last, replayed, whole⟩
      rw [List.foldlM_cons, Option.bind_eq_bind, Option.bind_eq_some_iff] at replayed
      obtain ⟨next, first, rest⟩ := replayed
      obtain ⟨edit, states, passed, inside, after, ⟨items, holds⟩, rfl⟩ :=
        (hunk_replay oldLines hunk numbered.1 replay next).1 first
      have length := congrArg List.length holds
      rw [List.length_append, List.length_drop] at length
      have left : oldLines.drop (edit.before + edit.gone.length) = items := by
        rw [← List.drop_drop, ← holds, List.drop_left]
      obtain ⟨edits, result, stated, applied, same⟩ :=
        (ih numbered.2 ⟨_, _, _⟩ (by dsimp only; omega)).1 ⟨last, rest, whole⟩
      dsimp only at applied same
      rw [left] at applied
      have kept : ((oldLines.take edit.before).drop replay.cursor).length =
          edit.before - replay.cursor := by
        rw [List.length_drop, List.length_take]
        omega
      have split : oldLines.drop replay.cursor =
          (oldLines.take edit.before).drop replay.cursor ++ (edit.gone ++ items) := by
        rw [holds, List.drop_take]
        have rejoin := List.take_append_drop (edit.before - replay.cursor)
          (oldLines.drop replay.cursor)
        rw [List.drop_drop, Nat.add_sub_cancel' passed] at rejoin
        exact rejoin.symm
      refine ⟨edit :: edits, (oldLines.take edit.before).drop replay.cursor ++ (edit.made ++ result),
        .cons states stated, ?_, ?_⟩
      · rw [split]
        exact .edit _ _ _ items result edit edits (by omega) (by omega) applied
      · rw [← same, List.flatten_append, List.flatten_append]
        simp only [List.append_assoc]
    · rintro ⟨edits, result, stated, applied, whole⟩
      cases stated with
      | cons states stated =>
        rename_i edit edits
        generalize items : oldLines.drop replay.cursor = all at applied
        cases applied with
        | edit _ _ kept rest result _ _ old new next =>
          have length := congrArg List.length items
          simp only [List.length_drop, List.length_append] at length
          have left : oldLines.drop edit.before = edit.gone ++ rest := by
            rw [old, ← List.drop_drop, items, List.drop_left]
          have middle : (oldLines.take edit.before).drop replay.cursor = kept := by
            rw [List.drop_take, items, old, Nat.add_sub_cancel_left, List.take_left]
          have left' : oldLines.drop (edit.before + edit.gone.length) = rest := by
            rw [← List.drop_drop, left, List.drop_left]
          have first := (hunk_replay oldLines hunk numbered.1 replay _).2
            ⟨edit, states, by omega, by omega, by omega, ⟨rest, left.symm⟩, rfl⟩
          obtain ⟨last, rest', whole'⟩ := (ih numbered.2
            ⟨edit.before + edit.gone.length, replay.output ++
              ((oldLines.take edit.before).drop replay.cursor).flatten ++ edit.made.flatten,
              edit.after + edit.made.length⟩ (by dsimp only; omega)).2
            ⟨edits, result, stated, left' ▸ next, by
              rw [← whole, middle, List.flatten_append, List.flatten_append]
              simp only [List.append_assoc]⟩
          refine ⟨last, ?_, whole'⟩
          rw [List.foldlM_cons, first]
          exact rest'

theorem patchMatches_replay (file : ReviewFile) (old new : Str) :
    patchMatches file old new = true ↔
      ∃ last, file.patchTwin.hunks.foldlM (Replay.hunk (sourceLines old)) ⟨0, [], 0⟩ = some last ∧
        last.output ++ ((sourceLines old).drop last.cursor).flatten = new := by
  unfold patchMatches
  dsimp only
  cases file.patchTwin.hunks.foldlM (Replay.hunk (sourceLines old)) ⟨0, [], 0⟩ with
  | none =>
    constructor
    · intro accepted
      cases accepted
    · rintro ⟨last, same, -⟩
      cases same
  | some last =>
    rw [decide_eq_true_iff]
    constructor
    · intro whole
      exact ⟨last, rfl, whole⟩
    · rintro ⟨_, same, whole⟩
      cases same
      exact whole

/-- The code accepts a file's sources just when its hunks, at their stated places, make the new
source out of the old one. -/
theorem patchMatches_turns (file : ReviewFile) (old new : Str)
    (numbered : ∀ hunk ∈ file.patchTwin.hunks, Numbered hunk) :
    patchMatches file old new = true ↔ Turns file old new := by
  rw [patchMatches_replay]
  exact hunks_replay (sourceLines old) file.patchTwin.hunks numbered ⟨0, [], 0⟩ (Nat.zero_le _) new

/-! ### Old lines from line zero on -/

/-- A hunk as the replay reads it: old lines from line zero on are those from line one on. -/
def fromOne (hunk : PatchHunk) : PatchHunk :=
  { hunk with
    oldStart := if oldSide hunk ≠ [] ∧ hunk.oldStart = some 0 then some 1 else hunk.oldStart }

def readFromOne (file : ReviewFile) : ReviewFile :=
  { file with patchTwin :=
    { file.patchTwin with hunks := file.patchTwin.hunks.map fromOne } }

theorem fromOne_replay (oldLines : List Str) (replay : Replay) (hunk : PatchHunk) :
    Replay.hunk oldLines replay (fromOne hunk) = Replay.hunk oldLines replay hunk := by
  have count : (fromOne hunk).lines.countP (·.kind ≠ .added) = (oldSide hunk).length :=
    countP_oldSide hunk
  have start : (if (oldSide hunk).length = 0 then (fromOne hunk).oldStart.getD 0
      else (fromOne hunk).oldStart.getD 0 - 1) =
        if (oldSide hunk).length = 0 then hunk.oldStart.getD 0 else hunk.oldStart.getD 0 - 1 := by
    unfold fromOne
    dsimp only
    by_cases zero : oldSide hunk ≠ [] ∧ hunk.oldStart = some 0
    · have more : (oldSide hunk).length ≠ 0 := fun absent =>
        zero.1 (List.length_eq_zero_iff.1 absent)
      rw [if_pos zero, if_neg more, if_neg more, zero.2]
      rfl
    · rw [if_neg zero]
  unfold Replay.hunk
  dsimp only
  rw [count, countP_oldSide, start]
  rfl

theorem patchMatches_fromOne (file : ReviewFile) (old new : Str) :
    patchMatches (readFromOne file) old new = patchMatches file old new := by
  unfold patchMatches readFromOne
  dsimp only
  rw [List.foldlM_map]
  simp only [fromOne_replay]

end DeepDiffForge.Pipeline
