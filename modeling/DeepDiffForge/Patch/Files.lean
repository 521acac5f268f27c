import DeepDiffForge.Patch.Grammar

/-! What the files of a parse keep of the sections they came from. -/

namespace DeepDiffForge.Patch
open Text DeepDiffForge.Core

def FileBuf.withMove (file : FileBuf) (added : List Str) (renameFrom renameTo : Option Str) :
    FileBuf :=
  { file with metadata := file.metadata ++ added, renameFrom, renameTo }

def FileBuf.MoveOf (named file : FileBuf) : Prop :=
  ∃ added renameFrom renameTo, (∀ line ∈ added, startsWithAny movePrefixes line = true) ∧
    named = file.withMove added renameFrom renameTo

theorem moveOf_trans (file middle last : FileBuf) (one : middle.MoveOf file)
    (two : last.MoveOf middle) : last.MoveOf file := by
  obtain ⟨first, _, _, moves, rfl⟩ := one
  obtain ⟨second, renameFrom, renameTo, moves', rfl⟩ := two
  refine ⟨first ++ second, renameFrom, renameTo, ?_, by simp [FileBuf.withMove]⟩
  simpa only [List.mem_append, or_imp, forall_and] using ⟨moves, moves'⟩

theorem moveOf_refl (file : FileBuf) : file.MoveOf file :=
  ⟨[], file.renameFrom, file.renameTo, by simp, by simp [FileBuf.withMove]⟩

theorem startsWithAny_move (start path : Str) (listed : start ∈ movePrefixes) :
    startsWithAny movePrefixes (start ++ path) = true :=
  List.any_eq_true.2 ⟨start, listed, startsWith_append start path⟩

theorem completeSide_move (file completed : FileBuf) (verb side : Str) (raw : Option Str)
    (listed : verb ++ side ∈ movePrefixes)
    (ok : file.completeSide verb side raw = some completed) : completed.MoveOf file := by
  simp only [FileBuf.completeSide] at ok
  split at ok
  · cases ok
  · rename_i name _
    have moves : ∀ line ∈ [verb ++ side ++ quote name], startsWithAny movePrefixes line = true := by
      simpa using startsWithAny_move (verb ++ side) (quote name) listed
    split_ifs at ok <;> cases ok <;> exact ⟨_, _, _, moves, rfl⟩

theorem completeMoveHeaders_move (file completed : FileBuf)
    (ok : file.completeMoveHeaders = some completed) : completed.MoveOf file := by
  simp only [FileBuf.completeMoveHeaders] at ok
  have sides (verb : Str) (listedFrom : verb ++ "from ".toList ∈ movePrefixes)
      (listedTo : verb ++ "to ".toList ∈ movePrefixes)
      (ok : ((if (!file.has (verb ++ "from ".toList)) = true then
          file.completeSide verb "from ".toList file.oldRaw else some file).bind fun file' =>
        if (!file.has (verb ++ "to ".toList)) = true then
          file'.completeSide verb "to ".toList file.newRaw else some file') = some completed) :
      completed.MoveOf file := by
    obtain ⟨middle, first, second⟩ := Option.bind_eq_some_iff.1 ok
    refine moveOf_trans file middle completed ?_ ?_
    · split_ifs at first
      · exact completeSide_move _ _ _ _ _ listedFrom first
      · cases first
        exact moveOf_refl file
    · split_ifs at second
      · exact completeSide_move _ _ _ _ _ listedTo second
      · cases second
        exact moveOf_refl _
  split at ok
  · exact sides _ (by decide) (by decide) ok
  split at ok
  · exact sides _ (by decide) (by decide) ok
  · cases ok
    exact moveOf_refl file

theorem recordImpliedRename_move (file named : FileBuf)
    (ok : file.recordImpliedRename = some named) : named.MoveOf file := by
  simp only [FileBuf.recordImpliedRename] at ok
  by_cases traditional : (!file.git) = true
  · rw [if_pos traditional] at ok
    cases ok
    exact moveOf_refl file
  · rw [if_neg traditional] at ok
    split at ok
    · rename_i old new _ _
      split_ifs at ok
      · cases ok
        refine ⟨_, _, _, ?_, rfl⟩
        simp only [List.mem_cons, List.not_mem_nil, or_false, forall_eq_or_imp, forall_eq]
        exact ⟨startsWithAny_move _ (quote old) (by decide),
          startsWithAny_move _ (quote new) (by decide)⟩
      · cases ok
        exact moveOf_refl file
    · cases ok
      exact moveOf_refl file

theorem finished_cases (file : FileBuf) (reviewed : ReviewFile)
    (ok : file.finished = some reviewed) :
    file.awaitingNewHeader = false ∧ file.inconsistent = false ∧
      file.mixesTextAndBinary = false ∧ ∃ completed named,
      file.completeMoveHeaders = some completed ∧
      (if file.hasMove then some completed else completed.recordImpliedRename) = some named ∧
      named.checkMoveSources named.metadata none = true ∧ named.resolvePath ≠ [] ∧
      named.onlyAnUnchangedMode = false ∧
      ¬(named.hunks = [] ∧ (named.git = false ∨ named.metadata = [])) ∧
      reviewed = named.intoReviewFile := by
  simp only [FileBuf.finished] at ok
  split at ok
  · cases ok
  rename_i refused
  simp only [Bool.or_eq_true, not_or, Bool.not_eq_true] at refused
  obtain ⟨named, moved, checked⟩ := Option.bind_eq_some_iff.1 ok
  obtain ⟨completed, completes, moved⟩ := Option.bind_eq_some_iff.1 moved
  split_ifs at checked with checks
  cases checked
  simp only [Bool.and_eq_true, Bool.not_eq_true', decide_eq_true_eq] at checks
  obtain ⟨⟨⟨sources, path⟩, mode⟩, patch⟩ := checks
  refine ⟨refused.1.1, refused.1.2, refused.2, completed, named, completes, moved, sources, path,
    mode, ?_, rfl⟩
  simpa [not_and_or] using patch

theorem finished_move (file : FileBuf) (reviewed : ReviewFile)
    (ok : file.finished = some reviewed) :
    ∃ named : FileBuf, named.MoveOf file ∧ reviewed = named.intoReviewFile := by
  obtain ⟨_, _, _, completed, named, completes, moved, _, _, _, _, rfl⟩ := finished_cases _ _ ok
  have complete := completeMoveHeaders_move file completed completes
  refine ⟨named, ?_, rfl⟩
  split_ifs at moved
  · cases moved
    exact complete
  · exact moveOf_trans _ _ _ complete (recordImpliedRename_move _ _ moved)

theorem finished_twin (file : FileBuf) (reviewed : ReviewFile)
    (ok : file.finished = some reviewed) :
    reviewed.patchTwin.hunks = file.hunks ∧ reviewed.patchTwin.binaryBody = file.binaryBody ∧
      reviewed.patchTwin.lossyLines = file.lossyLines := by
  obtain ⟨named, ⟨added, renameFrom, renameTo, _, rfl⟩, rfl⟩ := finished_move file reviewed ok
  exact ⟨rfl, rfl, rfl⟩

theorem finished_metadata (file : FileBuf) (reviewed : ReviewFile)
    (ok : file.finished = some reviewed) :
    ∃ added, reviewed.patchTwin.metadata = file.metadata ++ added ∧
      ∀ line ∈ added, startsWithAny movePrefixes line = true := by
  obtain ⟨named, ⟨added, renameFrom, renameTo, moves, rfl⟩, rfl⟩ := finished_move file reviewed ok
  exact ⟨added, rfl, moves⟩

theorem review_cases (part : Section) (reviewed : ReviewFile) (ok : part.review = some reviewed) :
    part.openHunk = none ∧ part.buf.finished = some reviewed := by
  simp only [Section.review] at ok
  split_ifs at ok with opened
  exact ⟨by simpa using opened, ok⟩

theorem review_hunks (part : Section) (reviewed : ReviewFile) (ok : part.review = some reviewed) :
    reviewed.patchTwin.hunks = numberHunks 0 part.hunks :=
  (finished_twin _ _ (review_cases part reviewed ok).2).1

theorem shiftFile_hunks (base : HunkId) (part : Section) (reviewed : ReviewFile)
    (ok : part.review = some reviewed) :
    (shiftFile base reviewed).patchTwin.hunks = numberHunks base part.hunks := by
  have shifted := shiftHunks_numberHunks base 0 part.hunks
  rw [Nat.zero_add] at shifted
  rw [← shifted, ← review_hunks part reviewed ok]
  rfl

theorem reviewFrom_hunks (id : HunkId) (parts : List Section) (files : List ReviewFile)
    (ok : reviewFrom id parts = some files) :
    files.flatMap (·.patchTwin.hunks) = numberHunks id (parts.flatMap (·.hunks)) := by
  induction parts generalizing id files with
  | nil =>
    cases ok
    rfl
  | cons part parts ih =>
    simp only [reviewFrom, Option.bind_eq_bind, Option.bind_eq_some_iff, Option.pure_def] at ok
    obtain ⟨reviewed, review, others, rest, ⟨⟩⟩ := ok
    rw [List.flatMap_cons, List.flatMap_cons, numberHunks_append, ih _ _ rest,
      shiftFile_hunks id part reviewed review]

theorem reviewFrom_forall₂ (id : HunkId) (parts : List Section) (files : List ReviewFile)
    (ok : reviewFrom id parts = some files) :
    List.Forall₂ (fun part file => ∃ base reviewed, part.review = some reviewed ∧
      file = shiftFile base reviewed) parts files := by
  induction parts generalizing id files with
  | nil =>
    cases ok
    exact .nil
  | cons part parts ih =>
    simp only [reviewFrom, Option.bind_eq_bind, Option.bind_eq_some_iff, Option.pure_def] at ok
    obtain ⟨reviewed, review, others, rest, ⟨⟩⟩ := ok
    exact .cons ⟨id, reviewed, review, rfl⟩ (ih _ _ rest)

theorem reviewFrom_origin (id : HunkId) (parts : List Section) (files : List ReviewFile)
    (ok : reviewFrom id parts = some files) :
    ∀ file ∈ files, ∃ part ∈ parts, ∃ base reviewed, part.review = some reviewed ∧
      file = shiftFile base reviewed := by
  have pairs := reviewFrom_forall₂ id parts files ok
  clear ok
  induction pairs with
  | nil => simp
  | cons pair pairs ih =>
    intro file member
    rcases List.mem_cons.1 member with rfl | later
    · exact ⟨_, by simp, pair⟩
    · obtain ⟨part, listed, origin⟩ := ih file later
      exact ⟨part, by simp [listed], origin⟩

theorem reviewFrom_isSome (id : HunkId) (parts : List Section) (files : List ReviewFile)
    (ok : reviewFrom id parts = some files) : ∀ part ∈ parts, part.review.isSome := by
  have pairs := reviewFrom_forall₂ id parts files ok
  clear ok
  induction pairs with
  | nil => simp
  | cons pair pairs ih =>
    obtain ⟨_, reviewed, review, _⟩ := pair
    simpa [review] using ih

end DeepDiffForge.Patch
