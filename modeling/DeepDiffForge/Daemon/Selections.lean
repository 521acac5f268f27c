import DeepDiffForge.Daemon.Views
import DeepDiffForge.Lib.Fallible
import Mathlib.Data.List.Nodup

/-! What a selection names: each hunk of the review at most once. -/

namespace DeepDiffForge.Daemon
open Text DeepDiffForge.Core DeepDiffForge.Graph DeepDiffForge.Patch Fallible

theorem nodup_eraseDups (names : List Str) : names.eraseDups.Nodup := by
  generalize size : names.length = n
  induction n using Nat.strongRecOn generalizing names with
  | _ n ih =>
    cases names with
    | nil => simp
    | cons name names =>
      rw [List.eraseDups_cons, List.nodup_cons]
      have less : (names.filter fun other => !other == name).length < n := by
        have shorter := List.length_filter_le (fun other => !other == name) names
        simp only [List.length_cons] at size
        omega
      refine ⟨?_, ih _ less _ rfl⟩
      simp [List.mem_eraseDups]

section Review
variable {files : List ReviewFile}

theorem mem_fileHunks (file : Fin files.length) (ref : HunkRef files) :
    ref ∈ fileHunks file ↔ ref.file = file := by
  constructor
  · intro member
    obtain ⟨hunk, -, rfl⟩ := List.mem_map.1 member
    rfl
  · rintro rfl
    exact List.mem_map.2 ⟨ref.hunk, List.mem_finRange _, rfl⟩

theorem nodup_fileHunks (file : Fin files.length) : (fileHunks file).Nodup := by
  apply (List.nodup_finRange _).map
  intro one two same
  exact eq_of_heq (HunkRef.mk.inj same).2

theorem nodup_flatMap_fileHunks (chosen : List (Fin files.length)) (once : chosen.Nodup) :
    (chosen.flatMap fileHunks).Nodup := by
  rw [List.nodup_flatMap]
  refine ⟨fun file _ => nodup_fileHunks file, once.imp ?_⟩
  intro one two apart ref first second
  rw [mem_fileHunks] at first second
  exact apart (first.symm.trans second)

theorem mem_allHunks (ref : HunkRef files) : ref ∈ allHunks files := by
  rw [allHunks, List.mem_flatMap]
  exact ⟨ref.file, List.mem_finRange _, (mem_fileHunks ref.file ref).2 rfl⟩

theorem nodup_allHunks : (allHunks files).Nodup :=
  nodup_flatMap_fileHunks _ (List.nodup_finRange _)

theorem length_fileHunks (file : Fin files.length) :
    (fileHunks file).length = (files.get file).patchTwin.hunks.length := by
  simp [fileHunks]

variable (scan : Scan)

theorem riskOrder_perm :
    ((riskOrder scan files).map (·.file)).Perm (List.finRange files.length) := by
  have sorted := (List.mergeSort_perm ((List.finRange files.length).map fun file =>
    ({ file, score := (scoreFile scan (files.get file)).1,
       signals := (scoreFile scan (files.get file)).2 } : Placed files)) fun one two => rankLe one.key two.key).map (·.file)
  rw [List.map_map] at sorted
  simpa [Function.comp_def, riskOrder] using sorted

theorem riskOrder_sorted :
    (riskOrder scan files).Pairwise fun one two => rankLe one.key two.key = true :=
  List.pairwise_mergeSort (fun one two three => rankLe_trans one.key two.key three.key)
    (fun one two => rankLe_total one.key two.key) _

variable (address : PatchHunk → Str → Str)

def Selection.key : Selection → Str
  | .all => "all".toList
  | .addresses wanted => "a:".toList ++ joinNames wanted.eraseDups
  | .paths wanted => "p:".toList ++ joinNames wanted.eraseDups

def addressed (wanted : Str) : List (HunkRef files) :=
  (allHunks files).filter fun ref => address ref.patchHunk ref.reviewFile.path = wanted

def pathFiles (files : List ReviewFile) (wanted : Str) : List (Fin files.length) :=
  (List.finRange files.length).filter fun file => (files.get file).path = wanted

def Selection.chosen : Selection → List (HunkRef files)
  | .all => (riskOrder scan files).flatMap fun placed => fileHunks placed.file
  | .addresses wanted => wanted.eraseDups.flatMap (addressed address)
  | .paths wanted => wanted.eraseDups.flatMap fun name => (pathFiles files name).flatMap fileHunks

theorem addressHunks_eq_ok (wanted : Str) (found : List (HunkRef files))
    (known : addressHunks files address wanted = .ok found) :
    found = addressed address wanted ∧ found ≠ [] := by
  simp only [addressHunks] at known
  split_ifs at known with missing
  obtain rfl := Except.ok.inj known
  exact ⟨rfl, missing⟩

theorem pathHunks_eq_ok (wanted : Str) (found : List (HunkRef files))
    (known : pathHunks files wanted = .ok found) :
    found = (pathFiles files wanted).flatMap fileHunks := by
  simp only [pathHunks] at known
  split_ifs at known with missing
  obtain rfl := Except.ok.inj known
  rfl

theorem selectWith_eq_ok (selection : Selection) (units : List (HunkRef files)) (key : Str)
    (accepted : selectWith scan files selection address = .ok (units, key)) :
    units = selection.chosen scan address ∧ key = selection.key := by
  cases selection with
  | all =>
    obtain ⟨rfl, rfl⟩ := Prod.mk.inj (Except.ok.inj accepted)
    exact ⟨rfl, rfl⟩
  | addresses wanted =>
    obtain ⟨lists, found, rest⟩ := (bind_eq_ok _ _ _).1 accepted
    obtain ⟨rfl, rfl⟩ := Prod.mk.inj (Except.ok.inj rest)
    refine ⟨flatten_of_forall₂ _ _ _ ?_, rfl⟩
    exact (mapM_ok _ _ _ found).imp fun name list known =>
      (addressHunks_eq_ok address name list known).1
  | paths wanted =>
    obtain ⟨lists, found, rest⟩ := (bind_eq_ok _ _ _).1 accepted
    obtain ⟨rfl, rfl⟩ := Prod.mk.inj (Except.ok.inj rest)
    refine ⟨flatten_of_forall₂ _ _ _ ?_, rfl⟩
    exact (mapM_ok _ _ _ found).imp fun name list known => pathHunks_eq_ok name list known

theorem addresses_known (wanted : List Str) (units : List (HunkRef files)) (key : Str)
    (accepted : selectWith scan files (.addresses wanted) address = .ok (units, key)) :
    ∀ name ∈ wanted.eraseDups, ∃ ref : HunkRef files,
      address ref.patchHunk ref.reviewFile.path = name := by
  intro name member
  obtain ⟨lists, found, -⟩ := (bind_eq_ok _ _ _).1 accepted
  obtain ⟨list, known⟩ := forall₂_left _ _ _ (mapM_ok _ _ _ found) name member
  obtain ⟨rfl, present⟩ := addressHunks_eq_ok address name list known
  obtain ⟨ref, held⟩ := List.exists_mem_of_ne_nil _ present
  exact ⟨ref, by simpa using (List.mem_filter.1 held).2⟩

theorem nodup_chosen (selection : Selection) :
    (selection.chosen scan address : List (HunkRef files)).Nodup := by
  cases selection with
  | all =>
    have once : ((riskOrder scan files).map (·.file)).Nodup :=
      (riskOrder_perm scan).nodup_iff.2 (List.nodup_finRange _)
    simpa [Selection.chosen, List.flatMap_map] using nodup_flatMap_fileHunks _ once
  | addresses wanted =>
    rw [Selection.chosen, List.nodup_flatMap]
    refine ⟨fun name _ => nodup_allHunks.filter _, (nodup_eraseDups wanted).imp ?_⟩
    intro one two apart ref first second
    simp only [addressed, List.mem_filter, decide_eq_true_eq] at first second
    exact apart (first.2.symm.trans second.2)
  | paths wanted =>
    have once : (wanted.eraseDups.flatMap (pathFiles files)).Nodup := by
      rw [List.nodup_flatMap]
      refine ⟨fun name _ => (List.nodup_finRange _).filter _, (nodup_eraseDups wanted).imp ?_⟩
      intro one two apart file first second
      simp only [pathFiles, List.mem_filter, decide_eq_true_eq] at first second
      exact apart (first.2.symm.trans second.2)
    simpa [Selection.chosen, List.flatMap_assoc] using nodup_flatMap_fileHunks _ once

theorem length_flatMap_fileHunks (chosen : List (Fin files.length)) :
    (chosen.flatMap fileHunks).length =
      (chosen.map fun file => (files.get file)).foldr
        (fun file total => file.patchTwin.hunks.length + total) 0 := by
  induction chosen with
  | nil => rfl
  | cons file chosen ih =>
    rw [List.flatMap_cons, List.length_append, ih, length_fileHunks]
    rfl

theorem length_le_hunkItems (hunks : List PatchHunk) : hunks.length ≤ hunkItems hunks := by
  induction hunks with
  | nil => exact Nat.le_refl 0
  | cons hunk hunks ih =>
    simp only [hunkItems, List.foldr_cons, List.length_cons] at ih ⊢
    omega

theorem hunkTotal_le (files : List ReviewFile) :
    files.foldr (fun file total => file.patchTwin.hunks.length + total) 0 ≤ reviewItems files := by
  induction files with
  | nil => exact Nat.le_refl 0
  | cons file files ih =>
    have own := length_le_hunkItems file.patchTwin.hunks
    simp only [reviewItems, List.foldr_cons] at ih ⊢
    omega

theorem length_chosen (selection : Selection) :
    (selection.chosen scan address : List (HunkRef files)).length ≤ reviewItems files := by
  have within : (selection.chosen scan address : List (HunkRef files)).length ≤
      (allHunks files).length :=
    (List.subperm_of_subset (nodup_chosen scan address selection)
      fun ref _ => mem_allHunks ref).length_le
  have total := length_flatMap_fileHunks (List.finRange files.length)
  have every : (List.finRange files.length).map (fun file => files.get file) = files := by
    apply List.ext_getElem
    · simp
    · simp
  rw [every] at total
  calc
    _ ≤ (allHunks files).length := within
    _ = _ := total
    _ ≤ reviewItems files := hunkTotal_le files

theorem mem_le_hunkItems (hunks : List PatchHunk) (hunk : PatchHunk) (member : hunk ∈ hunks) :
    hunk.lines.length ≤ hunkItems hunks := by
  induction hunks with
  | nil => cases member
  | cons other hunks ih =>
    simp only [hunkItems, List.foldr_cons] at ih ⊢
    rcases List.mem_cons.1 member with rfl | later
    · omega
    · have most := ih later
      omega

theorem mem_le_reviewItems (files : List ReviewFile) (file : ReviewFile) (member : file ∈ files) :
    hunkItems file.patchTwin.hunks ≤ reviewItems files := by
  induction files with
  | nil => cases member
  | cons other files ih =>
    simp only [reviewItems, List.foldr_cons] at ih ⊢
    rcases List.mem_cons.1 member with rfl | later
    · omega
    · have most := ih later
      omega

theorem length_le_reviewItems (files : List ReviewFile) : files.length ≤ reviewItems files := by
  induction files with
  | nil => exact Nat.le_refl 0
  | cons file files ih =>
    simp only [reviewItems, List.foldr_cons, List.length_cons] at ih ⊢
    omega

theorem length_patchHunk (ref : HunkRef files) :
    ref.patchHunk.lines.length ≤ reviewItems files :=
  (mem_le_hunkItems _ ref.patchHunk (List.getElem_mem _)).trans
    (mem_le_reviewItems files ref.reviewFile (List.getElem_mem _))

end Review

def sampleHunk : PatchHunk where
  id := 0
  oldStart := some 1
  newStart := some 1
  sectionHeading := none
  lines := [⟨false, false, .removed, some 1, none, ['a']⟩, ⟨false, false, .added, none, some 1, ['b']⟩]

def sampleFile : ReviewFile where
  path := ['x']
  status := .modified
  patchTwin := ⟨[], [sampleHunk], [], 0⟩
  semanticTwin := none
  planner := ⟨.line, none, []⟩

def sampleReview : SealedReview where
  files := [sampleFile]
  inputSeal := .of [] []
  origin := ⟨[], [], rfl⟩
  held := by decide

end DeepDiffForge.Daemon
