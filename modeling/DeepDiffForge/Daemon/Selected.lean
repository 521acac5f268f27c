import DeepDiffForge.Daemon.Selections
import DeepDiffForge.Lib.Tables

/-! Selections as the source looks them up, in hash tables over the review. They name every hunk
they should, once, in order. -/

namespace DeepDiffForge.Daemon
open Text DeepDiffForge.Core DeepDiffForge.Graph Fallible Tables

def hunksByAddress (files : List ReviewFile) (wanted : List Str)
    (address : PatchHunk → Str → Str) : List (Str × List (HunkRef files)) :=
  (allHunks files).foldl (fun table ref =>
    let key := address ref.patchHunk ref.reviewFile.path
    if key ∈ wanted then push key ref table else table) []

def filesByPath (files : List ReviewFile) : List (Str × List (Fin files.length)) :=
  (List.finRange files.length).foldl (fun table file => push (files.get file).path file table) []

def selectTables (scan : Scan) (files : List ReviewFile) (selection : Selection)
    (address : PatchHunk → Str → Str) : Except ViewError (List (HunkRef files) × Str) :=
  match selection with
  | .all => .ok ((riskOrder scan files).flatMap (fun placed => fileHunks placed.file), "all".toList)
  | .addresses addresses => do
      let named := unseen [] addresses
      let byAddress := hunksByAddress files named address
      let units ← named.foldlM (fun units wanted =>
        match get byAddress wanted with
        | some found => .ok (units ++ found)
        | none => .error (.unknownAddress wanted)) []
      return (units, "a:".toList ++ joinNames named)
  | .paths paths => do
      let byPath := filesByPath files
      let (units, named) ← (unseen [] paths).foldlM (fun (units, named) wanted =>
        match get byPath wanted with
        | some sections => .ok (units ++ sections.flatMap fileHunks, named ++ [wanted])
        | none => .error (.unknownPath wanted)) ([], [])
      return (units, "p:".toList ++ joinNames named)

section Review
variable {files : List ReviewFile}

theorem get_hunksByAddress (wanted : List Str) (address : PatchHunk → Str → Str) (name : Str)
    (asked : name ∈ wanted) :
    get (hunksByAddress files wanted address) name =
      if addressed address name = ([] : List (HunkRef files)) then none
      else some (addressed address name) := by
  have gathered : hunksByAddress files wanted address =
      gather (((allHunks files).filter fun ref =>
        address ref.patchHunk ref.reviewFile.path ∈ wanted).map fun ref =>
          (address ref.patchHunk ref.reviewFile.path, ref)) := by
    rw [hunksByAddress, gather, List.foldl_map, List.foldl_filter]
    simp only [decide_eq_true_eq]
  have named : (((allHunks files).filter fun ref =>
      address ref.patchHunk ref.reviewFile.path ∈ wanted).filter fun ref =>
        address ref.patchHunk ref.reviewFile.path = name) = addressed address name := by
    rw [List.filter_filter, addressed]
    refine List.filter_congr fun ref _ => ?_
    simp only [Bool.and_eq_left_iff_imp, decide_eq_true_eq]
    rintro rfl
    exact asked
  rw [gathered, get_gather_map, named]

theorem get_filesByPath (name : Str) :
    get (filesByPath files) name =
      if pathFiles files name = [] then none else some (pathFiles files name) := by
  have gathered : filesByPath files = gather ((List.finRange files.length).map fun file =>
      ((files.get file).path, file)) := by
    rw [filesByPath, gather, List.foldl_map]
  rw [gathered, get_gather_map, pathFiles]

variable (scan : Scan) (address : PatchHunk → Str → Str)

theorem pathLoop (names done : List Str) (units : List (HunkRef files)) :
    names.foldlM (fun (state : List (HunkRef files) × List Str) wanted =>
      match get (filesByPath files) wanted with
      | some sections => .ok (state.1 ++ sections.flatMap fileHunks, state.2 ++ [wanted])
      | none => .error (.unknownPath wanted)) (units, done) =
      (names.mapM (pathHunks files)).map fun lists => (units ++ lists.flatten, done ++ names) := by
  induction names generalizing done units with
  | nil => simp [pure, Except.pure, Except.map]
  | cons name names ih =>
    rw [List.foldlM_cons, List.mapM_cons, get_filesByPath, pathHunks]
    change _ = Except.map _ ((if pathFiles files name = [] then _ else _) >>= _)
    by_cases missing : pathFiles files name = []
    · rw [if_pos missing, if_pos missing]
      rfl
    · rw [if_neg missing, if_neg missing]
      change List.foldlM _ (_, _) names = Except.map _ (names.mapM _ >>= _)
      rw [ih]
      cases names.mapM (pathHunks files) with
      | error error => rfl
      | ok lists =>
        refine congrArg Except.ok (Prod.ext ?_ ?_)
        · exact List.append_assoc ..
        · exact List.append_assoc done [name] names

theorem selectTables_eq (selection : Selection) :
    selectTables scan files selection address = selectWith scan files selection address := by
  cases selection with
  | all => rfl
  | addresses wanted =>
    have loop := foldlM_append (addressHunks files address)
      (fun units wanted' =>
        match get (hunksByAddress files (unseen [] wanted) address) wanted' with
        | some found => .ok (units ++ found)
        | none => .error (.unknownAddress wanted')) (unseen [] wanted) []
      fun name listed units => by
        rw [get_hunksByAddress _ _ _ listed, addressHunks]
        change _ = Except.map _ (if addressed address name = [] then _ else _)
        split_ifs
        · rfl
        · rfl
    rw [selectTables, selectWith]
    rw [loop, unseen_eraseDups]
    cases wanted.eraseDups.mapM (addressHunks files address) with
    | error error => rfl
    | ok lists => rfl
  | paths wanted =>
    rw [selectTables, selectWith]
    rw [pathLoop, unseen_eraseDups]
    cases wanted.eraseDups.mapM (pathHunks files) with
    | error error => rfl
    | ok lists => rfl

def Selection.Known (files : List ReviewFile) (address : PatchHunk → Str → Str) :
    Selection → Prop
  | .all => True
  | .addresses wanted => ∀ name ∈ wanted, ∃ ref : HunkRef files,
      address ref.patchHunk ref.reviewFile.path = name
  | .paths wanted => ∀ name ∈ wanted, ∃ file ∈ files, file.path = name

theorem addressHunks_ok_iff (name : Str) :
    (∃ found : List (HunkRef files), addressHunks files address name = .ok found) ↔
      ∃ ref : HunkRef files, address ref.patchHunk ref.reviewFile.path = name := by
  constructor
  · rintro ⟨found, known⟩
    obtain ⟨rfl, filled⟩ := addressHunks_eq_ok address name found known
    obtain ⟨ref, held⟩ := List.exists_mem_of_ne_nil _ filled
    exact ⟨ref, by simpa using (List.mem_filter.1 held).2⟩
  · rintro ⟨ref, same⟩
    have held : ref ∈ (allHunks files).filter fun ref =>
        address ref.patchHunk ref.reviewFile.path = name :=
      List.mem_filter.2 ⟨mem_allHunks ref, decide_eq_true same⟩
    exact ⟨_, if_neg (List.ne_nil_of_mem held)⟩

theorem pathHunks_ok_iff (name : Str) :
    (∃ found : List (HunkRef files), pathHunks files name = .ok found) ↔
      ∃ file ∈ files, file.path = name := by
  constructor
  · rintro ⟨found, known⟩
    simp only [pathHunks] at known
    split_ifs at known with missing
    obtain ⟨file, held⟩ := List.exists_mem_of_ne_nil _ missing
    exact ⟨files.get file, List.get_mem files file, by simpa using (List.mem_filter.1 held).2⟩
  · rintro ⟨file, listed, same⟩
    obtain ⟨place, rfl⟩ := List.get_of_mem listed
    have held : place ∈ (List.finRange files.length).filter fun file =>
        (files.get file).path = name :=
      List.mem_filter.2 ⟨List.mem_finRange place, decide_eq_true same⟩
    exact ⟨_, if_neg (List.ne_nil_of_mem held)⟩

/-- A selection of names is accepted when each of them is. -/
theorem named_ok_iff {α : Type} (f : Str → Except ViewError (List α))
    (finish : List (List α) → List α × Str) (wanted : List Str) (known : Str → Prop)
    (each : ∀ name, (∃ found, f name = .ok found) ↔ known name) :
    (∃ units key, ((wanted.eraseDups.mapM f).map finish) = .ok (units, key)) ↔
      ∀ name ∈ wanted, known name := by
  constructor
  · rintro ⟨units, key, accepted⟩ name listed
    cases read : wanted.eraseDups.mapM f with
    | error error =>
      rw [read] at accepted
      cases accepted
    | ok lists =>
      exact (each name).1 (forall₂_left _ _ _ (mapM_ok _ _ _ read) name
        (List.mem_eraseDups.2 listed))
  · intro all
    obtain ⟨lists, read⟩ := mapM_all_ok f wanted.eraseDups fun name listed =>
      (each name).2 (all name (List.mem_eraseDups.1 listed))
    exact ⟨_, _, by rw [read]; rfl⟩

theorem selectTables_ok_iff (selection : Selection) :
    (∃ units key, selectTables scan files selection address = .ok (units, key)) ↔
      selection.Known files address := by
  rw [selectTables_eq]
  cases selection with
  | all => exact iff_of_true ⟨_, _, rfl⟩ trivial
  | addresses wanted =>
    exact named_ok_iff (addressHunks files address)
      (fun lists => (lists.flatten, "a:".toList ++ joinNames wanted.eraseDups)) wanted _
      (addressHunks_ok_iff address)
  | paths wanted =>
    exact named_ok_iff (pathHunks files)
      (fun lists => (lists.flatten, "p:".toList ++ joinNames wanted.eraseDups)) wanted _
      pathHunks_ok_iff

end Review

/-- A selection is accepted exactly when the review has every name of it. It then holds, once
each and in order, the hunks of its distinct names, or all of them in risk order; naming a thing
again changes nothing. -/
theorem selection_exact (scan : Scan) (files : List ReviewFile)
    (address : PatchHunk → Str → Str) :
    (∀ selection, (∃ units key, selectTables scan files selection address = .ok (units, key)) ↔
      selection.Known files address) ∧
    (∀ selection units key, selectTables scan files selection address = .ok (units, key) →
      units = selection.chosen scan address ∧ units.Nodup ∧ key = selection.key) ∧
    ((riskOrder scan files).map (·.file)).Perm (List.finRange files.length) ∧
    ((riskOrder scan files).Pairwise fun one two => rankLe one.key two.key = true) ∧
    (∀ ref : HunkRef files, ref ∈ Selection.all.chosen scan address) ∧
    ∀ before name after, name ∈ before →
      selectTables scan files (.addresses (before ++ name :: after)) address =
          selectTables scan files (.addresses (before ++ after)) address ∧
        selectTables scan files (.paths (before ++ name :: after)) address =
          selectTables scan files (.paths (before ++ after)) address := by
  refine ⟨selectTables_ok_iff scan address, ?_, riskOrder_perm scan, riskOrder_sorted scan, ?_, ?_⟩
  · intro selection units key accepted
    rw [selectTables_eq] at accepted
    obtain ⟨rfl, rfl⟩ := selectWith_eq_ok scan address selection units key accepted
    exact ⟨rfl, nodup_chosen scan address selection, rfl⟩
  · intro ref
    have placed := (riskOrder_perm scan).mem_iff.2 (List.mem_finRange ref.file)
    obtain ⟨place, listed, same⟩ := List.mem_map.1 placed
    exact List.mem_flatMap.2 ⟨place, listed, (mem_fileHunks _ ref).2 same.symm⟩
  · intro before name after held
    have once := unseen_repeat before after [] name held
    constructor
    · rw [selectTables, selectTables, once]
    · rw [selectTables, selectTables, once]

theorem selection_exact_twice :
    ∃ units key, selectTables quietScan [sampleFile]
        (.paths ([['x']] ++ ['x'] :: [])) PatchHunk.address = .ok (units, key) ∧
      units = (Selection.paths ([['x']] ++ ['x'] :: [])).chosen quietScan PatchHunk.address ∧
      units.Nodup ∧ key = (Selection.paths ([['x']] ++ ['x'] :: [])).key ∧
      selectTables quietScan [sampleFile] (.paths ([['x']] ++ [])) PatchHunk.address =
        .ok (units, key) := by
  have whole := selection_exact quietScan [sampleFile] PatchHunk.address
  obtain ⟨known, exactly, -, -, -, repeated⟩ := whole
  obtain ⟨units, key, accepted⟩ := (known (.paths ([['x']] ++ ['x'] :: []))).2 (by
    intro name listed
    exact ⟨sampleFile, List.mem_singleton.2 rfl, by simpa [sampleFile, eq_comm] using listed⟩)
  obtain ⟨chosen, once, named⟩ := exactly _ units key accepted
  refine ⟨units, key, accepted, chosen, once, named, ?_⟩
  rw [← (repeated [['x']] ['x'] [] List.mem_cons_self).2]
  exact accepted

end DeepDiffForge.Daemon
