import DeepDiffForge.Core.Address
import DeepDiffForge.Graph.Pointed
import DeepDiffForge.Tui.App

/-! The engine's own notes on a ranked review, and the store they are added to. -/

namespace DeepDiffForge.Tui
open Text DeepDiffForge.Core DeepDiffForge.Graph

structure StoredAnnotation extends AgentAnnotation where
  id : Str
  model : Option Str
  grounded : Bool
  deriving DecidableEq

def systemAgentId : Str := "deep-diff-forge/system".toList

def codePhrase : EvidenceSignal → Str
  | .unsafeAdded => "`unsafe` added.".toList
  | .processSpawn => "Starts a process.".toList
  | .networkFetch => "Makes a network call or download.".toList
  | .dynamicEval => "Builds and runs code from data.".toList
  | .ciPrivilege => "CI workflow gains a privilege.".toList
  | .buildHook => "Runs at build or install time.".toList
  | .secretLike => "Looks like a credential.".toList
  | .checkSuppressed => "A lint, type or coverage check is switched off.".toList
  | .testRemoved => "A test is removed.".toList

def signalPhrase : RiskSignal → Str
  | .publicApiSurface => "Public API surface — review first.".toList
  | .newFile => "New file.".toList
  | .deletedFile => "File deleted — check for lost behaviour.".toList
  | .binaryChange => "Binary change — no reviewable text.".toList
  | .largeChange => "Large change by line count.".toList
  | .manyHunks => "Many hunks — scattered edits.".toList
  | .configOrLockfile => "Config/lockfile change.".toList
  | .testOnly => "Test-only change (lower priority).".toList
  | .generatedOrVendored =>
      "Generated/vendored path — lower priority, but its author chose the path.".toList
  | .hazardousText =>
      "Hidden or control characters, or a traversing path — what you see may not be what ".toList ++
        "applies.".toList
  | .symlinkChange => "Symlink — check where it points.".toList
  | .executableBit => "Becomes executable — check what runs it.".toList
  | .code signal => codePhrase signal

def semanticPhrase : SemanticChangeKind → Str
  | .addedNode => "node added".toList
  | .removedNode => "node removed".toList
  | .modifiedNode => "node modified".toList
  | .movedNode => "node moved".toList
  | .reformattedOnly => "reformatted only".toList
  | .renamedSymbol => "symbol renamed".toList

def firstAnchor (file : ReviewFile) : AnnotationAnchor :=
  match file.patchTwin.hunks.head? with
  | none => .file file.path
  | some hunk => .hunk file.path hunk.id

def riskNote (file : ReviewFile) (signals : List RiskSignal) : StoredAnnotation where
  id := "ddf/sys/risk:".toList ++ file.path
  anchor := firstAnchor file
  body := [' '].intercalate (signals.map signalPhrase)
  agent := systemAgentId
  model := none
  evidence := signals.map (·.label)
  grounded := true

/-- One more of a kind, kinds in the order they first appear. -/
def countKind (kinds : List (SemanticChangeKind × Nat)) (kind : SemanticChangeKind) :
    List (SemanticChangeKind × Nat) :=
  match kinds with
  | [] => [(kind, 1)]
  | (other, count) :: rest =>
      if other = kind then (other, count + 1) :: rest else (other, count) :: countKind rest kind

def semanticNote (file : ReviewFile) : Option StoredAnnotation := do
  let twin ← file.semanticTwin
  let first ← twin.spans.head?
  let kinds := (twin.spans.map (·.kind)).foldl countKind []
  let breakdown := kinds.map fun (kind, count) => decimal count ++ ' ' :: semanticPhrase kind
  some {
    id := "ddf/sys/sem:".toList ++ file.path
    anchor := .hunk file.path first.hunkId
    body := decimal twin.spans.length ++ " semantic change(s): ".toList ++
      ", ".toList.intercalate breakdown ++ " (tree-sitter, ".toList ++ twin.language ++ ").".toList
    agent := systemAgentId
    model := none
    evidence := ["language:".toList ++ twin.language,
      "spans:".toList ++ decimal twin.spans.length]
    grounded := true }

def evidenceNote (file : ReviewFile) (item : Evidence) : StoredAnnotation where
  id := "ddf/sys/evidence:".toList ++ file.path ++ ':' :: (item.address ++ ':' ::
    (item.side.label ++ ':' :: item.signal.label))
  anchor := .hunk file.path item.hunk
  body := codePhrase item.signal ++ " (".toList ++ item.side.label ++ " line ".toList ++
    decimal item.line ++ [')']
  agent := systemAgentId
  model := none
  evidence := [item.signal.label, "basis:lexical".toList]
  grounded := true

def evidenceNotes (file : ReviewFile) (ranked : RankedFile) : List StoredAnnotation :=
  ranked.evidence.map (evidenceNote file)

def fileNotes (file : ReviewFile) (entry : RankedFile) : List StoredAnnotation :=
  (if entry.signals.isEmpty then [] else [riskNote file entry.signals]) ++
    evidenceNotes file entry ++ (semanticNote file).toList

def engineAnnotations (files : List ReviewFile) (ranked : List RankedFile) :
    List StoredAnnotation :=
  ranked.flatMap fun entry =>
    match files.find? (·.path = entry.path) with
    | none => []
    | some file => fileNotes file entry

structure AnnotationStore where
  annotations : List StoredAnnotation
  resolved : List Str

namespace AnnotationStore

def empty : AnnotationStore := ⟨[], []⟩

def add (store : AnnotationStore) (note : StoredAnnotation) : Bool × AnnotationStore :=
  if note.id = [] || store.annotations.any (·.id = note.id) then (false, store)
  else (true, { store with annotations := store.annotations ++ [note] })

def addAll (store : AnnotationStore) : List StoredAnnotation → List Bool × AnnotationStore
  | [] => ([], store)
  | note :: rest =>
      let (added, store) := store.add note
      let (others, store) := addAll store rest
      (added :: others, store)

end AnnotationStore

/-! ### What an id names -/

inductive NoteKey where
  | risk (path : Str)
  | semantic (path : Str)
  | evidence (path address : Str) (side : Side) (signal : EvidenceSignal)
  deriving DecidableEq

namespace NoteKey

def path : NoteKey → Str
  | .risk path => path
  | .semantic path => path
  | .evidence path _ _ _ => path

def id : NoteKey → Str
  | .risk path => "ddf/sys/risk:".toList ++ path
  | .semantic path => "ddf/sys/sem:".toList ++ path
  | .evidence path address side signal => "ddf/sys/evidence:".toList ++ path ++ ':' ::
      (address ++ ':' :: (side.label ++ ':' :: signal.label))

def Plain : NoteKey → Prop
  | .evidence _ address _ _ => ':' ∉ address
  | _ => True

def tag : NoteKey → Char
  | .risk _ => 'r'
  | .semantic _ => 's'
  | .evidence .. => 'e'

theorem id_get (key : NoteKey) : key.id[8]? = some key.tag := by
  cases key <;> rfl

theorem evidence_inj (path path' address address' : Str) (side side' : Side)
    (signal signal' : EvidenceSignal) (plain : ':' ∉ address) (plain' : ':' ∉ address')
    (same : (evidence path address side signal).id = (evidence path' address' side' signal').id) :
    path = path' ∧ address = address' ∧ side = side' ∧ signal = signal' := by
  have labels (signal : EvidenceSignal) : ':' ∉ signal.label := by cases signal <;> decide
  have sides (side : Side) : ':' ∉ side.label := by cases side <;> decide
  have regroup (start address side label : Str) :
      start ++ ':' :: (address ++ ':' :: (side ++ ':' :: label)) =
        ((start ++ ':' :: address) ++ ':' :: side) ++ ':' :: label := by
    simp only [List.append_assoc, List.cons_append]
  have nested (path address : Str) (side : Side) (signal : EvidenceSignal) :
      (evidence path address side signal).id = (("ddf/sys/evidence:".toList ++ path ++
        ':' :: address) ++ ':' :: side.label) ++ ':' :: signal.label := regroup _ _ _ _
  rw [nested, nested] at same
  obtain ⟨same, signalLabel⟩ := last_cut_unique ':' _ _ _ _ (labels signal) (labels signal') same
  obtain ⟨same, sideLabel⟩ := last_cut_unique ':' _ _ _ _ (sides side) (sides side') same
  obtain ⟨same, addresses⟩ := last_cut_unique ':' _ _ _ _ plain plain' same
  refine ⟨List.append_cancel_left same, addresses, ?_, ?_⟩
  · revert sideLabel
    cases side <;> cases side' <;> decide
  · revert signalLabel
    cases signal <;> cases signal' <;> decide

theorem id_inj (one two : NoteKey) (plain : one.Plain) (plain' : two.Plain)
    (same : one.id = two.id) : one = two := by
  have tags : one.tag = two.tag := by
    have get := id_get one
    rw [same, id_get two] at get
    exact (Option.some.inj get).symm
  cases one with
  | risk path =>
    cases two with
    | risk path' => rw [List.append_cancel_left same]
    | semantic path' => cases tags
    | evidence path' address' side' signal' => cases tags
  | semantic path =>
    cases two with
    | risk path' => cases tags
    | semantic path' => rw [List.append_cancel_left same]
    | evidence path' address' side' signal' => cases tags
  | evidence path address side signal =>
    cases two with
    | risk path' => cases tags
    | semantic path' => cases tags
    | evidence path' address' side' signal' =>
      obtain ⟨rfl, rfl, rfl, rfl⟩ := evidence_inj _ _ _ _ _ _ _ _ plain plain' same
      rfl

end NoteKey

/-- The pieces of evidence a file's notes show, each by its hunk's address, its side and its
signal. -/
def noteMarks (file : ReviewFile) : List (Str × Side × EvidenceSignal) :=
  (file.patchTwin.hunks.flatMap fun hunk =>
    (hunkMatches (FileKind.of file).language (rulesFor (FileKind.of file)) hunk).map fun found =>
      (hunk.address file.path, found.1, found.2.1)).take maxEvidencePerFile

theorem noteMarks_evidence (file : ReviewFile) :
    noteMarks file = (RankedFile.scored lexical file).evidence.map fun item =>
      (item.address, item.side, item.signal) := by
  show _ = ((fileEvidence file).take maxEvidencePerFile).map _
  rw [fileEvidence, if_neg (rulesFor_ne_nil _), List.map_take, List.map_flatMap, noteMarks]
  simp only [List.map_map]
  rfl

def fileKeys (file : ReviewFile) : List NoteKey :=
  (if (RankedFile.scored lexical file).signals.isEmpty then [] else [.risk file.path]) ++
    (noteMarks file).map (fun mark => .evidence file.path mark.1 mark.2.1 mark.2.2) ++
      (semanticNote file).toList.map fun _ => .semantic file.path

theorem semanticNote_id (file : ReviewFile) :
    ∀ note ∈ (semanticNote file).toList, note.id = (NoteKey.semantic file.path).id := by
  intro note listed
  rw [Option.mem_toList, semanticNote] at listed
  cases twin : file.semanticTwin with
  | none =>
    rw [twin] at listed
    cases listed
  | some twin' =>
    rw [twin] at listed
    cases first : twin'.spans.head? with
    | none =>
      simp only [Option.bind_eq_bind, Option.bind_some, first, Option.bind_none] at listed
      cases listed
    | some span =>
      simp only [Option.bind_eq_bind, Option.bind_some, first] at listed
      cases listed
      rfl

theorem fileNotes_ids (file : ReviewFile) :
    (fileNotes file (RankedFile.scored lexical file)).map (·.id) = (fileKeys file).map NoteKey.id := by
  have semantic : (semanticNote file).toList.map (·.id) =
      ((semanticNote file).toList.map fun _ => NoteKey.semantic file.path).map NoteKey.id := by
    rw [List.map_map]
    exact List.map_congr_left (semanticNote_id file)
  have risk : (if (RankedFile.scored lexical file).signals.isEmpty then []
      else [riskNote file (RankedFile.scored lexical file).signals]).map (·.id) =
      (if (RankedFile.scored lexical file).signals.isEmpty then []
        else [NoteKey.risk file.path]).map NoteKey.id := by
    split <;> rfl
  rw [fileNotes, fileKeys, List.map_append, List.map_append, List.map_append, List.map_append,
    semantic, risk, evidenceNotes, noteMarks_evidence, List.map_map, List.map_map, List.map_map, List.map_map]
  rfl

theorem address_plain (hunk : PatchHunk) (path : Str) : ':' ∉ hunk.address path := by
  rw [address_eq]
  exact sha256Hex_free _ ':' (by decide)

theorem noteMarks_plain (file : ReviewFile) : ∀ mark ∈ noteMarks file, ':' ∉ mark.1 := by
  intro mark listed
  obtain ⟨hunk, -, listed⟩ := List.mem_flatMap.1 (List.mem_of_mem_take listed)
  obtain ⟨found, -, rfl⟩ := List.mem_map.1 listed
  exact address_plain hunk file.path

theorem fileKeys_facts (file : ReviewFile) :
    ∀ key ∈ fileKeys file, key.path = file.path ∧ key.Plain := by
  intro key listed
  rcases List.mem_append.1 listed with listed | semantic
  · rcases List.mem_append.1 listed with risk | evidence
    · split at risk
      · cases risk
      · rw [List.mem_singleton.1 risk]
        exact ⟨rfl, trivial⟩
    · obtain ⟨mark, inside, rfl⟩ := List.mem_map.1 evidence
      exact ⟨rfl, noteMarks_plain file mark inside⟩
  · obtain ⟨note, -, rfl⟩ := List.mem_map.1 semantic
    exact ⟨rfl, trivial⟩

/-- A file has one risk note and one semantic note at most, so only evidence can repeat. -/
theorem fileKeys_nodup (file : ReviewFile) :
    (fileKeys file).Nodup ↔ (noteMarks file).Nodup := by
  have marks : ((noteMarks file).map fun mark =>
      NoteKey.evidence file.path mark.1 mark.2.1 mark.2.2).Nodup ↔ (noteMarks file).Nodup := by
    refine List.nodup_map_iff ?_
    rintro ⟨address, side, signal⟩ ⟨address', side', signal'⟩ same
    cases same
    rfl
  rw [← marks, fileKeys]
  constructor
  · intro all
    exact (List.nodup_append.1 (List.nodup_append.1 all).1).2.1
  · intro evidence
    refine List.nodup_append.2 ⟨List.nodup_append.2 ⟨?_, evidence, ?_⟩, ?_, ?_⟩
    · split
      · exact List.nodup_nil
      · exact List.nodup_singleton _
    · intro key risk other listed same
      split at risk
      · cases risk
      · obtain ⟨mark, -, rfl⟩ := List.mem_map.1 listed
        rw [List.mem_singleton.1 risk] at same
        cases same
    · cases semanticNote file with
      | none => exact List.nodup_nil
      | some note => exact List.nodup_singleton _
    · intro key before other listed same
      obtain ⟨note, -, rfl⟩ := List.mem_map.1 listed
      rcases List.mem_append.1 before with risk | evidence
      · split at risk
        · cases risk
        · rw [List.mem_singleton.1 risk] at same
          cases same
      · obtain ⟨mark, -, rfl⟩ := List.mem_map.1 evidence
        cases same

section Review
variable (files : List ReviewFile) (distinct : (files.map (·.path)).Nodup)
include distinct

theorem engineAnnotations_files :
    engineAnnotations files (rank lexical files) = (rankedFiles lexical files).flatMap fun file =>
      fileNotes file (RankedFile.scored lexical file) := by
  rw [engineAnnotations, ← map_rankedFiles, List.flatMap_map]
  refine List.flatMap_congr fun file listed => ?_
  have known : file ∈ files := (List.mergeSort_perm ..).mem_iff.1 listed
  have own : files.find? (·.path = (RankedFile.scored lexical file).path) = some file :=
    find_own files file distinct known
  rw [own]

theorem engineIds_keys :
    (engineAnnotations files (rank lexical files)).map (·.id) =
      ((rankedFiles lexical files).flatMap fileKeys).map NoteKey.id := by
  rw [engineAnnotations_files files distinct, List.map_flatMap, List.map_flatMap]
  exact List.flatMap_congr fun file _ => fileNotes_ids file

/-- The ids are distinct when and only when no file's shown evidence repeats. -/
theorem engineIds_nodup :
    ((engineAnnotations files (rank lexical files)).map (·.id)).Nodup ↔
      ∀ file ∈ files, (noteMarks file).Nodup := by
  have perm : (rankedFiles lexical files).Perm files := List.mergeSort_perm ..
  have apart : (rankedFiles lexical files).Pairwise (Function.onFun List.Disjoint fileKeys) := by
    have paths : ((rankedFiles lexical files).map (·.path)).Nodup :=
      (perm.map _).nodup_iff.2 distinct
    refine (List.pairwise_map.1 paths).imp fun other => ?_
    intro key one two
    exact other ((fileKeys_facts _ key one).1.symm.trans (fileKeys_facts _ key two).1)
  have keys : ((rankedFiles lexical files).flatMap fileKeys).Nodup ↔
      ∀ file ∈ files, (noteMarks file).Nodup := by
    rw [List.nodup_flatMap, and_iff_left apart]
    constructor
    · intro each file listed
      exact (fileKeys_nodup file).1 (each file (perm.mem_iff.2 listed))
    · intro each file listed
      exact (fileKeys_nodup file).2 (each file (perm.mem_iff.1 listed))
  rw [engineIds_keys files distinct, ← keys]
  constructor
  · exact List.Nodup.of_map _
  · intro nodup
    refine nodup.map_on fun one first two second same => ?_
    obtain ⟨file, -, first⟩ := List.mem_flatMap.1 first
    obtain ⟨other, -, second⟩ := List.mem_flatMap.1 second
    exact NoteKey.id_inj one two (fileKeys_facts file one first).2
      (fileKeys_facts other two second).2 same

end Review

/-! ### Adding the notes -/

theorem note_named (file : ReviewFile) (entry : RankedFile) :
    ∀ note ∈ fileNotes file entry, note.id ≠ [] := by
  intro note listed
  rcases List.mem_append.1 listed with listed | semantic
  · rcases List.mem_append.1 listed with risk | evidence
    · split at risk
      · cases risk
      · rw [List.mem_singleton.1 risk]
        exact List.append_ne_nil_of_left_ne_nil (by decide) _
    · obtain ⟨item, -, rfl⟩ := List.mem_map.1 evidence
      exact List.append_ne_nil_of_left_ne_nil
        (List.append_ne_nil_of_left_ne_nil (by decide) _) _
  · rw [semanticNote_id file note semantic]
    exact List.append_ne_nil_of_left_ne_nil (by decide) _

namespace AnnotationStore

theorem add_fresh (store : AnnotationStore) (note : StoredAnnotation) (named : note.id ≠ [])
    (fresh : note.id ∉ store.annotations.map (·.id)) :
    store.add note = (true, { store with annotations := store.annotations ++ [note] }) := by
  have unknown : store.annotations.any (fun a => decide (a.id = note.id)) = false := by
    rw [List.any_eq_false]
    intro other listed same
    exact fresh (List.mem_map.2 ⟨other, listed, of_decide_eq_true same⟩)
  rw [add, unknown, decide_eq_false named]
  rfl

/-- Notes with distinct ids are all added, in order. -/
theorem addAll_fresh (notes : List StoredAnnotation) (store : AnnotationStore)
    (named : ∀ note ∈ notes, note.id ≠ [])
    (fresh : ((store.annotations ++ notes).map (·.id)).Nodup) :
    store.addAll notes = (notes.map fun _ => true,
      { store with annotations := store.annotations ++ notes }) := by
  induction notes generalizing store with
  | nil => rw [addAll, List.append_nil]; rfl
  | cons note notes ih =>
    have own : note.id ∉ store.annotations.map (·.id) := by
      rw [List.map_append, List.nodup_append] at fresh
      exact fun listed => fresh.2.2 _ listed _ List.mem_cons_self rfl
    have later := ih { store with annotations := store.annotations ++ [note] }
      (fun other listed => named other (List.mem_cons_of_mem _ listed))
      (by rwa [List.append_assoc])
    rw [addAll, add_fresh store note (named note List.mem_cons_self) own]
    dsimp only
    rw [later, List.append_assoc]
    rfl

end AnnotationStore

/-- The engine's notes have distinct ids, the store takes each, and each piece of evidence keeps
the note that names it. -/
structure Kept (files : List ReviewFile) : Prop where
  distinct : ((engineAnnotations files (rank lexical files)).map (·.id)).Nodup
  added : ∀ added ∈ (AnnotationStore.empty.addAll (engineAnnotations files (rank lexical files))).1,
    added = true
  stored : (AnnotationStore.empty.addAll (engineAnnotations files (rank lexical files))).2 =
    ⟨engineAnnotations files (rank lexical files), []⟩
  evidence : ∀ entry ∈ rank lexical files, ∀ item ∈ entry.evidence, ∃ file ∈ files,
    file.path = entry.path ∧ evidenceNote file item ∈
      (AnnotationStore.empty.addAll (engineAnnotations files (rank lexical files))).2.annotations

/-- Every note is kept when and only when no two of a file's first pieces of evidence have one
hunk address, one side and one signal. -/
theorem notes_kept (files : List ReviewFile) (distinct : (files.map (·.path)).Nodup) :
    Kept files ↔ ∀ file ∈ files, (noteMarks file).Nodup := by
  rw [← engineIds_nodup files distinct]
  constructor
  · exact Kept.distinct
  · intro nodup
    have named : ∀ note ∈ engineAnnotations files (rank lexical files), note.id ≠ [] := by
      rw [engineAnnotations_files files distinct]
      intro note listed
      obtain ⟨file, -, listed⟩ := List.mem_flatMap.1 listed
      exact note_named file _ note listed
    have run := AnnotationStore.addAll_fresh _ AnnotationStore.empty named
      (by rwa [AnnotationStore.empty, List.nil_append])
    refine ⟨nodup, ?_, ?_, ?_⟩
    · rw [run]
      intro added listed
      obtain ⟨note, -, rfl⟩ := List.mem_map.1 listed
      rfl
    · rw [run]
      rfl
    · intro entry ranked item listed
      rw [← map_rankedFiles] at ranked
      obtain ⟨file, known, rfl⟩ := List.mem_map.1 ranked
      refine ⟨file, (List.mergeSort_perm ..).mem_iff.1 known, rfl, ?_⟩
      rw [run]
      show evidenceNote file item ∈ [] ++ engineAnnotations files (rank lexical files)
      rw [List.nil_append, engineAnnotations_files files distinct]
      refine List.mem_flatMap.2 ⟨file, known, ?_⟩
      exact List.mem_append_left _ (List.mem_append_right _ (List.mem_map_of_mem listed))

/-- A hunk that evaluates a string and starts a process. -/
def spawningHunk : PatchHunk where
  id := 0
  oldStart := some 3
  newStart := some 4
  sectionHeading := none
  lines :=
    [{ noNewline := false, lossy := false, kind := .added, oldLine := none, newLine := some 4,
       text := "eval(x)".toList },
     { noNewline := false, lossy := false, kind := .added, oldLine := none, newLine := some 5,
       text := "os.system(x)".toList }]

def spawning : ReviewFile :=
  { evaluating 4 4 5 with
    patchTwin := { binaryBody := [], hunks := [spawningHunk], metadata := [], lossyLines := 0 } }

/-- Two signals in one hunk have two notes, and both are kept. -/
theorem notes_kept_evaluating : (noteMarks spawning).length = 2 ∧ Kept [spawning] := by
  have found : hunkMatches (FileKind.of spawning).language (rulesFor (FileKind.of spawning))
      spawningHunk = [(.new, .dynamicEval, 4), (.new, .processSpawn, 5)] := by
    decide +kernel
  have hunks : spawning.patchTwin.hunks = [spawningHunk] := rfl
  have marks : noteMarks spawning =
      [(spawningHunk.address spawning.path, .new, .dynamicEval),
        (spawningHunk.address spawning.path, .new, .processSpawn)] := by
    rw [noteMarks, hunks, List.flatMap_singleton, found]
    rfl
  refine ⟨congrArg List.length marks, (notes_kept [spawning] (List.nodup_singleton _)).2 ?_⟩
  rw [List.forall_mem_singleton, marks]
  simp

/-- Two lines of one hunk that evaluate a string: one note stands for both. -/
theorem notes_lost :
    Patch.parse (evaluatingText "@@ -3 +4,2 @@") = .ok [evaluating 4 4 5] ∧
      ([evaluating 4 4 5].map (·.path)).Nodup ∧ ¬ Kept [evaluating 4 4 5] := by
  have accepted : Patch.parse (evaluatingText "@@ -3 +4,2 @@") = .ok [evaluating 4 4 5] := by
    decide +kernel
  have single : ([evaluating 4 4 5].map (·.path)).Nodup := List.nodup_singleton _
  refine ⟨accepted, single, fun kept => ?_⟩
  have nodup := (notes_kept _ single).1 kept _ List.mem_cons_self
  let hunk := (evaluating 4 4 5).patchTwin.hunks.head (by decide)
  have found : hunkMatches (FileKind.of (evaluating 4 4 5)).language
      (rulesFor (FileKind.of (evaluating 4 4 5))) hunk =
      [(.new, .dynamicEval, 4), (.new, .dynamicEval, 5)] := by
    decide +kernel
  have hunks : (evaluating 4 4 5).patchTwin.hunks = [hunk] := rfl
  rw [noteMarks, hunks, List.flatMap_singleton, found] at nodup
  exact (List.nodup_cons.1 nodup).1 List.mem_cons_self

end DeepDiffForge.Tui
