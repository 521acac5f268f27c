import DeepDiffForge.Lib.Fallible
import DeepDiffForge.Patch.Shape

/-! What each rule of the parser does, said without its control flow: when a section ends well,
what an extended header records, what a body line takes from its hunk. -/

namespace DeepDiffForge.Patch
open Text DeepDiffForge.Core Fallible

theorem finish_eq_ok (file : FileBuf) (lastLine : Nat) (reviewed : ReviewFile) :
    file.finish lastLine = .ok reviewed ↔ file.finished = some reviewed := by
  simp only [FileBuf.finish, FileBuf.finished]
  by_cases awaiting : file.awaitingNewHeader = true
  · simp [awaiting]
  by_cases inconsistent : file.inconsistent = true
  · simp [awaiting, inconsistent]
  by_cases mixed : file.mixesTextAndBinary = true
  · simp [awaiting, inconsistent, mixed]
  simp only [awaiting, inconsistent, mixed, Bool.or_self, Bool.false_eq_true, if_false]
  cases completed : file.completeMoveHeaders with
  | none => simp
  | some moved =>
    simp only [Option.bind_some]
    cases (if file.hasMove then some moved else moved.recordImpliedRename) with
    | none => simp
    | some named =>
      simp only [Option.bind_some, FileBuf.refuseWhatGitReadsNothingFrom]
      by_cases sources : named.checkMoveSources named.metadata none = true
      · by_cases path : named.resolvePath = []
        · simp [sources, path, bind, Except.bind]
        by_cases mode : named.onlyAnUnchangedMode = true
        · simp [sources, path, mode, bind, Except.bind]
        by_cases empty : (named.hunks = [] && (!named.git || named.metadata = [])) = true
        · simp only [sources, path, mode, empty, if_true, if_false, bind, Except.bind]
          simp
        · simp only [sources, path, mode, empty, if_true, if_false, bind, Except.bind]
          simp [pure, Except.pure, path]
      · simp [sources]

def FileBuf.renumber (file : FileBuf) (base first : Nat) (eofOld eofNew : Option Nat) : FileBuf :=
  { file with hunks := shiftHunks base file.hunks, firstLine := first, eofOld, eofNew }

def FileBuf.reframe (file : FileBuf) (base first : Nat) (eofOld eofNew : Option Nat)
    (ended : Bool) : FileBuf :=
  { file.renumber base first eofOld eofNew with headerEnded := ended }

def FileBuf.recast (file : FileBuf) (f : PatchHunk → PatchHunk) (first : Nat)
    (eofOld eofNew : Option Nat) (ended : Bool) : FileBuf :=
  { file with hunks := file.hunks.map f, firstLine := first, eofOld, eofNew, headerEnded := ended }

def recastFile (f : PatchHunk → PatchHunk) (file : ReviewFile) : ReviewFile :=
  { file with patchTwin := { file.patchTwin with hunks := file.patchTwin.hunks.map f } }

def KeepsKinds (f : PatchHunk → PatchHunk) : Prop :=
  ∀ hunk, (f hunk).lines.map (·.kind) = hunk.lines.map (·.kind)

section Recast
variable (file : FileBuf) (f : PatchHunk → PatchHunk) (first : Nat)
  (eofOld eofNew : Option Nat) (ended : Bool)

theorem hunks_recast_eq_nil :
    decide ((file.recast f first eofOld eofNew ended).hunks = []) = decide (file.hunks = []) := by
  simp [FileBuf.recast]

theorem changedLines_recast (keeps : KeepsKinds f) (kind : PatchLineKind) :
    (file.recast f first eofOld eofNew ended).changedLines.any (fun line => !(line.kind = kind)) =
      file.changedLines.any (fun line => !(line.kind = kind)) := by
  have kinds : (file.recast f first eofOld eofNew ended).changedLines.map (·.kind) =
      file.changedLines.map (·.kind) := by
    simp only [FileBuf.changedLines, FileBuf.recast, List.flatMap_map, List.map_flatMap]
    exact List.flatMap_congr fun hunk _ => keeps hunk
  have mapped (lines : List PatchLine) : lines.any (fun line => !(line.kind = kind)) =
      (lines.map (·.kind)).any (fun own => !(own = kind)) := by
    rw [List.any_map]
    rfl
  rw [mapped, mapped, kinds]

theorem resolveStatus_recast :
    (file.recast f first eofOld eofNew ended).resolveStatus = file.resolveStatus := by
  simp only [FileBuf.resolveStatus, hunks_recast_eq_nil]
  rfl

theorem inconsistent_recast (keeps : KeepsKinds f) :
    (file.recast f first eofOld eofNew ended).inconsistent = file.inconsistent := by
  have lines := changedLines_recast file f first eofOld eofNew ended keeps
  have status := resolveStatus_recast file f first eofOld eofNew ended
  simp only [FileBuf.inconsistent, lines, status, ne_eq, decide_not, hunks_recast_eq_nil]
  rfl

theorem completeSide_recast (verb side : Str) (raw : Option Str) :
    (file.recast f first eofOld eofNew ended).completeSide verb side raw =
      (file.completeSide verb side raw).map (·.recast f first eofOld eofNew ended) := by
  simp only [FileBuf.completeSide]
  cases found : (namedSide raw file.p0).filter (fun name => !gitRefusesPath name) with
  | none => simp [FileBuf.recast, found]
  | some name =>
    simp only [FileBuf.recast, found]
    split_ifs <;> rfl

theorem completeMoveHeaders_recast :
    (file.recast f first eofOld eofNew ended).completeMoveHeaders =
      file.completeMoveHeaders.map (·.recast f first eofOld eofNew ended) := by
  have has (start : Str) : (file.recast f first eofOld eofNew ended).has start = file.has start := rfl
  have old : (file.recast f first eofOld eofNew ended).oldRaw = file.oldRaw := rfl
  have new : (file.recast f first eofOld eofNew ended).newRaw = file.newRaw := rfl
  simp only [FileBuf.completeMoveHeaders, has, old, new, completeSide_recast]
  have complete (verb : Str) :
      ((if (!file.has (verb ++ "from ".toList)) = true then
          (file.completeSide verb "from ".toList file.oldRaw).map
            (·.recast f first eofOld eofNew ended)
        else some (file.recast f first eofOld eofNew ended)).bind fun file' =>
          if (!file.has (verb ++ "to ".toList)) = true then
            file'.completeSide verb "to ".toList file.newRaw else some file') =
      ((if (!file.has (verb ++ "from ".toList)) = true then
          file.completeSide verb "from ".toList file.oldRaw
        else some file).bind fun file' =>
          if (!file.has (verb ++ "to ".toList)) = true then
            file'.completeSide verb "to ".toList file.newRaw else some file').map
        (·.recast f first eofOld eofNew ended) := by
    split_ifs with noFrom noTo
    · cases file.completeSide verb "from ".toList file.oldRaw with
      | none => rfl
      | some file' => simp [completeSide_recast]
    · cases file.completeSide verb "from ".toList file.oldRaw with
      | none => rfl
      | some file' => simp
    · simp [completeSide_recast]
    · rfl
  simp only [complete]
  split_ifs <;> rfl

theorem recordImpliedRename_recast :
    (file.recast f first eofOld eofNew ended).recordImpliedRename =
      file.recordImpliedRename.map (·.recast f first eofOld eofNew ended) := by
  have git : (file.recast f first eofOld eofNew ended).git = file.git := rfl
  have old : namedSide (file.recast f first eofOld eofNew ended).oldRaw
    (file.recast f first eofOld eofNew ended).p0 = namedSide file.oldRaw file.p0 := rfl
  have new : namedSide (file.recast f first eofOld eofNew ended).newRaw
    (file.recast f first eofOld eofNew ended).p0 = namedSide file.newRaw file.p0 := rfl
  simp only [FileBuf.recordImpliedRename, git, old, new]
  by_cases traditional : (!file.git) = true
  · simp only [if_pos traditional, Option.map_some]
  · simp only [if_neg traditional]
    cases namedSide file.oldRaw file.p0 with
    | none => rfl
    | some oldName =>
      cases namedSide file.newRaw file.p0 with
      | none => rfl
      | some newName =>
        simp only
        split_ifs <;> rfl

theorem checkMoveSources_recast
    (lines : List Str) (declared : Option Str) :
    (file.recast f first eofOld eofNew ended).checkMoveSources lines declared =
      file.checkMoveSources lines declared := by
  induction lines generalizing declared with
  | nil => rfl
  | cons line lines ih =>
    simp only [FileBuf.checkMoveSources, ih]
    rfl

theorem finished_recast (keeps : KeepsKinds f) :
    (file.recast f first eofOld eofNew ended).finished = file.finished.map (recastFile f) := by
  have awaiting : (file.recast f first eofOld eofNew ended).awaitingNewHeader =
    file.awaitingNewHeader := rfl
  have mixed : (file.recast f first eofOld eofNew ended).mixesTextAndBinary =
      file.mixesTextAndBinary := by
    simp only [FileBuf.mixesTextAndBinary, ne_eq, decide_not, hunks_recast_eq_nil]
    rfl
  have move : (file.recast f first eofOld eofNew ended).hasMove = file.hasMove := rfl
  have into (file : FileBuf) : (file.recast f first eofOld eofNew ended).intoReviewFile =
      recastFile f file.intoReviewFile := by
    have status := resolveStatus_recast file f first eofOld eofNew ended
    simp only [FileBuf.intoReviewFile, status]
    rfl
  have ending (named : FileBuf) :
      (if (named.recast f first eofOld eofNew ended).checkMoveSources named.metadata none &&
          named.resolvePath ≠ [] && !(named.recast f first eofOld eofNew ended).onlyAnUnchangedMode &&
          !((named.recast f first eofOld eofNew ended).hunks = [] &&
            (!named.git || named.metadata = []))
        then some (named.recast f first eofOld eofNew ended).intoReviewFile else none) =
      (if named.checkMoveSources named.metadata none && named.resolvePath ≠ [] &&
          !named.onlyAnUnchangedMode && !(named.hunks = [] && (!named.git || named.metadata = []))
        then some named.intoReviewFile else none).map (recastFile f) := by
    have mode : (named.recast f first eofOld eofNew ended).onlyAnUnchangedMode =
        named.onlyAnUnchangedMode := by
      simp only [FileBuf.onlyAnUnchangedMode, hunks_recast_eq_nil]
      rfl
    simp only [checkMoveSources_recast, mode, into, hunks_recast_eq_nil]
    split_ifs <;> rfl
  simp only [FileBuf.finished, awaiting, inconsistent_recast _ _ _ _ _ _ keeps, mixed, move,
    completeMoveHeaders_recast]
  split_ifs with refused moved
  · rfl
  · cases file.completeMoveHeaders with
    | none => rfl
    | some completed => exact ending completed
  · cases file.completeMoveHeaders with
    | none => rfl
    | some completed =>
      simp only [Option.map_some, Option.bind_some, recordImpliedRename_recast]
      cases completed.recordImpliedRename with
      | none => rfl
      | some named => exact ending named

end Recast

theorem finished_reframe (file : FileBuf) (base first : Nat) (eofOld eofNew : Option Nat)
    (ended : Bool) :
    (file.reframe base first eofOld eofNew ended).finished = file.finished.map (shiftFile base) :=
  finished_recast file (fun hunk => { hunk with id := hunk.id + base }) first eofOld eofNew ended
    fun _ => rfl

theorem hunks_renumber_eq_nil (file : FileBuf) (base first : Nat) (eofOld eofNew : Option Nat) :
    decide ((file.renumber base first eofOld eofNew).hunks = []) = decide (file.hunks = []) :=
  hunks_recast_eq_nil file (fun hunk => { hunk with id := hunk.id + base }) first eofOld eofNew
    file.headerEnded

theorem finished_renumber (file : FileBuf) (base first : Nat) (eofOld eofNew : Option Nat) :
    (file.renumber base first eofOld eofNew).finished = file.finished.map (shiftFile base) :=
  finished_reframe file base first eofOld eofNew file.headerEnded

theorem nameTraditional_eq (file : FileBuf) (old new : Str) (newEpoch newQuoted : Bool)
    (oldRaw : file.oldRaw = some old) (newRaw : file.newRaw = some new) :
    file.nameTraditional newEpoch newQuoted =
      { file with
        oldRaw := (traditionalNames old new file.p0 file.oldEpoch newEpoch newQuoted).1
        newRaw := (traditionalNames old new file.p0 file.oldEpoch newEpoch newQuoted).2.1
        traditionalPath :=
          (traditionalNames old new file.p0 file.oldEpoch newEpoch newQuoted).2.2 } := by
  simp only [FileBuf.nameTraditional, oldRaw, newRaw, traditionalNames]
  split_ifs <;> simp [← oldRaw, ← newRaw]

theorem startsWith_of_extended (line other : Str) (extended : isExtended line = true)
    (apart : (metaPrefixes ++ movePrefixes).all
      (fun start => !(startsWith start other || startsWith other start)) = true) :
    startsWith other line = false := by
  simp only [isExtended, startsWithAny, Bool.or_eq_true, List.any_eq_true] at extended
  rw [List.all_eq_true] at apart
  obtain ⟨start, member, begins⟩ :
      ∃ start ∈ metaPrefixes ++ movePrefixes, startsWith start line = true := by
    rcases extended with ⟨start, member, begins⟩ | ⟨start, member, begins⟩
    · exact ⟨start, List.mem_append_left _ member, begins⟩
    · exact ⟨start, List.mem_append_right _ member, begins⟩
  exact startsWith_apart start other line begins (by simpa using apart start member)

def FileBuf.withHeader (file : FileBuf) (header : Str) : FileBuf :=
  { file with
    metadata := file.metadata ++ [header]
    renameFrom := ((stripPrefix "rename from ".toList header).map movedPath).getD file.renameFrom
    renameTo := ((stripPrefix "rename to ".toList header).map movedPath).getD file.renameTo
    inBinaryBody := file.inBinaryBody || header = "GIT binary patch".toList }

theorem meta_of_extended (header : Str) (extended : isExtended header = true)
    (low : stripPrefix "rename from ".toList header = none)
    (stop : stripPrefix "rename to ".toList header = none) :
    startsWithAny metaPrefixes header = true := by
  rw [stripPrefix_eq_none] at low stop
  simp only [isExtended, Bool.or_eq_true] at extended
  rcases extended with listed | moved
  · exact listed
  · simp only [startsWithAny, movePrefixes, List.any_cons, low, stop, List.any_nil,
      Bool.or_false, Bool.false_or, Bool.or_eq_true] at moved
    simp only [startsWithAny, List.any_eq_true]
    rcases moved with source | target
    · exact ⟨"copy from ".toList, by decide, source⟩
    · exact ⟨"copy to ".toList, by decide, target⟩

theorem stripPrefix_apart (first second whole rest : Str)
    (one : stripPrefix first whole = some rest)
    (apart : (startsWith first second || startsWith second first) = false) :
    stripPrefix second whole = none := by
  rw [stripPrefix_eq_none]
  exact startsWith_apart first second whole (by simp [startsWith, one]) apart

theorem any_isNone_of_all {α β : Type} {found : Option α} {read : α → Option β}
    (all : found.all (fun value => (read value).isSome) = true) :
    found.any (fun value => (read value).isNone) = false := by
  cases found with
  | none => rfl
  | some value => simpa using all

theorem tryMetadata_read (file : FileBuf) (header : Str) (lineNumber : Nat)
    (early : file.pastHeaders = false) (unbroken : file.headerEnded = false)
    (read : readsExtended header = true) :
    file.tryMetadata header lineNumber = .ok (some (file.withHeader header)) := by
  simp only [readsExtended, Bool.and_eq_true, List.all_cons, List.all_nil] at read
  obtain ⟨⟨extended, low, stop, source, target, _⟩, modes⟩ := read
  have old := startsWith_of_extended header "rename old ".toList extended (by decide)
  have new := startsWith_of_extended header "rename new ".toList extended (by decide)
  have placed : (isExtended header && (file.pastHeaders || file.headerEnded)) = false := by
    rw [early, unbroken, Bool.or_self, Bool.and_false]
  have current : (!file.pastHeaders && (startsWith "rename old ".toList header ||
      startsWith "rename new ".toList header)) = false := by
    rw [old, new, Bool.or_self, Bool.and_false]
  simp only [FileBuf.tryMetadata, placed, current, Bool.false_eq_true, if_false]
  cases renamed : stripPrefix "rename from ".toList header with
  | some path =>
    have other := stripPrefix_apart _ "rename to ".toList _ _ renamed (by decide)
    have notBinary : header ≠ "GIT binary patch".toList := by
      rintro rfl
      exact absurd (Option.isSome_of_eq_some renamed) (by decide)
    rw [renamed, Option.all_some] at low
    obtain ⟨moved, named⟩ := Option.isSome_iff_exists.1 low
    simp only [named, FileBuf.withHeader, renamed, other, Option.map_some, Option.map_none,
      Option.getD_some, Option.getD_none, notBinary, decide_false, Bool.or_false]
  | none =>
    cases renamedTo : stripPrefix "rename to ".toList header with
    | some path =>
      have notBinary : header ≠ "GIT binary patch".toList := by
        rintro rfl
        exact absurd (Option.isSome_of_eq_some renamedTo) (by decide)
      rw [renamedTo, Option.all_some] at stop
      obtain ⟨moved, named⟩ := Option.isSome_iff_exists.1 stop
      simp only [named, FileBuf.withHeader, renamed, renamedTo, Option.map_some, Option.map_none,
        Option.getD_some, Option.getD_none, notBinary, decide_false, Bool.or_false]
    | none =>
      have listed := meta_of_extended header extended renamed renamedTo
      have paths : (((stripPrefix "copy from ".toList header).or
          (stripPrefix "copy to ".toList header)).any fun path => (movedPath path).isNone) =
          false := by
        cases copied : stripPrefix "copy from ".toList header with
        | some path => simpa only [copied, Option.all_some, Option.some_or, Option.any_some,
            Option.isNone_eq_false_iff] using source
        | none =>
          rw [Option.none_or]
          exact any_isNone_of_all target
      have readable : (modePrefixes.any fun p =>
          (stripPrefix p header).any fun mode => (parseMode mode).isNone) = false := by
        rw [List.any_eq_false]
        intro start member
        rw [Bool.not_eq_true]
        exact any_isNone_of_all (List.all_eq_true.1 modes start member)
      simp only [paths, readable, listed, FileBuf.withHeader, renamed, renamedTo, Option.map_none,
        Option.getD_none, Bool.false_eq_true, if_false, if_true]

theorem extended_of_move (header : Str) (start rest : Str)
    (starts : stripPrefix start header = some rest) (listed : start ∈ movePrefixes) :
    isExtended header = true := by
  have begins : startsWith start header = true := by rw [startsWith, starts, Option.isSome_some]
  have any : startsWithAny movePrefixes header = true :=
    List.any_eq_true.2 ⟨start, listed, begins⟩
  rw [isExtended, any, Bool.or_true]

theorem modePrefixes_listed : ∀ start ∈ modePrefixes, start ∈ metaPrefixes := by decide

theorem tryMetadata_plain (file : FileBuf) (header : Str) (lineNumber : Nat)
    (plain : isExtended header = false)
    (moves : file.pastHeaders = true ∨ (startsWith "rename old ".toList header = false ∧
      startsWith "rename new ".toList header = false)) :
    file.tryMetadata header lineNumber = .ok none := by
  have unlisted := plain
  simp only [isExtended, startsWithAny, Bool.or_eq_false_iff, List.any_eq_false,
    Bool.not_eq_true] at unlisted
  have absent (start : Str) (member : start ∈ metaPrefixes ++ movePrefixes) :
      stripPrefix start header = none := by
    rw [stripPrefix_eq_none]
    rcases List.mem_append.1 member with listed | moved
    · exact unlisted.1 start listed
    · exact unlisted.2 start moved
  have placed : (isExtended header && (file.pastHeaders || file.headerEnded)) = false := by
    rw [plain, Bool.false_and]
  have current : (!file.pastHeaders && (startsWith "rename old ".toList header ||
      startsWith "rename new ".toList header)) = false := by
    rcases moves with past | ⟨old, new⟩
    · rw [past, Bool.not_true, Bool.false_and]
    · rw [old, new, Bool.or_self, Bool.and_false]
  have readable : (modePrefixes.any fun p =>
      (stripPrefix p header).any fun mode => (parseMode mode).isNone) = false := by
    rw [List.any_eq_false]
    intro start member
    rw [absent start (List.mem_append_left _ (modePrefixes_listed start member))]
    simp
  have unknown : startsWithAny metaPrefixes header = false := by
    rw [isExtended, Bool.or_eq_false_iff] at plain
    exact plain.1
  simp only [FileBuf.tryMetadata, placed, current, Bool.false_eq_true, if_false,
    absent "rename from ".toList (by decide), absent "rename to ".toList (by decide),
    absent "copy from ".toList (by decide), absent "copy to ".toList (by decide), Option.none_or,
    Option.any_none, readable, unknown]

theorem all_isSome_of_any {α β : Type} {found : Option α} {read : α → Option β}
    (any : found.any (fun value => (read value).isNone) = false) :
    found.all (fun value => (read value).isSome) = true := by
  cases found with
  | none => rfl
  | some value => simpa using any

theorem modePrefixes_unmoved : ∀ start ∈ modePrefixes, start ∉ movePrefixes := by decide

theorem readsExtended_renamed (header start path moved : Str) (renames : start ∈ movePrefixes)
    (starts : stripPrefix start header = some path) (named : movedPath path = some moved)
    (apart : ∀ other ∈ movePrefixes ++ modePrefixes, other = start ∨
      (startsWith start other || startsWith other start) = false) :
    readsExtended header = true := by
  have each (other : Str) (member : other ∈ movePrefixes) :
      (stripPrefix other header).all (fun path => (movedPath path).isSome) = true := by
    rcases apart other (List.mem_append_left _ member) with same | apart
    · rw [same, starts, Option.all_some, named, Option.isSome_some]
    · rw [stripPrefix_apart _ other _ _ starts apart, Option.all_none]
  have paths : (["rename from ".toList, "rename to ".toList, "copy from ".toList,
      "copy to ".toList].all fun other =>
        (stripPrefix other header).all (fun path => (movedPath path).isSome)) = true :=
    List.all_eq_true.2 each
  have modes : (modePrefixes.all fun other =>
      (stripPrefix other header).all (fun mode => (parseMode mode).isSome)) = true := by
    refine List.all_eq_true.2 fun other member => ?_
    rcases apart other (List.mem_append_right _ member) with same | apart
    · subst same
      exact absurd renames (modePrefixes_unmoved other member)
    · rw [stripPrefix_apart _ other _ _ starts apart, Option.all_none]
  rw [readsExtended, extended_of_move header start path starts renames, paths, modes]
  rfl

theorem tryMetadata_cases (file : FileBuf) (header : Str) (lineNumber : Nat)
    (result : Option FileBuf) (ok : file.tryMetadata header lineNumber = .ok result) :
    (file.pastHeaders = false ∧ file.headerEnded = false ∧ readsExtended header = true) ∨
    (isExtended header = false ∧ (file.pastHeaders = true ∨
      (startsWith "rename old ".toList header = false ∧
        startsWith "rename new ".toList header = false))) := by
  by_cases placed : (isExtended header && (file.pastHeaders || file.headerEnded)) = true
  · simp only [FileBuf.tryMetadata, placed, if_true] at ok
    cases ok
  by_cases current : (!file.pastHeaders && (startsWith "rename old ".toList header ||
      startsWith "rename new ".toList header)) = true
  · simp only [FileBuf.tryMetadata, placed, current, if_true] at ok
    cases ok
  by_cases extended : isExtended header = true
  · left
    rw [extended, Bool.true_and, Bool.not_eq_true, Bool.or_eq_false_iff] at placed
    refine ⟨placed.1, placed.2, ?_⟩
    rw [Bool.not_eq_true] at current
    have unplaced : (isExtended header && (file.pastHeaders || file.headerEnded)) = false := by
      rw [placed.1, placed.2, Bool.or_self, Bool.and_false]
    simp only [FileBuf.tryMetadata, unplaced, current, Bool.false_eq_true, if_false] at ok
    cases renamed : stripPrefix "rename from ".toList header with
    | some path =>
      cases named : movedPath path with
      | none =>
        simp only [renamed, named] at ok
        cases ok
      | some moved =>
        exact readsExtended_renamed header _ path moved (by decide) renamed named (by decide)
    | none =>
    cases renamedTo : stripPrefix "rename to ".toList header with
    | some path =>
      cases named : movedPath path with
      | none =>
        simp only [renamed, renamedTo, named] at ok
        cases ok
      | some moved =>
        exact readsExtended_renamed header _ path moved (by decide) renamedTo named (by decide)
    | none =>
    simp only [renamed, renamedTo] at ok
    by_cases paths : (((stripPrefix "copy from ".toList header).or
        (stripPrefix "copy to ".toList header)).any fun path => (movedPath path).isNone) = true
    · rw [if_pos paths] at ok
      cases ok
    rw [if_neg paths] at ok
    by_cases modes : (modePrefixes.any fun p =>
        (stripPrefix p header).any fun mode => (parseMode mode).isNone) = true
    · rw [if_pos modes] at ok
      cases ok
    rw [Bool.not_eq_true] at paths modes
    have read : modePrefixes.all (fun start =>
        (stripPrefix start header).all (fun mode => (parseMode mode).isSome)) = true := by
      refine List.all_eq_true.2 fun start member => all_isSome_of_any ?_
      exact Bool.not_eq_true _ ▸ List.any_eq_false.1 modes start member
    rw [readsExtended, extended, read]
    simp only [List.all_cons, List.all_nil, renamed, renamedTo, Option.all_none, Bool.true_and,
      Bool.and_true]
    cases copied : stripPrefix "copy from ".toList header with
    | some path =>
      rw [stripPrefix_apart _ "copy to ".toList _ _ copied (by decide), Option.all_none,
        Bool.and_true]
      rw [copied, Option.some_or] at paths
      exact all_isSome_of_any paths
    | none =>
      rw [copied, Option.none_or] at paths
      rw [Option.all_none, Bool.true_and]
      exact all_isSome_of_any paths
  · right
    rw [Bool.not_eq_true] at extended
    refine ⟨extended, ?_⟩
    simp only [Bool.and_eq_true, Bool.not_eq_true', not_and, Bool.not_eq_true,
      Bool.or_eq_false_iff] at current
    cases past : file.pastHeaders with
    | true => exact .inl rfl
    | false => exact .inr (current past)

def HunkBuf.take (hunk : HunkBuf) (kind : PatchLineKind) (text : Str) : HunkBuf :=
  { hunk with
    lines := hunk.lines ++ [bodyLine kind (if onOld kind then some hunk.oldLine else none)
      (if onNew kind then some hunk.newLine else none) text]
    oldLine := if onOld kind then saturatingAdd hunk.oldLine 1 else hunk.oldLine
    newLine := if onNew kind then saturatingAdd hunk.newLine 1 else hunk.newLine
    remOld := if onOld kind then hunk.remOld - 1 else hunk.remOld
    remNew := if onNew kind then hunk.remNew - 1 else hunk.remNew }

theorem consumeBody_eq (hunk : HunkBuf) (line : Str) (lineNumber : Nat) :
    hunk.consumeBody line lineNumber = (bodyKind line).map fun kind =>
      if (onOld kind && hunk.remOld = 0) || (onNew kind && hunk.remNew = 0) then
        .error (.hunkLineCountMismatch lineNumber line)
      else .ok (hunk.take kind line.tail) := by
  simp only [HunkBuf.consumeBody, bodyKind]
  split <;> simp_all [onOld, onNew, HunkBuf.take, apply_ite some]

theorem takeDigits_le (text rest : Str) (value : Nat) (read : takeDigits text = some (value, rest)) :
    value ≤ u32Max := by
  simp only [takeDigits] at read
  split_ifs at read with empty bound
  simp only [Option.some.injEq, Prod.mk.injEq] at read
  exact read.1 ▸ bound

theorem takeRange_le (text rest : Str) (start count : Nat)
    (read : takeRange text = some (start, count, rest)) : start ≤ u32Max ∧ count ≤ u32Max := by
  simp only [takeRange] at read
  cases digits : takeDigits text with
  | none => simp [digits] at read
  | some found =>
    obtain ⟨value, after⟩ := found
    have bound := takeDigits_le text after value digits
    simp only [digits] at read
    split at read
    · cases ‹none = some _›
    · rename_i start' afterComma same
      cases same
      rw [Option.map_eq_some_iff] at read
      obtain ⟨counted, second, same⟩ := read
      cases same
      exact ⟨bound, takeDigits_le _ _ _ second⟩
    · rename_i same
      cases same
      cases read
      exact ⟨bound, by decide⟩

theorem parseHunkHeader_le (line : Str) (header : HunkHeader)
    (read : parseHunkHeader line = some header) :
    header.oldStart ≤ u32Max ∧ header.newStart ≤ u32Max := by
  simp only [parseHunkHeader, Option.bind_eq_bind, Option.bind_eq_some_iff] at read
  obtain ⟨_, _, ⟨oldStart, oldCount, _⟩, old, _, _, ⟨newStart, newCount, _⟩, new, _, _, made⟩ :=
    read
  have bounds := And.intro (takeRange_le _ _ _ _ old).1 (takeRange_le _ _ _ _ new).1
  split at made
  · cases made
    exact bounds
  · rw [Option.bind_eq_some_iff] at made
    obtain ⟨heading, _, same⟩ := made
    cases same
    exact bounds

theorem closeHunk_last (parser after : Parser) (lineNumber : Nat)
    (ok : parser.closeHunk lineNumber = .ok after) :
    after.unterminatedLast = parser.unterminatedLast := by
  simp only [Parser.closeHunk] at ok
  split at ok
  · cases ok
    rfl
  · split_ifs at ok
    cases ok
    rfl

theorem flushFile_last (parser after : Parser) (ok : parser.flushFile = .ok after) :
    after.unterminatedLast = parser.unterminatedLast := by
  simp only [Parser.flushFile] at ok
  split at ok
  · cases ok
    rfl
  · rw [bind_eq_ok] at ok
    obtain ⟨_, _, ⟨⟩⟩ := ok
    rfl

theorem startGitFile_last (parser after : Parser) (rest : Str) (lineNumber : Nat)
    (ok : parser.startGitFile rest lineNumber = .ok after) :
    after.unterminatedLast = parser.unterminatedLast := by
  simp only [Parser.startGitFile, bind_eq_ok] at ok
  obtain ⟨closed, closes, flushed, flushes, named⟩ := ok
  split at named
  · cases named
  · cases named
    exact (flushFile_last _ _ flushes).trans (closeHunk_last _ _ _ closes)

theorem onOldHeader_last (parser after : Parser) (rest : Str) (hadCr : Bool) (lineNumber : Nat)
    (ok : parser.onOldHeader rest hadCr lineNumber = .ok after) :
    after.unterminatedLast = parser.unterminatedLast := by
  simp only [Parser.onOldHeader, bind_eq_ok] at ok
  obtain ⟨closed, closes, ok⟩ := ok
  have first := closeHunk_last _ _ _ closes
  split_ifs at ok with fresh
  · rw [bind_eq_ok] at ok
    obtain ⟨flushed, flushes, ok⟩ := ok
    rw [bind_eq_ok] at ok
    obtain ⟨_, ⟨⟩, ok⟩ := ok
    simp only [bind_eq_ok] at ok
    obtain ⟨_, _, ⟨⟩⟩ := ok
    exact (flushFile_last _ _ flushes).trans first
  · rw [bind_eq_ok] at ok
    obtain ⟨_, ⟨⟩, ok⟩ := ok
    split at ok
    · cases ok
      exact first
    · rw [bind_eq_ok] at ok
      obtain ⟨_, _, ⟨⟩⟩ := ok
      exact first

theorem onNewHeader_last (parser after : Parser) (rest : Str) (hadCr : Bool) (lineNumber : Nat)
    (ok : parser.onNewHeader rest hadCr lineNumber = .ok after) :
    after.unterminatedLast = parser.unterminatedLast := by
  simp only [Parser.onNewHeader] at ok
  split at ok
  · cases ok
  · split_ifs at ok
    all_goals
      rw [bind_eq_ok] at ok
      obtain ⟨_, _, ⟨⟩⟩ := ok
      rfl

theorem openHunk_last (parser after : Parser) (line : Str) (lineNumber : Nat) (may : Bool)
    (ok : parser.openHunk line lineNumber may = .ok after) :
    after.unterminatedLast = parser.unterminatedLast := by
  simp only [Parser.openHunk] at ok
  split at ok
  · cases ok
  · split at ok
    · cases ok
    · cases ok
      rfl

theorem dispatchHeader_last (parser after : Parser) (line : Str) (hadCr : Bool)
    (lineNumber : Nat) (may : Bool) (used : LineUse)
    (ok : parser.dispatchHeader line hadCr lineNumber may = .ok (after, used)) :
    after.unterminatedLast = parser.unterminatedLast := by
  simp only [Parser.dispatchHeader] at ok
  split at ok
  · cases ok
  split at ok
  · rw [bind_eq_ok] at ok
    obtain ⟨_, headed, ⟨⟩⟩ := ok
    exact onOldHeader_last _ _ _ _ _ headed
  split at ok
  · rw [bind_eq_ok] at ok
    obtain ⟨next, headed, ⟨⟩⟩ := ok
    exact onNewHeader_last parser next _ _ _ headed
  split at ok
  · rw [bind_eq_ok] at ok
    obtain ⟨_, opens, ⟨⟩⟩ := ok
    exact openHunk_last parser _ _ _ _ opens
  split at ok <;>
    · rw [bind_eq_ok] at ok
      obtain ⟨read, _, ok⟩ := ok
      cases read with
      | some file =>
        cases ok
        rfl
      | none =>
        simp only at ok
        split_ifs at ok <;> cases ok <;> rfl

theorem dispatchNonBody_last (parser after : Parser) (line : Str) (lineNumber : Nat) (may : Bool)
    (used : LineUse) (ok : parser.dispatchNonBody line lineNumber may = .ok (after, used)) :
    after.unterminatedLast = parser.unterminatedLast := by
  simp only [Parser.dispatchNonBody] at ok
  split at ok
  · cases ok
  split at ok
  · rw [bind_eq_ok] at ok
    obtain ⟨_, starts, ⟨⟩⟩ := ok
    exact startGitFile_last _ _ _ _ starts
  split at ok
  · split_ifs at ok
    cases ok
    rfl
  · exact dispatchHeader_last _ _ _ _ _ _ _ ok

end DeepDiffForge.Patch
