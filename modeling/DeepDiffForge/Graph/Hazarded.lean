import DeepDiffForge.Graph.Evidence
import DeepDiffForge.Patch.HunkContract
import DeepDiffForge.Patch.Quoted

/-! The hazards that the rank raises and those that the review document reports: one reads a move
header as written, the other the name it stands for. -/

namespace DeepDiffForge.Graph
open Text Patch DeepDiffForge.Core

section File
variable (file : ReviewFile)

def ChangedHazard : Prop :=
  ∃ hunk ∈ file.patchTwin.hunks, ∃ line ∈ hunk.lines, line.kind ≠ .context ∧
    textHazards line.text ≠ []

def WrittenHazard : Prop :=
  ∃ line ∈ file.patchTwin.metadata, ∃ source, moveSource line = some source ∧
    pathHazards source ≠ []

def OldHazard : Prop := ∃ old, oldPath file = some old ∧ pathHazards old ≠ []

theorem fileHazards_ne_nil :
    fileHazards file ≠ [] ↔ pathHazards file.path ≠ [] ∨ OldHazard file := by
  have listed := (fileHazards_exact file).2
  constructor
  · intro found
    obtain ⟨hazard, member⟩ := List.exists_mem_of_ne_nil _ found
    rcases (listed hazard).1 member with own | ⟨old, named, held⟩
    · exact .inl (List.ne_nil_of_mem own)
    · exact .inr ⟨old, named, List.ne_nil_of_mem held⟩
  · rintro (own | ⟨old, named, held⟩)
    · obtain ⟨hazard, member⟩ := List.exists_mem_of_ne_nil _ own
      exact List.ne_nil_of_mem ((listed hazard).2 (.inl member))
    · obtain ⟨hazard, member⟩ := List.exists_mem_of_ne_nil _ held
      exact List.ne_nil_of_mem ((listed hazard).2 (.inr ⟨old, named, member⟩))

theorem mem_add (scored : Scored) (other signal : RiskSignal) (weight : Nat) :
    signal ∈ (scored.add other weight).2 ↔ signal ∈ scored.2 ∨ signal = other := by
  rw [Scored.add, List.mem_append, List.mem_singleton]

theorem mem_when (scored : Scored) (other : RiskSignal) (weight : Nat) (p : Prop) [Decidable p]
    (apart : .hazardousText ≠ other) :
    RiskSignal.hazardousText ∈ (if p then scored.add other weight else scored).2 ↔
      .hazardousText ∈ scored.2 := by
  split_ifs
  · rw [mem_add]
    exact or_iff_left apart
  · rfl

theorem mem_status (scored : Scored) :
    RiskSignal.hazardousText ∈ (statusWeight file scored).2 ↔ .hazardousText ∈ scored.2 := by
  rw [statusWeight]
  split <;> simp [mem_add]

theorem mem_mode (scored : Scored) :
    RiskSignal.hazardousText ∈ (modeWeight file scored).2 ↔ .hazardousText ∈ scored.2 := by
  rw [modeWeight]
  exact (mem_when _ _ _ _ (by decide)).trans (mem_when _ _ _ _ (by decide))

theorem mem_hazard (scored : Scored) :
    RiskSignal.hazardousText ∈ (hazardWeight file scored).2 ↔ .hazardousText ∈ scored.2 ∨
      ChangedHazard file ∨ WrittenHazard file ∨ pathHazards file.path ≠ [] := by
  have changed : ((file.patchTwin.hunks.flatMap (·.lines)).any fun line =>
      line.kind ≠ .context && textHazards line.text ≠ []) = true ↔ ChangedHazard file := by
    simp only [List.any_eq_true, List.mem_flatMap, ChangedHazard, Bool.and_eq_true,
      decide_eq_true_eq]
    constructor
    · rintro ⟨line, ⟨hunk, listed, held⟩, hazard⟩
      exact ⟨hunk, listed, line, held, hazard⟩
    · rintro ⟨hunk, listed, line, held, hazard⟩
      exact ⟨line, ⟨hunk, listed, held⟩, hazard⟩
  have written : ((file.patchTwin.metadata.filterMap fun m =>
      (stripPrefix "rename from ".toList m).or (stripPrefix "copy from ".toList m)).any
        fun source => pathHazards source ≠ []) = true ↔ WrittenHazard file := by
    simp only [List.any_eq_true, List.mem_filterMap, WrittenHazard, decide_eq_true_eq]
    constructor
    · rintro ⟨source, ⟨line, listed, read⟩, hazard⟩
      exact ⟨line, listed, source, read, hazard⟩
    · rintro ⟨line, listed, source, read, hazard⟩
      exact ⟨source, ⟨line, listed, read⟩, hazard⟩
  rw [hazardWeight]
  split_ifs with raised
  · rw [Bool.or_eq_true, Bool.or_eq_true, changed, written, decide_eq_true_eq, or_assoc] at raised
    rw [mem_add]
    exact iff_of_true (.inr rfl) (.inr raised)
  · rw [Bool.or_eq_true, Bool.or_eq_true, changed, written, decide_eq_true_eq, or_assoc] at raised
    exact (or_iff_left raised).symm

theorem raised_iff :
    RiskSignal.hazardousText ∈ (assessFile lexical file).signals ↔
      ChangedHazard file ∨ WrittenHazard file ∨ pathHazards file.path ≠ [] := by
  have coded (signals : List EvidenceSignal) (scored : Scored) :
      RiskSignal.hazardousText ∈
          (signals.foldl (codeWeight (isTest file.path) (fileEvidence file)) scored).2 ↔
        .hazardousText ∈ scored.2 := by
    induction signals generalizing scored with
    | nil => rfl
    | cons signal signals ih =>
      rw [List.foldl_cons, ih, codeWeight]
      split_ifs <;> simp [mem_add]
  have common (scored : Scored) (clean : RiskSignal.hazardousText ∉ scored.2) :
      RiskSignal.hazardousText ∈
          (modeWeight file (hazardWeight file (statusWeight file scored))).2 ↔
        ChangedHazard file ∨ WrittenHazard file ∨ pathHazards file.path ≠ [] := by
    rw [mem_mode, mem_hazard, mem_status]
    exact or_iff_right clean
  refine (coded EvidenceSignal.all (scorePathAndShape file)).trans ?_
  rw [scorePathAndShape]
  by_cases generated : isGeneratedOrVendored file.path = true
  · rw [if_pos generated]
    exact common _ (by decide)
  · rw [if_neg generated]
    refine (mem_when _ _ _ _ (by decide)).trans ((mem_when _ _ _ _ (by decide)).trans (common _ ?_))
    split_ifs <;> simp [mem_add]

/-- A hazard is raised when a name or a changed line has one, and then the document reports one. -/
structure Agree : Prop where
  names : RiskSignal.hazardousText ∈ (assessFile lexical file).signals ↔
    pathHazards file.path ≠ [] ∨ OldHazard file ∨ ChangedHazard file
  document : RiskSignal.hazardousText ∈ (assessFile lexical file).signals ↔
    fileHazards file ≠ [] ∨ ChangedHazard file

/-- A hazard of the old name shows as a move header writes the name, or is not the only one. -/
def Spelled : Prop :=
  OldHazard file → WrittenHazard file ∨ ChangedHazard file ∨ pathHazards file.path ≠ []

end File

section Parsed

/-- The sources that pass the parser's check are read as one path up to repeated slashes. -/
theorem sources_alike (file : FileBuf) (lines : List Str) (declared : Option Str)
    (ok : file.checkMoveSources lines declared = true) :
    ∃ common, (∀ path ∈ declared, path = common) ∧ ∀ line ∈ lines, ∀ source,
      moveSource line = some source → ∃ path, decodePath source = some path ∧
        squashSlashes path = common := by
  induction lines generalizing declared with
  | nil => exact ⟨declared.getD [], by rintro path ⟨⟩; rfl, nofun⟩
  | cons line lines ih =>
    rw [FileBuf.checkMoveSources] at ok
    cases read : moveSource line with
    | none =>
      rw [read] at ok
      obtain ⟨common, declares, others⟩ := ih declared ok
      refine ⟨common, declares, List.forall_mem_cons.2 ⟨?_, others⟩⟩
      intro source found
      rw [read] at found
      cases found
    | some source =>
      rw [read] at ok
      dsimp only at ok
      cases known : (decodePath source).map squashSlashes with
      | none =>
        rw [known] at ok
        cases ok
      | some squashed =>
        rw [known] at ok
        simp only [Bool.and_eq_true] at ok
        obtain ⟨⟨same, -⟩, later⟩ := ok
        obtain ⟨common, declares, others⟩ := ih (some squashed) later
        obtain rfl := declares squashed rfl
        refine ⟨squashed, ?_, List.forall_mem_cons.2 ⟨?_, others⟩⟩
        · rintro path ⟨⟩
          simpa using same
        · intro other found
          rw [read] at found
          obtain rfl := Option.some.inj found
          exact Option.map_eq_some_iff.1 known

variable (text : Str) (files : List ReviewFile) (accepted : parse text = .ok files)
  (file : ReviewFile) (listed : file ∈ files)
include accepted listed

theorem parsed_sources :
    ∃ common, ∀ line ∈ file.patchTwin.metadata, ∀ source, moveSource line = some source →
      ∃ path, decodePath source = some path ∧ squashSlashes path = common := by
  obtain ⟨_, doc, -, reviewed⟩ := (parse_eq_ok text files).1 accepted
  obtain ⟨part, -, base, review, ok, rfl⟩ := reviewFrom_origin 0 doc.sections files reviewed file listed
  obtain ⟨-, finished⟩ := review_cases part review ok
  obtain ⟨-, -, -, -, named, -, -, sources, -, -, -, rfl⟩ := finished_cases _ _ finished
  obtain ⟨common, -, alike⟩ := sources_alike named named.metadata none sources
  exact ⟨common, alike⟩

theorem written_old (written : WrittenHazard file) : OldHazard file := by
  obtain ⟨common, alike⟩ := parsed_sources text files accepted file listed
  obtain ⟨line, held, source, read, hazard⟩ := written
  obtain ⟨path, decodes, squashed⟩ := alike line held source read
  have clear := (hazards_squash path).2 (hazards_decoded source path decodes hazard)
  rw [squashed] at clear
  cases old : oldPath file with
  | none =>
    have absent := List.findSome?_eq_none_iff.1 old line held
    rw [read] at absent
    cases absent
  | some name =>
    refine ⟨name, old, ?_⟩
    obtain ⟨other, among, found⟩ := List.exists_of_findSome?_eq_some old
    obtain ⟨source', read', same⟩ := Option.map_eq_some_iff.1 found
    obtain ⟨path', decodes', squashed'⟩ := alike other among source' read'
    rw [decodes', Option.getD_some] at same
    rw [← same, ← hazards_squash, squashed']
    exact clear

/-- Rank and document agree exactly when the old name's hazard shows as it is written, or is not the
only one. -/
theorem hazards_agree : Agree file ↔ Spelled file := by
  have written := written_old text files accepted file listed
  constructor
  · rintro ⟨names, -⟩ old
    have raised := (raised_iff file).1 (names.2 (.inr (.inl old)))
    exact raised.elim (fun changed => .inr (.inl changed))
      (fun rest => rest.elim .inl fun own => .inr (.inr own))
  · intro spelled
    have names : RiskSignal.hazardousText ∈ (assessFile lexical file).signals ↔
        pathHazards file.path ≠ [] ∨ OldHazard file ∨ ChangedHazard file := by
      rw [raised_iff]
      constructor
      · rintro (changed | header | own)
        · exact .inr (.inr changed)
        · exact .inr (.inl (written header))
        · exact .inl own
      · rintro (own | old | changed)
        · exact .inr (.inr own)
        · rcases spelled old with header | changed | own
          · exact .inr (.inl header)
          · exact .inl changed
          · exact .inr (.inr own)
        · exact .inl changed
    refine ⟨names, names.trans ?_⟩
    rw [fileHazards_ne_nil, or_assoc]

end Parsed

def renamedFrom (header : Str) : ReviewFile where
  path := "y".toList
  status := .renamed
  patchTwin :=
    { binaryBody := []
      hunks := []
      metadata := ["rename from ".toList ++ header, "rename to y".toList]
      lossyLines := 0 }
  semanticTwin := none
  planner := { strategy := .line, fallback := none, notes := [] }

def renameText (old header : Str) : Str :=
  unlines ["diff --git ".toList ++ old ++ " b/y".toList, "rename from ".toList ++ header,
    "rename to y".toList]

/-- A header that shows the override of the old name as it is. -/
theorem hazards_agree_bare :
    parse (renameText "a/\u202Ex".toList "\u202Ex".toList) = .ok [renamedFrom "\u202Ex".toList] ∧
      WrittenHazard (renamedFrom "\u202Ex".toList) ∧ Agree (renamedFrom "\u202Ex".toList) := by
  have accepted : parse (renameText "a/\u202Ex".toList "\u202Ex".toList) =
      .ok [renamedFrom "\u202Ex".toList] := by
    decide +kernel
  have written : WrittenHazard (renamedFrom "\u202Ex".toList) :=
    ⟨"rename from \u202Ex".toList, List.mem_cons_self, "\u202Ex".toList, by decide +kernel,
      by decide +kernel⟩
  exact ⟨accepted, written,
    (hazards_agree _ _ accepted _ List.mem_cons_self).2 fun _ => .inl written⟩

theorem hazards_veiled :
    parse (renameText "\"a/\\342\\200\\256x\"".toList "\"\\342\\200\\256x\"".toList) =
        .ok [renamedFrom "\"\\342\\200\\256x\"".toList] ∧
      ¬ Agree (renamedFrom "\"\\342\\200\\256x\"".toList) := by
  refine ⟨by decide +kernel, fun agree => ?_⟩
  have raised := agree.names.2 (.inr (.inl ⟨['\u202E', 'x'], by decide +kernel, by decide +kernel⟩))
  exact absurd raised (by decide +kernel)

end DeepDiffForge.Graph
