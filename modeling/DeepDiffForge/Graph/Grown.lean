import DeepDiffForge.Graph.Evidence

/-! Adding a hunk never makes a file look safer: its score, its signals and its evidence only
grow. -/

namespace DeepDiffForge.Graph
open Text DeepDiffForge.Core

def withHunk (file : ReviewFile) (hunk : PatchHunk) : ReviewFile :=
  { file with patchTwin := { file.patchTwin with hunks := file.patchTwin.hunks ++ [hunk] } }

structure Scored.Below (one two : Scored) : Prop where
  score : one.1 ≤ two.1
  signals : one.2 ⊆ two.2

theorem Scored.Below.refl (scored : Scored) : scored.Below scored :=
  ⟨le_rfl, List.Subset.refl _⟩

theorem below_add (one two : Scored) (below : one.Below two) (signal : RiskSignal) (weight : Nat) :
    (one.add signal weight).Below (two.add signal weight) where
  score := Nat.add_le_add_right below.score weight
  signals := by
    intro other listed
    rcases List.mem_append.1 listed with earlier | last
    · exact List.mem_append_left _ (below.signals earlier)
    · exact List.mem_append_right _ last

theorem below_more (one two : Scored) (below : one.Below two) (signal : RiskSignal) (weight : Nat) :
    one.Below (two.add signal weight) where
  score := below.score.trans (Nat.le_add_right ..)
  signals := fun _ listed => List.mem_append_left _ (below.signals listed)

/-- A signal added on a condition that the other file meets too. -/
theorem below_when (one two : Scored) (below : one.Below two) (signal : RiskSignal) (weight : Nat)
    (first second : Prop) [Decidable first] [Decidable second] (more : first → second) :
    (if first then one.add signal weight else one).Below
      (if second then two.add signal weight else two) := by
  by_cases held : first
  · rw [if_pos held, if_pos (more held)]
    exact below_add one two below signal weight
  · rw [if_neg held]
    split_ifs
    · exact below_more one two below signal weight
    · exact below

section Hunk
variable (file : ReviewFile) (hunk : PatchHunk)

theorem below_status (one two : Scored) (below : one.Below two) :
    (statusWeight file one).Below (statusWeight (withHunk file hunk) two) := by
  rw [statusWeight, statusWeight]
  have same : (withHunk file hunk).status = file.status := rfl
  rw [same]
  cases file.status with
  | added => exact below_add one two below _ _
  | deleted => exact below_add one two below _ _
  | binaryChanged => exact below_add one two below _ _
  | _ => exact below

theorem lines_more (p : PatchLine → Bool)
    (found : (file.patchTwin.hunks.flatMap (·.lines)).any p = true) :
    ((withHunk file hunk).patchTwin.hunks.flatMap (·.lines)).any p = true := by
  rw [withHunk, List.flatMap_append, List.any_append, found, Bool.true_or]

theorem below_hazard (one two : Scored) (below : one.Below two) :
    (hazardWeight file one).Below (hazardWeight (withHunk file hunk) two) := by
  refine below_when one two below _ _ _ _ ?_
  simp only [Bool.or_eq_true]
  rintro ((inLines | moved) | named)
  · exact .inl (.inl (lines_more file hunk _ inLines))
  · exact .inl (.inr moved)
  · exact .inr named

theorem below_mode (one two : Scored) (below : one.Below two) :
    (modeWeight file one).Below (modeWeight (withHunk file hunk) two) :=
  below_when _ _ (below_when one two below _ _ _ _ id) _ _ _ _ id

theorem counts_more :
    (changeCounts file).1 + (changeCounts file).2 ≤
      (changeCounts (withHunk file hunk)).1 + (changeCounts (withHunk file hunk)).2 := by
  rw [changeCounts, changeCounts, withHunk, List.flatMap_append, List.countP_append,
    List.countP_append]
  omega

theorem below_shape : (scorePathAndShape file).Below (scorePathAndShape (withHunk file hunk)) := by
  have common (one two : Scored) (below : one.Below two) :
      (modeWeight file (hazardWeight file (statusWeight file one))).Below
        (modeWeight (withHunk file hunk) (hazardWeight (withHunk file hunk)
          (statusWeight (withHunk file hunk) two))) :=
    below_mode file hunk _ _ (below_hazard file hunk _ _ (below_status file hunk _ _ below))
  have path : (withHunk file hunk).path = file.path := rfl
  rw [scorePathAndShape, scorePathAndShape, path]
  by_cases generated : isGeneratedOrVendored file.path = true
  · rw [if_pos generated, if_pos generated]
    exact common _ _ (.refl _)
  · rw [if_neg generated, if_neg generated]
    have counts := counts_more file hunk
    have hunks : file.patchTwin.hunks.length ≤ (withHunk file hunk).patchTwin.hunks.length := by
      rw [withHunk, List.length_append]
      omega
    refine below_when _ _ (below_when _ _ (common _ _ (.refl _)) _ _ _ _ ?_) _ _ _ _ ?_
    · exact fun large => large.trans counts
    · exact fun many => many.trans hunks

theorem kind_same (nonempty : file.patchTwin.hunks ≠ []) :
    FileKind.of (withHunk file hunk) = FileKind.of file := by
  have head : (withHunk file hunk).patchTwin.hunks.head? = file.patchTwin.hunks.head? := by
    rw [withHunk, List.head?_append_of_ne_nil _ nonempty]
  have line : FileKind.firstLine (withHunk file hunk) = FileKind.firstLine file := by
    rw [FileKind.firstLine, FileKind.firstLine, head]
  rw [FileKind.of, FileKind.of, line]
  rfl

theorem evidence_more : fileEvidence file <+: fileEvidence (withHunk file hunk) := by
  by_cases empty : file.patchTwin.hunks = []
  · have bare : fileEvidence file = [] := by
      rw [fileEvidence, empty, List.flatMap_nil, ite_self]
    rw [bare]
    exact List.nil_prefix
  · rw [fileEvidence, fileEvidence, kind_same file hunk empty]
    by_cases rules : rulesFor (FileKind.of file) = []
    · rw [if_pos rules, if_pos rules]
    · rw [if_neg rules, if_neg rules]
      exact ⟨_, List.flatMap_append.symm⟩

theorem below_code (one two : Scored) (below : one.Below two) (signal : EvidenceSignal) :
    (codeWeight (isTest file.path) (fileEvidence file) one signal).Below
      (codeWeight (isTest file.path) (fileEvidence (withHunk file hunk)) two signal) := by
  refine below_when one two below _ _ _ _ ?_
  intro found
  obtain ⟨item, listed, same⟩ := List.any_eq_true.1 found
  exact List.any_eq_true.2 ⟨item, (evidence_more file hunk).subset listed, same⟩

/-- Adding a hunk lowers no score, drops no signal and only adds to the evidence. -/
theorem assess_more :
    (assessFile lexical file).score ≤ (assessFile lexical (withHunk file hunk)).score ∧
      (assessFile lexical file).signals ⊆ (assessFile lexical (withHunk file hunk)).signals ∧
      fileEvidence file <+: fileEvidence (withHunk file hunk) := by
  have folded (signals : List EvidenceSignal) (one two : Scored) (below : one.Below two) :
      (signals.foldl (codeWeight (isTest file.path) (fileEvidence file)) one).Below
        (signals.foldl (codeWeight (isTest file.path) (fileEvidence (withHunk file hunk))) two) := by
    induction signals generalizing one two with
    | nil => exact below
    | cons signal signals ih => exact ih _ _ (below_code file hunk one two below signal)
  have whole := folded EvidenceSignal.all _ _ (below_shape file hunk)
  exact ⟨whole.score, whole.signals, evidence_more file hunk⟩

end Hunk

end DeepDiffForge.Graph
