import DeepDiffForge.Core.Hazards
import DeepDiffForge.Patch.Parser
import DeepDiffForge.Lib.Decimal
import Mathlib.Data.List.Nodup

/-! Rendering the review model back to a Git patch, and the hazards of the paths a file has. -/

namespace DeepDiffForge.Patch
open Text DeepDiffForge.Core

/-- The path a renamed or copied file came from, by its `rename from`/`copy from` header. -/
def oldPath (file : ReviewFile) : Option Str :=
  file.patchTwin.metadata.findSome? fun line =>
    (moveSource line).map fun source => (decodePath source).getD source

def oldLabel (file : ReviewFile) : Str := (oldPath file).getD file.path

def marker (kind : PatchLineKind) : Char :=
  match kind with
  | .context => ' '
  | .added => '+'
  | .removed => '-'

def renderLine (line : PatchLine) : List Str :=
  (marker line.kind :: line.text) :: (if line.noNewline then [eofMarker] else [])

def renderHunk (hunk : PatchHunk) : List Str :=
  let oldCount := hunk.lines.countP (fun line => line.kind = .context || line.kind = .removed)
  let newCount := hunk.lines.countP (fun line => line.kind = .context || line.kind = .added)
  ("@@ -".toList ++ decimal (hunk.oldStart.getD 0) ++ [','] ++ decimal oldCount ++ " +".toList ++
    decimal (hunk.newStart.getD 0) ++ [','] ++ decimal newCount ++ " @@".toList) ::
  hunk.lines.flatMap renderLine

def ReviewFile.has (file : ReviewFile) (start : Str) : Bool :=
  file.patchTwin.metadata.any (startsWith start)

def renderFile (file : ReviewFile) : List Str :=
  let oldSide := "a/".toList ++ oldLabel file
  let newSide := "b/".toList ++ file.path
  let twin := file.patchTwin
  ["diff --git ".toList ++ quote oldSide ++ [' '] ++ quote newSide] ++
  (if twin.hunks ≠ [] ∧ file.status = .added ∧ !ReviewFile.has file "new file mode ".toList then
    ["new file mode 100644".toList] else []) ++
  (if twin.hunks ≠ [] ∧ file.status = .deleted ∧ !ReviewFile.has file "deleted file mode ".toList
    then ["deleted file mode 100644".toList] else []) ++
  twin.metadata.filter (fun line => !startsWith ['\\'] line) ++
  twin.binaryBody ++
  (if twin.hunks = [] then []
  else
    [if file.status = .added then "--- /dev/null".toList else "--- ".toList ++ quote oldSide,
      if file.status = .deleted then "+++ /dev/null".toList else "+++ ".toList ++ quote newSide] ++
    twin.hunks.flatMap renderHunk)

def renderUnified (files : List ReviewFile) : Str := unlines (files.flatMap renderFile)

def noteHazard (hazards : List Str) (hazard : Str) : List Str :=
  if hazards.any (· = hazard) then hazards else hazards ++ [hazard]

def fileHazards (file : ReviewFile) : List Str :=
  ((oldPath file).elim [] pathHazards).foldl noteHazard (pathHazards file.path)

theorem noted_hazards (more found : List Str) (once : found.Nodup) :
    (more.foldl noteHazard found).Nodup ∧
      ∀ hazard, hazard ∈ more.foldl noteHazard found ↔ hazard ∈ found ∨ hazard ∈ more := by
  induction more generalizing found with
  | nil => exact ⟨once, fun hazard => by simp⟩
  | cons first more ih =>
    rw [List.foldl_cons, noteHazard]
    split_ifs with seen
    · have held : first ∈ found := by simpa using seen
      refine ⟨(ih found once).1, fun hazard => ?_⟩
      rw [(ih found once).2 hazard, List.mem_cons]
      constructor
      · rintro (old | later)
        · exact .inl old
        · exact .inr (.inr later)
      · rintro (old | rfl | later)
        · exact .inl old
        · exact .inl held
        · exact .inr later
    · have fresh : first ∉ found := by simpa using seen
      have longer : (found ++ [first]).Nodup := List.nodup_append.2
        ⟨once, List.nodup_singleton _, fun one listed two single => by
          rw [List.mem_singleton.1 single]
          rintro rfl
          exact fresh listed⟩
      refine ⟨(ih _ longer).1, fun hazard => ?_⟩
      rw [(ih _ longer).2 hazard, List.mem_append, List.mem_singleton, List.mem_cons, or_assoc]

theorem fileHazards_exact (file : ReviewFile) :
    (fileHazards file).Nodup ∧ ∀ hazard, hazard ∈ fileHazards file ↔
      hazard ∈ pathHazards file.path ∨
        ∃ old, oldPath file = some old ∧ hazard ∈ pathHazards old := by
  have noted := noted_hazards ((oldPath file).elim [] pathHazards) _ (pathHazards_once file.path)
  refine ⟨noted.1, fun hazard => ?_⟩
  unfold fileHazards
  rw [noted.2 hazard]
  apply or_congr_right
  cases oldPath file with
  | none => simp
  | some old => simp

end DeepDiffForge.Patch
