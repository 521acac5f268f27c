import DeepDiffForge.Patch.Concat
import DeepDiffForge.Patch.HunkContract
import DeepDiffForge.Core.Seal

/-! How much a parsed patch lists: its hunks and their lines are lines of the text. -/

namespace DeepDiffForge.Patch
open Text DeepDiffForge.Core

theorem length_numberBody (old new : Nat) (body : List BodyLine) :
    (numberBody old new body).length = body.length := by
  induction body generalizing old new with
  | nil => rfl
  | cons line body ih => rw [numberBody, List.length_cons, ih, List.length_cons]

theorem length_body (body : List BodyLine) : body.length ≤ (body.flatMap BodyLine.lines).length := by
  induction body with
  | nil => exact Nat.le_refl 0
  | cons line body ih =>
    rw [List.flatMap_cons, List.length_append, List.length_cons, BodyLine.lines, List.length_cons]
    omega

theorem hunkItems_numberHunks (id : HunkId) (hunks : List HunkText) :
    hunkItems (numberHunks id hunks) ≤ (hunks.flatMap HunkText.lines).length := by
  induction hunks generalizing id with
  | nil => exact Nat.le_refl 0
  | cons hunk hunks ih =>
    have rest := ih (id + 1)
    have body := length_body hunk.body
    have lines : (hunk.patch id).lines.length = hunk.body.length := length_numberBody _ _ _
    rw [numberHunks, List.flatMap_cons, List.length_append, HunkText.lines, List.length_cons]
    simp only [hunkItems, List.foldr_cons] at rest ⊢
    omega

theorem mem_numberHunks (id : HunkId) (hunks : List HunkText) (hunk : PatchHunk)
    (listed : hunk ∈ numberHunks id hunks) : ∃ text ∈ hunks, ∃ own, hunk = text.patch own := by
  induction hunks generalizing id with
  | nil => cases listed
  | cons text hunks ih =>
    rcases List.mem_cons.1 listed with rfl | later
    · exact ⟨text, by simp, id, rfl⟩
    · obtain ⟨other, member, own, same⟩ := ih (id + 1) later
      exact ⟨other, by simp [member], own, same⟩

theorem length_hunkLines (parts : List Section) :
    ((parts.flatMap (·.hunks)).flatMap HunkText.lines).length ≤
      (parts.flatMap Section.lines).length := by
  induction parts with
  | nil => exact Nat.le_refl 0
  | cons part parts ih =>
    have own : (part.hunks.flatMap HunkText.lines).length ≤ part.lines.length := by
      simp only [Section.lines, List.length_append]
      omega
    simp only [List.flatMap_cons, List.flatMap_append, List.length_append]
    omega

theorem parsed_extent (input : Str) (byteLen : Nat) (lossy : List Nat) (options : ParseOptions)
    (files : List ReviewFile) (read : parseLines input byteLen lossy options = .ok files) :
    hunkItems (files.flatMap (·.patchTwin.hunks)) ≤ defaultLineBudget ∧
      ∀ hunk ∈ files.flatMap (·.patchTwin.hunks), hunk.lines ≠ [] := by
  obtain ⟨_, budget, doc, grown, reviewed⟩ := (parseLines_eq_ok _ _ _ _ _).1 read
  obtain ⟨shaped, lines⟩ := shaped_grown _ _ grown
  have hunks := reviewFrom_hunks 0 doc.sections files reviewed
  have count : doc.lines.length = (splitLines input).length := by
    have texts := congrArg List.length (inputLines_text (splitLines input) 0 lossy
      (if unterminated input then some (splitLines input).length else none))
    rw [List.length_map] at texts
    rw [lines, ← texts]
    rfl
  constructor
  · have items := hunkItems_numberHunks 0 (doc.sections.flatMap (·.hunks))
    have within := length_hunkLines doc.sections
    rw [Document.lines, List.length_append] at count
    rw [hunks]
    omega
  · rw [hunks]
    intro hunk listed
    obtain ⟨text, member, id, rfl⟩ := mem_numberHunks 0 _ hunk listed
    obtain ⟨part, held, member⟩ := List.mem_flatMap.1 member
    obtain ⟨full, changes⟩ := (shaped.parts part held).closed text member
    have contract := contract_patch text id full changes
    obtain ⟨line, held, -⟩ := contract.changes
    exact List.ne_nil_of_mem held

end DeepDiffForge.Patch
