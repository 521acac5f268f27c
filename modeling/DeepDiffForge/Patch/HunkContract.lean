import DeepDiffForge.Patch.Changes

/-! What every hunk of an accepted text keeps to: the counts and positions its header declares,
and the end-of-file markers of its file. -/

namespace DeepDiffForge.Patch
open Text DeepDiffForge.Core

def declaredHunks (scanned : List (Str × Bool)) : List HunkHeader :=
  scanned.filterMap fun line => if line.2 then none else parseHunkHeader (trimmed line.1)

example : declaredHunks (hunkScan 0 0 ["--- a/x".toList, "@@ -1 +0,0 @@".toList, "-a".toList]) =
    [⟨1, 1, 0, 0, none⟩] := by
  decide +kernel

structure HunkContract (header : HunkHeader) (hunk : PatchHunk) : Prop where
  counts : hunk.counts = (header.oldCount, header.newCount)
  starts : hunk.oldStart = some header.oldStart ∧ hunk.newStart = some header.newStart
  changes : ∃ line ∈ hunk.lines, line.kind = .added ∨ line.kind = .removed
  oldLines : (hunk.lines.filter (·.onOldSide)).map (·.oldLine) =
    (List.range header.oldCount).map fun k => some (min (header.oldStart + k) u32Max)
  newLines : (hunk.lines.filter (·.onNewSide)).map (·.newLine) =
    (List.range header.newCount).map fun k => some (min (header.newStart + k) u32Max)
  sides : ∀ line ∈ hunk.lines, (line.onOldSide = false → line.oldLine = none) ∧
    (line.onNewSide = false → line.newLine = none)

def PatchLine.endsBefore (earlier later : PatchLine) : Prop :=
  earlier.noNewline → ¬(earlier.onOldSide ∧ later.onOldSide) ∧
    ¬(earlier.onNewSide ∧ later.onNewSide)

theorem counts_eq (hunk : PatchHunk) :
    hunk.counts = (hunk.lines.countP (·.onOldSide), hunk.lines.countP (·.onNewSide)) := by
  have run (lines : List PatchLine) (old new : Nat) :
      lines.foldl PatchLine.count (old, new) =
      (old + lines.countP (·.onOldSide), new + lines.countP (·.onNewSide)) := by
    induction lines generalizing old new with
    | nil => rfl
    | cons line lines ih =>
      rw [List.foldl_cons, List.countP_cons, List.countP_cons]
      cases kind : line.kind <;>
        simp [PatchLine.count, ih, PatchLine.onOldSide, PatchLine.onNewSide, kind] <;> omega
  have total := run hunk.lines 0 0
  rw [Nat.zero_add, Nat.zero_add] at total
  exact total

theorem countP_numberBody (old new : Nat) (body : List BodyLine) :
    (numberBody old new body).countP (·.onOldSide) = oldUsed body ∧
      (numberBody old new body).countP (·.onNewSide) = newUsed body := by
  induction body generalizing old new with
  | nil => exact ⟨rfl, rfl⟩
  | cons line body ih =>
    obtain ⟨oldRest, newRest⟩ := ih (if onOld line.kind then old + 1 else old)
      (if onNew line.kind then new + 1 else new)
    constructor
    · rw [numberBody, List.countP_cons, oldRest, oldUsed, oldUsed, List.countP_cons]
      rfl
    · rw [numberBody, List.countP_cons, newRest, newUsed, newUsed, List.countP_cons]
      rfl

theorem range_shift (start count : Nat) :
    (List.range (count + 1)).map (fun k => some (min (start + k) u32Max)) =
      some (min start u32Max) ::
        (List.range count).map fun k => some (min (start + 1 + k) u32Max) := by
  simp [List.range_succ_eq_map, Nat.add_comm, Nat.add_left_comm]

theorem oldLines_numberBody (old new : Nat) (body : List BodyLine) :
    ((numberBody old new body).filter (·.onOldSide)).map (·.oldLine) =
      (List.range (oldUsed body)).map fun k => some (min (old + k) u32Max) := by
  induction body generalizing old new with
  | nil => rfl
  | cons line body ih =>
    have side : (line.patchLine old new).onOldSide = onOld line.kind := rfl
    have number : (line.patchLine old new).oldLine =
      if onOld line.kind then some (min old u32Max) else none := rfl
    have used : oldUsed (line :: body) = oldUsed body + if onOld line.kind then 1 else 0 := by
      simp [oldUsed, List.countP_cons]
    rw [numberBody, List.filter_cons, side, used]
    by_cases on : onOld line.kind = true
    · rw [if_pos on, if_pos on, if_pos on, List.map_cons, number, if_pos on, ih, range_shift]
    · rw [if_neg on, if_neg on, if_neg on, ih]
      rfl

theorem newLines_numberBody (old new : Nat) (body : List BodyLine) :
    ((numberBody old new body).filter (·.onNewSide)).map (·.newLine) =
      (List.range (newUsed body)).map fun k => some (min (new + k) u32Max) := by
  induction body generalizing old new with
  | nil => rfl
  | cons line body ih =>
    have side : (line.patchLine old new).onNewSide = onNew line.kind := rfl
    have number : (line.patchLine old new).newLine =
      if onNew line.kind then some (min new u32Max) else none := rfl
    have used : newUsed (line :: body) = newUsed body + if onNew line.kind then 1 else 0 := by
      simp [newUsed, List.countP_cons]
    rw [numberBody, List.filter_cons, side, used]
    by_cases on : onNew line.kind = true
    · rw [if_pos on, if_pos on, if_pos on, List.map_cons, number, if_pos on, ih, range_shift]
    · rw [if_neg on, if_neg on, if_neg on, ih]
      rfl

theorem mem_numberBody (old new : Nat) (body : List BodyLine) (line : PatchLine)
    (member : line ∈ numberBody old new body) :
    ∃ read ∈ body, ∃ oldAt newAt, line = read.patchLine oldAt newAt := by
  induction body generalizing old new with
  | nil => cases member
  | cons head body ih =>
    rcases List.mem_cons.1 member with rfl | later
    · exact ⟨head, by simp, old, new, rfl⟩
    · obtain ⟨read, present, placed⟩ := ih _ _ later
      exact ⟨read, by simp [present], placed⟩

theorem kinds_numberBody (old new : Nat) (body : List BodyLine) :
    (numberBody old new body).map (fun line => (line.kind, line.noNewline)) =
      body.map (fun line => (line.kind, line.marker.isSome)) := by
  induction body generalizing old new with
  | nil => rfl
  | cons line body ih =>
    rw [numberBody, List.map_cons, ih]
    rfl

theorem contract_patch (hunk : HunkText) (id : HunkId) (full : hunk.full = true)
    (changes : hunk.changes = true) : HunkContract hunk.header (hunk.patch id) := by
  obtain ⟨old, new⟩ := (full_iff hunk).1 full
  obtain ⟨oldCount, newCount⟩ :=
    countP_numberBody hunk.header.oldStart hunk.header.newStart hunk.body
  constructor
  · rw [counts_eq, ← old, ← new, ← oldCount, ← newCount]
    rfl
  · exact ⟨rfl, rfl⟩
  · obtain ⟨line, member, changed⟩ := List.any_eq_true.1 changes
    have kinds := kinds_numberBody hunk.header.oldStart hunk.header.newStart hunk.body
    have listed : (line.kind, line.marker.isSome) ∈
        hunk.patchLines.map (fun line => (line.kind, line.noNewline)) := by
      rw [HunkText.patchLines, kinds]
      exact List.mem_map_of_mem member
    obtain ⟨patched, present, same⟩ := List.mem_map.1 listed
    refine ⟨patched, present, ?_⟩
    rw [(Prod.mk.inj same).1]
    cases kind : line.kind with
    | context => simp [kind] at changed
    | added => exact .inl rfl
    | removed => exact .inr rfl
  · rw [← old]
    exact oldLines_numberBody _ _ _
  · rw [← new]
    exact newLines_numberBody _ _ _
  · intro line member
    obtain ⟨read, _, oldAt, newAt, rfl⟩ := mem_numberBody _ _ _ _ member
    exact ⟨fun off => if_neg (by rw [show onOld read.kind = false from off]; simp),
      fun off => if_neg (by rw [show onNew read.kind = false from off]; simp)⟩

theorem declaredHunks_unparsed (line : Str) (rest : List Str)
    (unparsed : parseHunkHeader (trimmed line) = none) :
    declaredHunks (hunkScan 0 0 (line :: rest)) = declaredHunks (hunkScan 0 0 rest) := by
  simp [hunkScan, unparsed, declaredHunks]

theorem declaredHunks_plain (lines rest : List Str)
    (plain : ∀ line ∈ lines, parseHunkHeader (trimmed line) = none) :
    declaredHunks (hunkScan 0 0 (lines ++ rest)) = declaredHunks (hunkScan 0 0 rest) := by
  induction lines with
  | nil => rfl
  | cons line lines ih =>
    rw [List.cons_append, declaredHunks_unparsed _ _ (plain line (by simp)),
      ih (fun other member => plain other (by simp [member]))]

theorem declaredHunks_marker (old new : Nat) (rest : List Str) :
    declaredHunks (hunkScan old new (eofMarker :: rest)) =
      declaredHunks (hunkScan old new rest) := by
  have unparsed : parseHunkHeader (trimmed eofMarker) = none := by decide
  rw [hunkScan_marker, declaredHunks, List.filterMap_cons]
  simp only [unparsed, ite_self]
  rfl

theorem declaredHunks_body (body : List BodyLine) (old new : Nat) (rest : List Str)
    (markers : ∀ marker ∈ body.flatMap (·.marker.toList), marker.text = eofMarker) :
    declaredHunks (hunkScan (old + oldUsed body) (new + newUsed body)
        ((body.flatMap BodyLine.lines).map (·.text) ++ rest)) =
      declaredHunks (hunkScan old new rest) := by
  induction body with
  | nil => rfl
  | cons line body ih =>
    simp only [List.flatMap_cons, List.mem_append, or_imp, forall_and] at markers
    have marked : declaredHunks (hunkScan (old + oldUsed body) (new + newUsed body)
        (line.marker.toList.map (·.text) ++
          ((body.flatMap BodyLine.lines).map (·.text) ++ rest))) =
        declaredHunks (hunkScan old new rest) := by
      cases present : line.marker with
      | none => exact ih markers.2
      | some marker =>
        have text := markers.1 marker (by simp [present])
        simp only [Option.toList_some, List.map_cons, List.map_nil, List.singleton_append, text,
          declaredHunks_marker]
        exact ih markers.2
    have text : ((line :: body).flatMap BodyLine.lines).map (·.text) ++ rest =
        line.text :: (line.marker.toList.map (·.text) ++
          ((body.flatMap BodyLine.lines).map (·.text) ++ rest)) := by
      simp [BodyLine.lines]
    rw [text, hunkScan_body, declaredHunks, List.filterMap_cons]
    exact marked

theorem declaredHunks_hunks (hunks : List HunkText) (rest : List Str)
    (full : ∀ hunk ∈ hunks, hunk.full = true)
    (markers : ∀ marker ∈ hunks.flatMap (fun hunk => hunk.body.flatMap (·.marker.toList)),
      marker.text = eofMarker) :
    declaredHunks (hunkScan 0 0 ((hunks.flatMap HunkText.lines).map (·.text) ++ rest)) =
      hunks.map (·.header) ++ declaredHunks (hunkScan 0 0 rest) := by
  induction hunks with
  | nil => rfl
  | cons hunk hunks ih =>
    simp only [List.flatMap_cons, List.mem_append, or_imp, forall_and] at markers
    obtain ⟨old, new⟩ := (full_iff hunk).1 (full hunk (by simp))
    have body := declaredHunks_body hunk.body 0 0
      ((hunks.flatMap HunkText.lines).map (·.text) ++ rest) markers.1
    rw [Nat.zero_add, Nat.zero_add, old, new,
      ih (fun other member => full other (by simp [member])) markers.2] at body
    have scan : hunkScan 0 0 (((hunk :: hunks).flatMap HunkText.lines).map (·.text) ++ rest) =
        (hunk.opening, false) :: hunkScan hunk.header.oldCount hunk.header.newCount
          ((hunk.body.flatMap BodyLine.lines).map (·.text) ++
            ((hunks.flatMap HunkText.lines).map (·.text) ++ rest)) := by
      simp [HunkText.lines, writtenLine, hunkScan, hunk.read]
    rw [scan, declaredHunks, List.filterMap_cons]
    simp only [Bool.false_eq_true, if_false, hunk.read]
    rw [← declaredHunks, body]
    rfl

theorem unparsed_of_quiet (line : Str) (quiet : isQuiet line = true) :
    parseHunkHeader (trimmed line) = none := by
  simp only [isQuiet, Bool.and_eq_true, Option.isNone_iff_eq_none] at quiet
  exact quiet.1.1

theorem declaredHunks_section (part : Section) (rest : List Str) (shaped : part.Shaped)
    (ends : part.review.isSome) :
    declaredHunks (hunkScan 0 0 (part.lines.map (·.text) ++ rest)) =
      part.hunks.map (·.header) ++ declaredHunks (hunkScan 0 0 rest) := by
  obtain ⟨unopened, settled⟩ := review_ends part ends
  have names : ∀ line ∈ part.nameLines, parseHunkHeader (trimmed line) = none := by
    simp only [Section.nameLines, List.mem_append, List.mem_map, Option.mem_toList]
    rintro _ (⟨line, named, rfl⟩ | ⟨line, named, rfl⟩)
    · exact unparsed_of_name line _ (shaped.old line named).1 (by decide)
    · exact unparsed_of_name line _ (shaped.new line named).1 (by decide)
  rw [section_text part rest unopened,
    declaredHunks_plain _ _ fun line listed =>
      unparsed_of_quiet line (quiet_before part shaped line listed),
    declaredHunks_plain _ _ names,
    declaredHunks_hunks _ _ (fun hunk member => (shaped.closed hunk member).1)
      (hunk_markers part shaped unopened),
    declaredHunks_plain _ _ fun line listed => unparsed_of_quiet line
      (quiet_framing _ (fun line listed => (shaped.trailing line listed).1) line listed)]

theorem declaredHunks_sections (parts : List Section) (shaped : ∀ part ∈ parts, part.Shaped)
    (ends : ∀ part ∈ parts, part.review.isSome) :
    declaredHunks (hunkScan 0 0 ((parts.flatMap Section.lines).map (·.text))) =
      (parts.flatMap (·.hunks)).map (·.header) := by
  induction parts with
  | nil => rfl
  | cons part parts ih =>
    rw [List.flatMap_cons, List.map_append,
      declaredHunks_section part _ (shaped part (by simp)) (ends part (by simp)),
      ih (fun other member => shaped other (by simp [member]))
        (fun other member => ends other (by simp [member])),
      List.flatMap_cons, List.map_append]

theorem contract_numberHunks (id : HunkId) (hunks : List HunkText)
    (closed : ∀ hunk ∈ hunks, hunk.full = true ∧ hunk.changes = true) :
    List.Forall₂ HunkContract (hunks.map (·.header)) (numberHunks id hunks) := by
  induction hunks generalizing id with
  | nil => exact .nil
  | cons hunk hunks ih =>
    obtain ⟨full, changes⟩ := closed hunk (by simp)
    exact .cons (contract_patch hunk id full changes)
      (ih (id + 1) (fun other member => closed other (by simp [member])))

theorem ids_numberHunks (id : HunkId) (hunks : List HunkText) :
    (numberHunks id hunks).map (·.id) = List.range' id hunks.length := by
  induction hunks generalizing id with
  | nil => rfl
  | cons hunk hunks ih =>
    rw [numberHunks, List.map_cons, ih, List.length_cons, List.range'_succ]
    rfl

theorem kinds_numberHunks (id : HunkId) (hunks : List HunkText) :
    ((numberHunks id hunks).flatMap (·.lines)).map (fun line => (line.kind, line.noNewline)) =
      (hunks.flatMap (·.body)).map (fun line => (line.kind, line.marker.isSome)) := by
  induction hunks generalizing id with
  | nil => rfl
  | cons hunk hunks ih =>
    rw [numberHunks, List.flatMap_cons, List.map_append, ih, List.flatMap_cons, List.map_append]
    congr 1
    exact kinds_numberBody _ _ _

theorem ends_review (part : Section) (reviewed : ReviewFile) (shaped : part.Shaped)
    (ok : part.review = some reviewed) (base : HunkId) :
    ((shiftFile base reviewed).patchTwin.hunks.flatMap (·.lines)).Pairwise
      PatchLine.endsBefore := by
  have ends := shaped.ends
  rw [bodies_of_closed part (review_cases part reviewed ok).1] at ends
  let before (earlier later : PatchLineKind × Bool) : Prop :=
    earlier.2 → ¬(onOld earlier.1 ∧ onOld later.1) ∧ ¬(onNew earlier.1 ∧ onNew later.1)
  have onKinds : ((part.hunks.flatMap (·.body)).map
      (fun line => (line.kind, line.marker.isSome))).Pairwise before :=
    List.pairwise_map.2 ends
  rw [← kinds_numberHunks base, ← shiftFile_hunks base part reviewed ok] at onKinds
  have onLines := List.pairwise_map.1 onKinds
  exact onLines

theorem parse_hunks (text : Str) (files : List ReviewFile) (accepted : parse text = .ok files) :
    List.Forall₂ HunkContract (declaredHunks (hunkScan 0 0 (splitLines text)))
        (files.flatMap (·.patchTwin.hunks)) ∧
      (files.flatMap (·.patchTwin.hunks)).map (·.id) =
        List.range (files.flatMap (·.patchTwin.hunks)).length ∧
      ∀ file ∈ files, (file.patchTwin.hunks.flatMap (·.lines)).Pairwise PatchLine.endsBefore := by
  obtain ⟨_, doc, grown, reviewed⟩ := (parse_eq_ok text files).1 accepted
  obtain ⟨shaped, lines⟩ := shaped_grown _ _ grown
  have hunks := reviewFrom_hunks 0 doc.sections files reviewed
  have declared : declaredHunks (hunkScan 0 0 (splitLines text)) =
      (doc.sections.flatMap (·.hunks)).map (·.header) := by
    rw [← textLines_text, ← lines, Document.lines, List.map_append,
      declaredHunks_plain _ _ fun line listed =>
        unparsed_of_quiet line (quiet_framing _ shaped.preamble line listed),
      declaredHunks_sections _ shaped.parts (reviewFrom_isSome 0 _ _ reviewed)]
  refine ⟨?_, ?_, ?_⟩
  · rw [declared, hunks]
    refine contract_numberHunks 0 _ ?_
    simp only [List.mem_flatMap]
    rintro hunk ⟨part, listed, member⟩
    exact (shaped.parts part listed).closed hunk member
  · have ids := ids_numberHunks 0 (doc.sections.flatMap (·.hunks))
    have count := congrArg List.length ids
    rw [List.length_map, List.length_range'] at count
    rw [hunks, ids, count, List.range_eq_range']
  · intro file member
    obtain ⟨part, listed, base, review, ok, rfl⟩ :=
      reviewFrom_origin 0 doc.sections files reviewed file member
    exact ends_review part review (shaped.parts part listed) ok base

theorem parse_hunks_marked :
    HunkContract
      { oldStart := 3, oldCount := 1, newStart := 4294967295, newCount := 2, sectionHeading := none }
      { id := 0
        oldStart := some 3
        newStart := some 4294967295
        sectionHeading := none
        lines :=
          [{ noNewline := true, lossy := false, kind := .removed, oldLine := some 3,
             newLine := none, text := ['a'] },
           { noNewline := false, lossy := false, kind := .added, oldLine := none,
             newLine := some 4294967295, text := ['b'] },
           { noNewline := false, lossy := false, kind := .added, oldLine := none,
             newLine := some 4294967295, text := ['c'] }] } := by
  let text : Str := unlines
    ["--- a/x".toList, "+++ b/x".toList, "@@ -3 +4294967295,2 @@".toList, "-a".toList, eofMarker,
      "+b".toList, "+c".toList]
  have contracts := (parse_hunks text
    [{ path := "x".toList
       status := .modified
       patchTwin :=
         { binaryBody := []
           hunks :=
             [{ id := 0
                oldStart := some 3
                newStart := some 4294967295
                sectionHeading := none
                lines :=
                  [{ noNewline := true, lossy := false, kind := .removed, oldLine := some 3,
                     newLine := none, text := ['a'] },
                   { noNewline := false, lossy := false, kind := .added, oldLine := none,
                     newLine := some 4294967295, text := ['b'] },
                   { noNewline := false, lossy := false, kind := .added, oldLine := none,
                     newLine := some 4294967295, text := ['c'] }] }]
           metadata := [eofMarker]
           lossyLines := 0 }
       semanticTwin := none
       planner := { strategy := .line, fallback := none, notes := [] } }]
    (by decide +kernel)).1
  have headers : declaredHunks (hunkScan 0 0 (splitLines text)) =
      [{ oldStart := 3, oldCount := 1, newStart := 4294967295, newCount := 2,
         sectionHeading := none }] := by
    decide +kernel
  rw [headers] at contracts
  cases contracts with
  | cons contract rest => exact contract

end DeepDiffForge.Patch
