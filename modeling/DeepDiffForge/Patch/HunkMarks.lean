import DeepDiffForge.Patch.HunkContract

/-! Which lines of an accepted input are lines of hunks, told by a scan that knows nothing of the
parser's state but the counts an open hunk has left. -/

namespace DeepDiffForge.Patch
open Text DeepDiffForge.Core

section Scan
variable {α : Type} (text : α → Str)

/-- Each line, and whether it is a line of a hunk: one in an open hunk, with a hunk line's first
character; `old` and `new` are what is left of the open hunk's counts. -/
def hunkMarks (old new : Nat) (lines : List α) : List (α × Bool) :=
  List.zipWith (fun line mark => (line, mark.2 && (bodyKind mark.1).isSome)) lines
    (hunkScan old new (lines.map text))

theorem hunkMarks_nil (old new : Nat) : hunkMarks text old new [] = [] := rfl

theorem hunkMarks_cons (old new : Nat) (line : α) (rest : List α) :
    hunkMarks text old new (line :: rest) =
      if 0 < old ∨ 0 < new then
        match bodyKind (text line) with
        | some kind =>
            (line, true) :: hunkMarks text (if onOld kind then old - 1 else old)
              (if onNew kind then new - 1 else new) rest
        | none => (line, false) :: hunkMarks text old new rest
      else
        match parseHunkHeader (trimmed (text line)) with
        | some header => (line, false) :: hunkMarks text header.oldCount header.newCount rest
        | none => (line, false) :: hunkMarks text 0 0 rest := by
  rw [hunkMarks, List.map_cons, hunkScan]
  split_ifs
  · cases kind : bodyKind (text line) with
    | none => rw [List.zipWith_cons_cons, kind]; rfl
    | some found => rw [List.zipWith_cons_cons, kind]; rfl
  · cases parseHunkHeader (trimmed (text line)) with
    | none => rfl
    | some header => rfl

theorem hunkMarks_lines (old new : Nat) (lines : List α) :
    (hunkMarks text old new lines).map Prod.fst = lines := by
  induction lines generalizing old new with
  | nil => rfl
  | cons line rest ih =>
    rw [hunkMarks_cons]
    split_ifs
    · cases bodyKind (text line) with
      | none => exact congrArg (line :: ·) (ih old new)
      | some kind => exact congrArg (line :: ·) (ih _ _)
    · cases parseHunkHeader (trimmed (text line)) with
      | none => exact congrArg (line :: ·) (ih 0 0)
      | some header => exact congrArg (line :: ·) (ih _ _)

theorem hunkMarks_unparsed (line : α) (rest : List α)
    (unparsed : parseHunkHeader (trimmed (text line)) = none) :
    hunkMarks text 0 0 (line :: rest) = (line, false) :: hunkMarks text 0 0 rest := by
  rw [hunkMarks_cons, if_neg (by omega), unparsed]

theorem hunkMarks_plain (lines rest : List α)
    (plain : ∀ line ∈ lines, parseHunkHeader (trimmed (text line)) = none) :
    hunkMarks text 0 0 (lines ++ rest) =
      lines.map (fun line => (line, false)) ++ hunkMarks text 0 0 rest := by
  induction lines with
  | nil => rfl
  | cons line lines ih =>
    rw [List.cons_append, hunkMarks_unparsed text line _ (plain line List.mem_cons_self),
      ih fun other mem => plain other (.tail _ mem), List.map_cons, List.cons_append]

theorem hunkMarks_marker (old new : Nat) (line : α) (rest : List α)
    (marks : text line = eofMarker) :
    hunkMarks text old new (line :: rest) = (line, false) :: hunkMarks text old new rest := by
  by_cases inside : 0 < old ∨ 0 < new
  · have kind : bodyKind eofMarker = none := by decide
    rw [hunkMarks_cons, if_pos inside, marks, kind]
  · obtain ⟨rfl, rfl⟩ : old = 0 ∧ new = 0 := by omega
    have unparsed : parseHunkHeader (trimmed eofMarker) = none := by decide
    exact hunkMarks_unparsed text line rest (by rw [marks, unparsed])

/-- The same scan of lines that stand for others. -/
theorem hunkMarks_map {β : Type} (f : β → α) (old new : Nat) (lines : List β) :
    hunkMarks text old new (lines.map f) =
      (hunkMarks (fun line => text (f line)) old new lines).map fun line => (f line.1, line.2) := by
  induction lines generalizing old new with
  | nil => rfl
  | cons line lines ih =>
    rw [List.map_cons, hunkMarks_cons, hunkMarks_cons]
    split
    · cases bodyKind (text (f line)) with
      | none => rw [List.map_cons, ← ih]
      | some kind => rw [List.map_cons, ← ih]
    · cases parseHunkHeader (trimmed (text (f line))) with
      | none => rw [List.map_cons, ← ih]
      | some header => rw [List.map_cons, ← ih]

end Scan

def BodyLine.input (line : BodyLine) : InputLine := { text := line.text, lossy := line.lossy }

def BodyLine.marks (line : BodyLine) : List (InputLine × Bool) :=
  (line.input, true) :: line.marker.toList.map fun marker => (marker, false)

def HunkText.marks (hunk : HunkText) : List (InputLine × Bool) :=
  (writtenLine hunk.opening, false) :: hunk.body.flatMap BodyLine.marks

def Section.headLines (part : Section) : List InputLine :=
  part.opening.toList.map (fun git => writtenLine git.text) ++
    part.extended.map writtenLine ++ part.binary.map writtenLine ++
    part.oldName.toList.map (fun old => writtenLine old.text) ++
    part.newName.toList.map fun new => writtenLine new.text

def Section.marks (part : Section) : List (InputLine × Bool) :=
  part.headLines.map (fun line => (line, false)) ++ part.hunks.flatMap HunkText.marks ++
    part.trailing.map fun line => (line, false)

theorem body_marks (body : List BodyLine) (rest : List InputLine)
    (markers : ∀ marker ∈ body.flatMap (·.marker.toList), marker.text = eofMarker) :
    hunkMarks InputLine.text (oldUsed body) (newUsed body) (body.flatMap BodyLine.lines ++ rest) =
      body.flatMap BodyLine.marks ++ hunkMarks InputLine.text 0 0 rest := by
  induction body with
  | nil => rfl
  | cons line body ih =>
    simp only [List.flatMap_cons, List.mem_append, or_imp, forall_and] at markers
    have usedOld : oldUsed (line :: body) = oldUsed body + if onOld line.kind then 1 else 0 := by
      simp [oldUsed, List.countP_cons]
    have usedNew : newUsed (line :: body) = newUsed body + if onNew line.kind then 1 else 0 := by
      simp [newUsed, List.countP_cons]
    have inside : 0 < oldUsed (line :: body) ∨ 0 < newUsed (line :: body) := by
      rw [usedOld, usedNew]
      rcases side_of_kind line.kind with side | side <;> rw [if_pos side] <;> omega
    have leftOld : (if onOld line.kind then oldUsed (line :: body) - 1
        else oldUsed (line :: body)) = oldUsed body := by
      rw [usedOld]
      split_ifs <;> omega
    have leftNew : (if onNew line.kind then newUsed (line :: body) - 1
        else newUsed (line :: body)) = newUsed body := by
      rw [usedNew]
      split_ifs <;> omega
    have marked : hunkMarks InputLine.text (oldUsed body) (newUsed body)
        (line.marker.toList ++ (body.flatMap BodyLine.lines ++ rest)) =
        line.marker.toList.map (fun marker => (marker, false)) ++
          (body.flatMap BodyLine.marks ++ hunkMarks InputLine.text 0 0 rest) := by
      rw [← ih markers.2]
      cases present : line.marker with
      | none => rfl
      | some marker =>
        exact hunkMarks_marker _ _ _ marker _ (markers.1 marker (by simp [present]))
    have kind : bodyKind line.input.text = some line.kind := line.read
    have step : hunkMarks InputLine.text (oldUsed (line :: body)) (newUsed (line :: body)) (line.input ::
        (line.marker.toList ++ (body.flatMap BodyLine.lines ++ rest))) = (line.input, true) ::
        hunkMarks InputLine.text (oldUsed body) (newUsed body)
          (line.marker.toList ++ (body.flatMap BodyLine.lines ++ rest)) := by
      rw [hunkMarks_cons, if_pos inside, kind]
      simp only [leftOld, leftNew]
    rw [List.flatMap_cons, BodyLine.lines, List.append_assoc, List.cons_append]
    refine step.trans ?_
    rw [marked, List.flatMap_cons, BodyLine.marks, List.cons_append, List.cons_append,
      List.append_assoc]

theorem hunks_marks (hunks : List HunkText) (rest : List InputLine)
    (full : ∀ hunk ∈ hunks, hunk.full = true)
    (markers : ∀ marker ∈ hunks.flatMap (fun hunk => hunk.body.flatMap (·.marker.toList)),
      marker.text = eofMarker) :
    hunkMarks InputLine.text 0 0 (hunks.flatMap HunkText.lines ++ rest) =
      hunks.flatMap HunkText.marks ++ hunkMarks InputLine.text 0 0 rest := by
  induction hunks with
  | nil => rfl
  | cons hunk hunks ih =>
    simp only [List.flatMap_cons, List.mem_append, or_imp, forall_and] at markers
    obtain ⟨old, new⟩ := (full_iff hunk).1 (full hunk List.mem_cons_self)
    have opened : parseHunkHeader (trimmed (writtenLine hunk.opening).text) = some hunk.header :=
      hunk.read
    rw [List.flatMap_cons, HunkText.lines, List.append_assoc, List.cons_append,
      hunkMarks_cons, if_neg (by omega), opened]
    dsimp only
    rw [← old, ← new, body_marks _ _ markers.1,
      ih (fun other mem => full other (.tail _ mem)) markers.2, List.flatMap_cons, HunkText.marks,
      List.cons_append, List.cons_append, List.append_assoc]

theorem head_unparsed (part : Section) (shaped : part.Shaped) :
    ∀ line ∈ part.headLines, parseHunkHeader (trimmed line.text) = none := by
  intro line mem
  simp only [Section.headLines, List.mem_append] at mem
  rcases mem with ((early | oldName) | newName)
  · refine unparsed_of_quiet _ (quiet_before part shaped line.text ?_)
    simp only [Section.before, List.mem_append]
    rcases early with (opening | extended) | binary
    · obtain ⟨git, held, rfl⟩ := List.mem_map.1 opening
      exact .inl (.inl (List.mem_map_of_mem held))
    · obtain ⟨header, held, rfl⟩ := List.mem_map.1 extended
      exact .inl (.inr held)
    · obtain ⟨body, held, rfl⟩ := List.mem_map.1 binary
      exact .inr held
  · obtain ⟨old, held, rfl⟩ := List.mem_map.1 oldName
    exact unparsed_of_name old _ (shaped.old old (Option.mem_toList.1 held)).1 (by decide)
  · obtain ⟨new, held, rfl⟩ := List.mem_map.1 newName
    exact unparsed_of_name new _ (shaped.new new (Option.mem_toList.1 held)).1 (by decide)

theorem framing_unparsed (lines : List InputLine)
    (framing : ∀ line ∈ lines, isFraming line.text = true) :
    ∀ line ∈ lines, parseHunkHeader (trimmed line.text) = none :=
  fun line mem => unparsed_of_quiet _ (quiet_of_framing _ (framing line mem))

theorem section_marks (part : Section) (rest : List InputLine) (shaped : part.Shaped)
    (ends : part.review.isSome) :
    hunkMarks InputLine.text 0 0 (part.lines ++ rest) = part.marks ++ hunkMarks InputLine.text 0 0 rest := by
  obtain ⟨unopened, settled⟩ := review_ends part ends
  have lines : part.lines ++ rest =
      part.headLines ++ (part.hunks.flatMap HunkText.lines ++ (part.trailing ++ rest)) := by
    simp [Section.lines, Section.headLines, unopened]
  rw [lines, hunkMarks_plain _ _ _ (head_unparsed part shaped),
    hunks_marks _ _ (fun hunk mem => (shaped.closed hunk mem).1)
      (hunk_markers part shaped unopened),
    hunkMarks_plain _ _ _ (framing_unparsed _ fun line mem => (shaped.trailing line mem).1),
    Section.marks, List.append_assoc, List.append_assoc]

theorem sections_marks (parts : List Section) (shaped : ∀ part ∈ parts, part.Shaped)
    (ends : ∀ part ∈ parts, part.review.isSome) :
    hunkMarks InputLine.text 0 0 (parts.flatMap Section.lines) = parts.flatMap Section.marks := by
  induction parts with
  | nil => rfl
  | cons part parts ih =>
    rw [List.flatMap_cons, section_marks part _ (shaped part List.mem_cons_self)
      (ends part List.mem_cons_self), ih (fun other mem => shaped other (.tail _ mem))
      (fun other mem => ends other (.tail _ mem)), List.flatMap_cons]

end DeepDiffForge.Patch
