import DeepDiffForge.Patch.Files

/-! Every changed line of an accepted text is a line of a hunk. The scan of the input below knows
nothing of the parser's state but the counts an open hunk has left. -/

namespace DeepDiffForge.Patch
open Text DeepDiffForge.Core

/-- Each line of a text, and whether it lies in an open hunk: one whose `@@` header counts are not
used up; `old` and `new` are what the open hunk has left. -/
def hunkScan : Nat → Nat → List Str → List (Str × Bool)
  | _, _, [] => []
  | old, new, line :: rest =>
      if 0 < old ∨ 0 < new then
        (line, true) ::
          match bodyKind line with
          | some kind =>
              hunkScan (if onOld kind then old - 1 else old) (if onNew kind then new - 1 else new)
                rest
          | none => hunkScan old new rest
      else
        (line, false) ::
          match parseHunkHeader (trimmed line) with
          | some header => hunkScan header.oldCount header.newCount rest
          | none => hunkScan 0 0 rest

def isSigned (line : Str) : Bool := startsWith ['+'] line || startsWith ['-'] line

/-- `---` or `-- `, up to trailing CRs: what a mail puts around a patch. -/
def isMailRule (line : Str) : Bool := trimmed line = "---".toList || trimmed line = "-- ".toList

def outsideWith (start : Str) (scanned : Str × Bool) : Bool :=
  !scanned.2 && startsWith start scanned.1

/-- A line that writes a change: it starts with `+` or `-` and is no rule outside a hunk. -/
def writesChange (scanned : Str × Bool) : Bool :=
  isSigned scanned.1 && (scanned.2 || !isMailRule scanned.1)

/-- The changes a scanned text writes, each `---` line with the `+++` line right after it left
out. -/
def writtenChanges : List (Str × Bool) → List Str
  | [] => []
  | [line] => if writesChange line then [line.1] else []
  | line :: next :: rest =>
      if outsideWith "--- ".toList line && outsideWith "+++ ".toList next then writtenChanges rest
      else (if writesChange line then [line.1] else []) ++ writtenChanges (next :: rest)

def hunkChanges (hunk : PatchHunk) : List Str :=
  (hunk.lines.filter (fun line => line.kind ≠ .context)).map fun line =>
    marker line.kind :: line.text

def reviewedChanges (files : List ReviewFile) : List Str :=
  files.flatMap fun file => file.patchTwin.hunks.flatMap hunkChanges

example : writtenChanges (hunkScan 0 0
    ["--- a/x".toList, "+++ b/x".toList, "@@ -1 +1 @@".toList, "-- ".toList, "+y".toList,
      "-- ".toList]) = ["-- ".toList, "+y".toList] := by
  decide

def bodyChanges (body : List BodyLine) : List Str :=
  (body.filter (fun line => line.kind ≠ .context)).map (·.text)

theorem writtenChanges_cons (line : Str × Bool) (rest : List (Str × Bool))
    (unpaired : outsideWith "--- ".toList line = false) :
    writtenChanges (line :: rest) =
      (if writesChange line then [line.1] else []) ++ writtenChanges rest := by
  cases rest with
  | nil => simp [writtenChanges]
  | cons next rest =>
    simp only [writtenChanges, unpaired, Bool.false_and, Bool.false_eq_true, if_false]

/-- A line outside hunks that opens none, names nothing and writes no change. -/
def isQuiet (line : Str) : Bool :=
  (parseHunkHeader (trimmed line)).isNone && !startsWith "--- ".toList line &&
    (isMailRule line || !isSigned line)

theorem writtenChanges_quiet (line : Str) (rest : List Str) (quiet : isQuiet line = true) :
    writtenChanges (hunkScan 0 0 (line :: rest)) = writtenChanges (hunkScan 0 0 rest) := by
  simp only [isQuiet, Bool.and_eq_true, Option.isNone_iff_eq_none, Bool.not_eq_true'] at quiet
  obtain ⟨⟨unopened, unnamed⟩, rule⟩ := quiet
  have silent : writesChange (line, false) = false := by
    simp only [writesChange, Bool.false_or]
    rcases Bool.or_eq_true_iff.1 rule with ruled | unsigned
    · simp [ruled]
    · simp only [Bool.not_eq_true'] at unsigned
      simp [unsigned]
  have scan : hunkScan 0 0 (line :: rest) = (line, false) :: hunkScan 0 0 rest := by
    simp [hunkScan, unopened]
  rw [scan, writtenChanges_cons _ _ (by rw [outsideWith, unnamed, Bool.and_false]), silent]
  rfl

theorem writtenChanges_quiets (lines rest : List Str) (quiet : ∀ line ∈ lines, isQuiet line = true) :
    writtenChanges (hunkScan 0 0 (lines ++ rest)) = writtenChanges (hunkScan 0 0 rest) := by
  induction lines with
  | nil => rfl
  | cons line lines ih =>
    rw [List.cons_append, writtenChanges_quiet _ _ (quiet line (by simp)),
      ih (fun other member => quiet other (by simp [member]))]

theorem unparsed_of_start (line : Str) (hunk : startsWith "@@".toList (trimmed line) = false) :
    parseHunkHeader (trimmed line) = none := by
  have begins : stripPrefix "@@ -".toList (trimmed line) = none := by
    rw [stripPrefix_eq_none]
    by_contra starts
    rw [Bool.not_eq_false, startsWith_iff] at starts
    obtain ⟨rest, same⟩ := starts
    rw [same] at hunk
    exact Bool.noConfusion (hunk.symm.trans
      (startsWith_append "@@".toList (" -".toList ++ rest)))
  simp only [parseHunkHeader, begins, Option.bind_eq_bind, Option.bind_none]

/-- A line that begins as no header of a side, no hunk and no change is quiet. -/
theorem quiet_of_starts (line : Str) (hunk : startsWith "@@".toList (trimmed line) = false)
    (unsigned : isSigned line = false) : isQuiet line = true := by
  have unnamed : startsWith "--- ".toList line = false := by
    by_contra starts
    rw [Bool.not_eq_false, startsWith_iff] at starts
    obtain ⟨rest, rfl⟩ := starts
    exact Bool.noConfusion ((show isSigned ("--- ".toList ++ rest) = true from rfl).symm.trans unsigned)
  rw [isQuiet, unparsed_of_start line hunk, unnamed, unsigned, Bool.not_false, Bool.or_true]
  rfl

theorem isSigned_trimmed (line : Str) : isSigned (trimmed line) = isSigned line := by
  simp only [isSigned, trimmed]
  rw [startsWith_trimEnd _ _ _ (by decide), startsWith_trimEnd _ _ _ (by decide)]

theorem quiet_of_extended (line : Str) (extended : isExtended (trimmed line) = true) :
    isQuiet line = true := by
  apply quiet_of_starts line (startsWith_of_extended _ _ extended (by decide))
  rw [← isSigned_trimmed, isSigned, startsWith_of_extended _ _ extended (by decide),
    startsWith_of_extended _ _ extended (by decide)]
  rfl

theorem quiet_of_framing (line : Str) (framing : isFraming line = true) : isQuiet line = true := by
  obtain ⟨_, _, old, _, hunk⟩ := framing_plain line framing
  rw [stripPrefix_eq_none, trimmed, startsWith_trimEnd _ _ _ (by decide)] at old
  simp only [isFraming, Bool.and_eq_true, Bool.or_eq_true, Bool.not_eq_true'] at framing
  have rule : (isMailRule line || !isSigned line) = true := by
    rcases framing.2 with ruled | unsigned
    · rw [isMailRule, Bool.or_eq_true_iff.2 ruled, Bool.true_or]
    · rw [← isSigned_trimmed, isSigned, unsigned, Bool.not_false, Bool.or_true]
  rw [isQuiet, unparsed_of_start line hunk, old, rule]
  rfl

theorem quiet_git (git : GitLine) : isQuiet git.text = true := by
  have begins : startsWith "diff --git ".toList git.text = true := startsWith_append _ _
  have begins' : startsWith "diff --git ".toList (trimmed git.text) = true := by
    rwa [trimmed, startsWith_trimEnd _ _ _ (by decide)]
  apply quiet_of_starts _ (startsWith_apart _ _ _ begins' (by decide))
  rw [isSigned, startsWith_apart _ _ _ begins (by decide), startsWith_apart _ _ _ begins (by decide)]
  rfl

theorem isBinaryBodyLine_sign (c : Char) (rest : Str) (sign : c = '@' ∨ c = '+' ∨ c = '-') :
    isBinaryBodyLine (c :: rest) = false := by
  have literal : stripPrefix "literal ".toList (c :: rest) = none := by
    rcases sign with rfl | rfl | rfl <;> rfl
  have delta : stripPrefix "delta ".toList (c :: rest) = none := by
    rcases sign with rfl | rfl | rfl <;> rfl
  simp only [isBinaryBodyLine, literal, delta, Option.orElse]
  rcases sign with rfl | rfl | rfl <;> simp

theorem quiet_binary (line : Str) (read : isBinaryBodyLine line = true) : isQuiet line = true := by
  have unsign (start : Str) (c : Char) (rest : Str) (sign : c = '@' ∨ c = '+' ∨ c = '-')
      (same : start = c :: rest) : startsWith start line = false := by
    by_contra starts
    rw [Bool.not_eq_false, startsWith_iff] at starts
    obtain ⟨more, rfl⟩ := starts
    rw [same, List.cons_append] at read
    exact Bool.noConfusion ((isBinaryBodyLine_sign c (rest ++ more) sign).symm.trans read)
  apply quiet_of_starts
  · rw [trimmed, startsWith_trimEnd _ _ _ (by decide)]
    exact unsign _ '@' ['@'] (.inl rfl) rfl
  · rw [isSigned, unsign _ '+' [] (.inr (.inl rfl)) rfl, unsign _ '-' [] (.inr (.inr rfl)) rfl]
    rfl

theorem isSigned_kind (line : BodyLine) :
    isSigned line.text = decide (line.kind ≠ .context) := by
  obtain ⟨text, kind, lossy, marker, read⟩ := line
  simp only [bodyKind] at read
  cases text with
  | nil =>
    cases read
    rfl
  | cons c rest =>
    simp only [List.head?_cons] at read
    split at read <;> cases read <;> simp_all [isSigned, startsWith, stripPrefix]

theorem hunkScan_marker (old new : Nat) (rest : List Str) :
    hunkScan old new (eofMarker :: rest) =
      (eofMarker, decide (0 < old ∨ 0 < new)) :: hunkScan old new rest := by
  by_cases inside : 0 < old ∨ 0 < new
  · have kind : bodyKind eofMarker = none := by decide
    simp only [hunkScan, if_pos inside, kind, decide_eq_true inside]
  · obtain ⟨rfl, rfl⟩ : old = 0 ∧ new = 0 := by omega
    have unparsed : parseHunkHeader (trimmed eofMarker) = none := by decide
    simp only [hunkScan, if_neg inside, unparsed, decide_eq_false inside]

theorem side_of_kind (kind : PatchLineKind) : onOld kind = true ∨ onNew kind = true := by
  cases kind <;> decide

theorem hunkScan_body (line : BodyLine) (body : List BodyLine) (old new : Nat) (rest : List Str) :
    hunkScan (old + oldUsed (line :: body)) (new + newUsed (line :: body)) (line.text :: rest) =
      (line.text, true) :: hunkScan (old + oldUsed body) (new + newUsed body) rest := by
  have usedOld : oldUsed (line :: body) = oldUsed body + if onOld line.kind then 1 else 0 := by
    simp [oldUsed, List.countP_cons]
  have usedNew : newUsed (line :: body) = newUsed body + if onNew line.kind then 1 else 0 := by
    simp [newUsed, List.countP_cons]
  have inside : 0 < old + oldUsed (line :: body) ∨ 0 < new + newUsed (line :: body) := by
    rw [usedOld, usedNew]
    rcases side_of_kind line.kind with side | side <;> rw [if_pos side] <;> omega
  have leftOld : (if onOld line.kind then old + oldUsed (line :: body) - 1
      else old + oldUsed (line :: body)) = old + oldUsed body := by
    rw [usedOld]
    split_ifs <;> omega
  have leftNew : (if onNew line.kind then new + newUsed (line :: body) - 1
      else new + newUsed (line :: body)) = new + newUsed body := by
    rw [usedNew]
    split_ifs <;> omega
  simp only [hunkScan, if_pos inside, line.read, leftOld, leftNew]

theorem writtenChanges_marker (old new : Nat) (rest : List Str) :
    writtenChanges (hunkScan old new (eofMarker :: rest)) =
      writtenChanges (hunkScan old new rest) := by
  have unsigned : isSigned eofMarker = false := by decide
  have unpaired : startsWith "--- ".toList eofMarker = false := by decide
  rw [hunkScan_marker, writtenChanges_cons _ _ (by rw [outsideWith, unpaired, Bool.and_false]),
    writesChange, unsigned, Bool.false_and]
  rfl

theorem writtenChanges_body (body : List BodyLine) (old new : Nat) (rest : List Str)
    (markers : ∀ marker ∈ body.flatMap (·.marker.toList), marker.text = eofMarker) :
    writtenChanges (hunkScan (old + oldUsed body) (new + newUsed body)
        ((body.flatMap BodyLine.lines).map (·.text) ++ rest)) =
      bodyChanges body ++ writtenChanges (hunkScan old new rest) := by
  induction body with
  | nil => rfl
  | cons line body ih =>
    simp only [List.flatMap_cons, List.mem_append, or_imp, forall_and] at markers
    have marked : writtenChanges (hunkScan (old + oldUsed body) (new + newUsed body)
        (line.marker.toList.map (·.text) ++
          ((body.flatMap BodyLine.lines).map (·.text) ++ rest))) =
        bodyChanges body ++ writtenChanges (hunkScan old new rest) := by
      cases present : line.marker with
      | none => exact ih markers.2
      | some marker =>
        have text := markers.1 marker (by simp [present])
        simp only [Option.toList_some, List.map_cons, List.map_nil, List.singleton_append, text,
          writtenChanges_marker]
        exact ih markers.2
    have text : ((line :: body).flatMap BodyLine.lines).map (·.text) ++ rest =
        line.text :: (line.marker.toList.map (·.text) ++
          ((body.flatMap BodyLine.lines).map (·.text) ++ rest)) := by
      simp [BodyLine.lines]
    rw [text, hunkScan_body, writtenChanges_cons _ _ rfl, marked]
    simp only [writesChange, Bool.true_or, Bool.and_true, isSigned_kind, bodyChanges,
      List.filter_cons]
    split_ifs <;> rfl

theorem quiet_opening (hunk : HunkText) :
    outsideWith "--- ".toList (hunk.opening, false) = false ∧
      writesChange (hunk.opening, false) = false := by
  obtain ⟨_, _, old, _, begins⟩ := hunk_plain hunk
  rw [stripPrefix_eq_none, trimmed, startsWith_trimEnd _ _ _ (by decide)] at old
  have unsigned : isSigned hunk.opening = false := by
    rw [← isSigned_trimmed, isSigned, startsWith_apart _ _ _ begins (by decide),
      startsWith_apart _ _ _ begins (by decide)]
    rfl
  exact ⟨by rw [outsideWith, old, Bool.and_false], by rw [writesChange, unsigned, Bool.false_and]⟩

theorem full_iff (hunk : HunkText) : hunk.full = true ↔
    oldUsed hunk.body = hunk.header.oldCount ∧ newUsed hunk.body = hunk.header.newCount := by
  simp [HunkText.full]

theorem writtenChanges_hunk (hunk : HunkText) (rest : List Str) (full : hunk.full = true)
    (markers : ∀ marker ∈ hunk.body.flatMap (·.marker.toList), marker.text = eofMarker) :
    writtenChanges (hunkScan 0 0 (hunk.lines.map (·.text) ++ rest)) =
      bodyChanges hunk.body ++ writtenChanges (hunkScan 0 0 rest) := by
  obtain ⟨unpaired, silent⟩ := quiet_opening hunk
  obtain ⟨old, new⟩ := (full_iff hunk).1 full
  have body := writtenChanges_body hunk.body 0 0 rest markers
  rw [Nat.zero_add, Nat.zero_add, old, new] at body
  have scan : hunkScan 0 0 (hunk.lines.map (·.text) ++ rest) =
      (hunk.opening, false) :: hunkScan hunk.header.oldCount hunk.header.newCount
        ((hunk.body.flatMap BodyLine.lines).map (·.text) ++ rest) := by
    simp [HunkText.lines, writtenLine, hunkScan, hunk.read]
  rw [scan, writtenChanges_cons _ _ unpaired, silent, body]
  rfl

theorem writtenChanges_hunks (hunks : List HunkText) (rest : List Str)
    (full : ∀ hunk ∈ hunks, hunk.full = true)
    (markers : ∀ marker ∈ hunks.flatMap (fun hunk => hunk.body.flatMap (·.marker.toList)),
      marker.text = eofMarker) :
    writtenChanges (hunkScan 0 0 ((hunks.flatMap HunkText.lines).map (·.text) ++ rest)) =
      hunks.flatMap (fun hunk => bodyChanges hunk.body) ++
        writtenChanges (hunkScan 0 0 rest) := by
  induction hunks with
  | nil => rfl
  | cons hunk hunks ih =>
    simp only [List.flatMap_cons, List.mem_append, or_imp, forall_and] at markers
    rw [List.flatMap_cons, List.map_append, List.append_assoc,
      writtenChanges_hunk hunk _ (full hunk (by simp)) markers.1,
      ih (fun other member => full other (by simp [member])) markers.2, List.flatMap_cons,
      List.append_assoc]

theorem unparsed_of_name (line : NameLine) (start : Str)
    (begins : trimmed line.text = start ++ line.rest)
    (apart : (startsWith start "@@".toList || startsWith "@@".toList start) = false) :
    parseHunkHeader (trimmed line.text) = none :=
  unparsed_of_start _ (startsWith_apart start _ _ (by rw [begins, startsWith_append]) apart)

theorem writtenChanges_names (old new : NameLine) (rest : List Str)
    (oldRead : trimmed old.text = "--- ".toList ++ old.rest)
    (newRead : trimmed new.text = "+++ ".toList ++ new.rest) :
    writtenChanges (hunkScan 0 0 (old.text :: new.text :: rest)) =
      writtenChanges (hunkScan 0 0 rest) := by
  have scan : hunkScan 0 0 (old.text :: new.text :: rest) =
      (old.text, false) :: (new.text, false) :: hunkScan 0 0 rest := by
    simp [hunkScan, unparsed_of_name old _ oldRead (by decide),
      unparsed_of_name new _ newRead (by decide)]
  have oldStart : startsWith "--- ".toList old.text = true := by
    rw [← startsWith_trimEnd '\r' _ _ (by decide)]
    rw [trimmed] at oldRead
    rw [oldRead, startsWith_append]
  have newStart : startsWith "+++ ".toList new.text = true := by
    rw [← startsWith_trimEnd '\r' _ _ (by decide)]
    rw [trimmed] at newRead
    rw [newRead, startsWith_append]
  rw [scan]
  simp only [writtenChanges, outsideWith, oldStart, newStart, Bool.not_false, Bool.and_self, if_true]

/-- A section's lines before its `---` line. -/
def Section.before (part : Section) : List Str :=
  part.opening.toList.map GitLine.text ++ part.extended ++ part.binary

/-- The `---` and `+++` lines of a section. -/
def Section.nameLines (part : Section) : List Str :=
  part.oldName.toList.map NameLine.text ++ part.newName.toList.map NameLine.text

theorem section_text (part : Section) (rest : List Str) (unopened : part.openHunk = none) :
    part.lines.map (·.text) ++ rest =
      part.before ++ (part.nameLines ++ ((part.hunks.flatMap HunkText.lines).map (·.text) ++
        (part.trailing.map (·.text) ++ rest))) := by
  simp [Section.lines, Section.before, Section.nameLines, unopened, writtenLine, Function.comp_def]

theorem quiet_before (part : Section) (shaped : part.Shaped) :
    ∀ line ∈ part.before, isQuiet line = true := by
  simp only [Section.before, List.mem_append, List.mem_map, Option.mem_toList]
  rintro line ((⟨git, _, rfl⟩ | listed) | binary)
  · exact quiet_git git
  · exact quiet_of_extended line (extended_of_reads _ (shaped.extended line listed))
  · exact quiet_binary line (shaped.binary line binary)

theorem quiet_framing (lines : List InputLine)
    (framing : ∀ line ∈ lines, isFraming line.text = true) :
    ∀ line ∈ lines.map (·.text), isQuiet line = true := by
  simp only [List.mem_map]
  rintro _ ⟨line, listed, rfl⟩
  exact quiet_of_framing _ (framing line listed)

theorem hunk_markers (part : Section) (shaped : part.Shaped) (unopened : part.openHunk = none) :
    ∀ marker ∈ part.hunks.flatMap (fun hunk => hunk.body.flatMap (·.marker.toList)),
      marker.text = eofMarker := by
  intro marker member
  refine shaped.markers marker ?_
  simp only [Section.markers, bodies_of_closed part unopened, List.flatMap_assoc]
  exact member

theorem writtenChanges_section (part : Section) (rest : List Str) (shaped : part.Shaped)
    (ends : part.review.isSome) :
    writtenChanges (hunkScan 0 0 (part.lines.map (·.text) ++ rest)) =
      part.hunks.flatMap (fun hunk => bodyChanges hunk.body) ++
        writtenChanges (hunkScan 0 0 rest) := by
  obtain ⟨unopened, settled⟩ := review_ends part ends
  have names (more : List Str) : writtenChanges (hunkScan 0 0 (part.nameLines ++ more)) =
      writtenChanges (hunkScan 0 0 more) := by
    rcases nameLines_cases part shaped settled with ⟨old, new⟩ | ⟨oldLine, newLine, old, new⟩
    · simp [Section.nameLines, old, new]
    · simpa [Section.nameLines, old, new] using writtenChanges_names oldLine newLine more
        (shaped.old oldLine old).1 (shaped.new newLine new).1
  rw [section_text part rest unopened, writtenChanges_quiets _ _ (quiet_before part shaped), names,
    writtenChanges_hunks _ _ (fun hunk member => (shaped.closed hunk member).1)
      (hunk_markers part shaped unopened),
    writtenChanges_quiets _ _ (quiet_framing _ fun line listed => (shaped.trailing line listed).1)]

theorem writtenChanges_sections (parts : List Section) (shaped : ∀ part ∈ parts, part.Shaped)
    (ends : ∀ part ∈ parts, part.review.isSome) :
    writtenChanges (hunkScan 0 0 ((parts.flatMap Section.lines).map (·.text))) =
      (parts.flatMap (·.hunks)).flatMap (fun hunk => bodyChanges hunk.body) := by
  induction parts with
  | nil => rfl
  | cons part parts ih =>
    rw [List.flatMap_cons, List.map_append,
      writtenChanges_section part _ (shaped part (by simp)) (ends part (by simp)),
      ih (fun other member => shaped other (by simp [member]))
        (fun other member => ends other (by simp [member])),
      List.flatMap_cons, List.flatMap_append]

theorem marker_tail (line : BodyLine) (changed : line.kind ≠ .context) :
    marker line.kind :: line.text.tail = line.text := by
  obtain ⟨text, kind, lossy, eof, read⟩ := line
  simp only [bodyKind] at read
  cases text with
  | nil =>
    cases read
    exact (changed rfl).elim
  | cons c rest =>
    simp only [List.head?_cons] at read
    split at read <;> cases read <;> simp_all [marker]

theorem hunkChanges_patch (hunk : HunkText) (id : HunkId) :
    hunkChanges (hunk.patch id) = bodyChanges hunk.body := by
  have numbered (old new : Nat) (body : List BodyLine) :
      ((numberBody old new body).filter (fun line => line.kind ≠ .context)).map
        (fun line => marker line.kind :: line.text) = bodyChanges body := by
    induction body generalizing old new with
    | nil => rfl
    | cons line body ih =>
      have kind : (line.patchLine old new).kind = line.kind := rfl
      have text : (line.patchLine old new).text = line.text.tail := rfl
      have rest := ih (if onOld line.kind then old + 1 else old)
        (if onNew line.kind then new + 1 else new)
      rw [numberBody, List.filter_cons, kind, bodyChanges, List.filter_cons]
      by_cases changed : decide (line.kind ≠ .context) = true
      · rw [if_pos changed, if_pos changed, List.map_cons, List.map_cons, rest, kind, text,
          marker_tail line (of_decide_eq_true changed)]
        rfl
      · rw [if_neg changed, if_neg changed, rest]
        rfl
  exact numbered _ _ _

theorem hunkChanges_numberHunks (id : HunkId) (hunks : List HunkText) :
    (numberHunks id hunks).flatMap hunkChanges =
      hunks.flatMap (fun hunk => bodyChanges hunk.body) := by
  induction hunks generalizing id with
  | nil => rfl
  | cons hunk hunks ih =>
    rw [numberHunks, List.flatMap_cons, ih, hunkChanges_patch, List.flatMap_cons]

/-- No changed line is hidden and none is invented. -/
theorem parse_changes (text : Str) (files : List ReviewFile) (accepted : parse text = .ok files) :
    writtenChanges (hunkScan 0 0 (splitLines text)) = reviewedChanges files := by
  obtain ⟨_, doc, grown, reviewed⟩ := (parse_eq_ok text files).1 accepted
  obtain ⟨shaped, lines⟩ := shaped_grown _ _ grown
  have quiet := quiet_framing doc.preamble shaped.preamble
  have hunks := reviewFrom_hunks 0 doc.sections files reviewed
  calc
    writtenChanges (hunkScan 0 0 (splitLines text)) =
        writtenChanges (hunkScan 0 0 (doc.preamble.map (·.text) ++
          (doc.sections.flatMap Section.lines).map (·.text))) := by
      rw [← textLines_text, ← lines, Document.lines, List.map_append]
    _ = (doc.sections.flatMap (·.hunks)).flatMap (fun hunk => bodyChanges hunk.body) := by
      rw [writtenChanges_quiets _ _ quiet,
        writtenChanges_sections _ shaped.parts (reviewFrom_isSome 0 _ _ reviewed)]
    _ = reviewedChanges files := by
      rw [reviewedChanges, ← List.flatMap_assoc, hunks, hunkChanges_numberHunks]

theorem parse_changes_mail :
    writtenChanges (hunkScan 0 0 (splitLines
        "--- a/x\n+++ b/x\n@@ -1 +1 @@\n-a\n+b\n-- \n".toList)) =
      ["-a".toList, "+b".toList] :=
  parse_changes _
    [{ path := "x".toList
       status := .modified
       patchTwin :=
         { binaryBody := []
           hunks :=
             [{ id := 0
                oldStart := some 1
                newStart := some 1
                sectionHeading := none
                lines :=
                  [{ noNewline := false, lossy := false, kind := .removed, oldLine := some 1,
                     newLine := none, text := ['a'] },
                   { noNewline := false, lossy := false, kind := .added, oldLine := none,
                     newLine := some 1, text := ['b'] }] }]
           metadata := []
           lossyLines := 0 }
       semanticTwin := none
       planner := { strategy := .line, fallback := none, notes := [] } }]
    (by decide +kernel)

end DeepDiffForge.Patch
