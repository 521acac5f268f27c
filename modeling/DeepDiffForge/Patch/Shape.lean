import DeepDiffForge.Patch.Document

/-! What every grown document looks like: the lines it was grown from, in order, and sections
whose parts were all read by their rules. -/

namespace DeepDiffForge.Patch
open Text DeepDiffForge.Core

def HunkText.within (hunk : HunkText) : Prop :=
  oldUsed hunk.body ≤ hunk.header.oldCount ∧ newUsed hunk.body ≤ hunk.header.newCount

def BodyLine.endsBefore (earlier later : BodyLine) : Prop :=
  earlier.marker.isSome →
    ¬(onOld earlier.kind ∧ onOld later.kind) ∧ ¬(onNew earlier.kind ∧ onNew later.kind)

structure Section.Shaped (part : Section) : Prop where
  named : ∀ git ∈ part.opening, gitNames git.rest part.p0 = some git.names
  traditional : part.git = false → part.oldName.isSome ∧ part.extended = []
  old : ∀ line ∈ part.oldName, trimmed line.text = "--- ".toList ++ line.rest ∧
    headerName line.rest (!part.git && !hadCr line.text) = some line.name
  new : ∀ line ∈ part.newName, trimmed line.text = "+++ ".toList ++ line.rest ∧
    headerName line.rest (!part.git && !hadCr line.text) = some line.name
  paired : part.newName.isSome → part.oldName.isSome
  extended : ∀ line ∈ part.extended, readsExtended (trimmed line) = true
  binary : ∀ line ∈ part.binary, isBinaryBodyLine line = true
  binaryHeader : part.binary ≠ [] → part.inBinary = true
  textual : part.inBinary = true → part.past = false ∧ part.trailing = []
  settled : part.awaiting = true → part.hunks = [] ∧ part.openHunk = none ∧ part.trailing = []
  headed : part.hunks ≠ [] ∨ part.openHunk.isSome → part.newName.isSome ∨ part.extended ≠ []
  unbroken : part.openHunk.isSome → part.trailing = []
  opened : ∀ hunk ∈ part.openHunk, hunk.within ∧ (hunk.body ≠ [] → hunk.full = false)
  closed : ∀ hunk ∈ part.hunks, hunk.full = true ∧ hunk.changes = true
  markers : ∀ marker ∈ part.markers, marker.text = eofMarker
  ends : part.bodies.Pairwise BodyLine.endsBefore
  trailing : ∀ line ∈ part.trailing,
    isFraming line.text = true ∧ isExtended (trimmed line.text) = false

structure Document.Shaped (doc : Document) : Prop where
  parts : ∀ part ∈ doc.sections, part.Shaped
  preamble : ∀ line ∈ doc.preamble, isFraming line.text = true
  begun : doc.current = none → doc.closed = []
  /-- Each closed section could end where the next began. -/
  reviewed : ∀ part ∈ doc.closed, part.review.isSome

theorem fits_within (hunk : HunkText) (line : BodyLine) (within : hunk.within)
    (fits : hunk.fits line.kind = true) : (hunk.add line).within := by
  obtain ⟨old, new⟩ := within
  simp only [HunkText.fits, Bool.and_eq_true, Bool.or_eq_true, Bool.not_eq_true',
    decide_eq_true_eq] at fits
  simp only [HunkText.within, HunkText.add, oldUsed, newUsed, List.countP_append,
    List.countP_singleton] at *
  constructor
  · split_ifs with side
    · rcases fits.1 with absent | room
      · simp [absent] at side
      · omega
    · omega
  · split_ifs with side
    · rcases fits.2 with absent | room
      · simp [absent] at side
      · omega
    · omega

theorem unended_endsBefore (part : Section) (line : BodyLine)
    (unended : part.ended line.kind = false) :
    ∀ earlier ∈ part.bodies, earlier.endsBefore line := by
  intro earlier present marked
  simp only [Section.ended, Bool.or_eq_false_iff, Bool.and_eq_false_iff] at unended
  constructor
  · rintro ⟨first, second⟩
    rcases unended.1 with absent | opened
    · simp [absent] at second
    · simp only [Section.endedOld, List.any_eq_false, Bool.and_eq_true, not_and] at opened
      exact opened earlier present marked first
  · rintro ⟨first, second⟩
    rcases unended.2 with absent | opened
    · simp [absent] at second
    · simp only [Section.endedNew, List.any_eq_false, Bool.and_eq_true, not_and] at opened
      exact opened earlier present marked first

theorem endsBefore_snoc (bodies : List BodyLine) (line : BodyLine)
    (pairwise : bodies.Pairwise BodyLine.endsBefore)
    (last : ∀ earlier ∈ bodies, earlier.endsBefore line) :
    (bodies ++ [line]).Pairwise BodyLine.endsBefore := by
  rw [List.pairwise_append]
  exact ⟨pairwise, List.pairwise_singleton _ _, fun earlier present line' eq => by
    rw [List.mem_singleton] at eq
    exact eq ▸ last earlier present⟩

theorem endsBefore_remark (bodies : List BodyLine) (line : BodyLine) (marker : Option InputLine)
    (pairwise : (bodies ++ [line]).Pairwise BodyLine.endsBefore) :
    (bodies ++ [{ line with marker }]).Pairwise BodyLine.endsBefore := by
  rw [List.pairwise_append] at pairwise
  exact endsBefore_snoc bodies _ pairwise.1
    (fun earlier present => pairwise.2.2 earlier present line (List.mem_singleton_self line))

theorem shaped_opens (p0 : Bool) (line : InputLine) (part : Section) (opens : part.Opens p0 line) :
    part.Shaped := by
  cases opens with
  | git line named =>
    constructor <;> simp [Section.git, Section.bodies, Section.markers, Section.awaiting,
      Section.past, Section.inBinary, Section.headers, named]
  | traditional line old named =>
    constructor <;> simp [Section.git, Section.bodies, Section.markers, Section.awaiting,
      Section.past, Section.inBinary, Section.headers, old, named]

theorem past_eq_false (part : Section) :
    part.past = false ↔ part.oldName = none ∧ part.hunks = [] ∧ part.openHunk = none := by
  simp [Section.past, and_assoc]

theorem unheaded_binary (part : Section) (shaped : part.Shaped) (textual : part.inBinary = false) :
    part.binary = [] := by
  by_contra present
  rw [shaped.binaryHeader present] at textual
  cases textual

theorem unnamed_newName (part : Section) (shaped : part.Shaped) (unnamed : part.oldName = none) :
    part.newName = none := by
  rw [← Option.not_isSome_iff_eq_none]
  intro named
  simpa [unnamed] using shaped.paired named

theorem nameLines_cases (part : Section) (shaped : part.Shaped) (settled : part.awaiting = false) :
    (part.oldName = none ∧ part.newName = none) ∨
      ∃ old new, part.oldName = some old ∧ part.newName = some new := by
  cases old : part.oldName with
  | none => exact .inl ⟨rfl, unnamed_newName part shaped old⟩
  | some oldLine =>
    cases new : part.newName with
    | none => simp [Section.awaiting, old, new] at settled
    | some newLine => exact .inr ⟨oldLine, newLine, rfl, rfl⟩

theorem textual_of_past (part : Section) (shaped : part.Shaped) (past : part.past = true) :
    part.inBinary = false := by
  by_contra binary
  rw [Bool.not_eq_false] at binary
  rw [(shaped.textual binary).1] at past
  cases past

theorem mayOpen_iff (part : Section) :
    part.mayOpen = true ↔ part.openHunk = none ∧ part.trailing = [] ∧ part.binary = [] ∧
      (part.newName.isSome = true ∨ part.hunks ≠ [] ∨
        (part.oldName = none ∧ part.extended ≠ [])) := by
  simp [Section.mayOpen, and_assoc, or_assoc]

theorem bodies_of_open (part : Section) (hunk : HunkText) (opened : part.openHunk = some hunk) :
    part.bodies = part.hunks.flatMap (·.body) ++ hunk.body := by
  simp [Section.bodies, opened]

theorem bodies_of_closed (part : Section) (unopened : part.openHunk = none) :
    part.bodies = part.hunks.flatMap (·.body) := by
  simp [Section.bodies, unopened]

theorem shaped_grows (part grown : Section) (input : InputLine) (grows : part.Grows input grown)
    (shaped : part.Shaped) : grown.Shaped := by
  cases grows with
  | extended line git early unbroken textual read =>
    obtain ⟨unnamed, unhunked, unopened⟩ := (past_eq_false part).1 early
    exact { shaped with
      traditional := fun traditional => Bool.noConfusion (git.symm.trans traditional)
      extended := by simpa [or_imp, forall_and, read] using shaped.extended
      binaryHeader := fun present => absurd (unheaded_binary part shaped textual) present
      textual := fun _ => ⟨early, unbroken⟩
      headed := fun _ => .inr (by simp) }
  | binary line binary read =>
    exact { shaped with
      binary := by simpa [or_imp, forall_and, read] using shaped.binary
      binaryHeader := fun _ => binary }
  | oldName line git early unbroken textual old named =>
    obtain ⟨unnamed, unhunked, unopened⟩ := (past_eq_false part).1 early
    exact { shaped with
      traditional := fun traditional => Bool.noConfusion (git.symm.trans traditional)
      old := by
        rintro _ ⟨⟩
        have same : Section.git { part with oldName := some line } = true := git
        exact ⟨old, by simpa [same] using named⟩
      paired := fun _ => rfl
      textual := fun binary => Bool.noConfusion (textual.symm.trans binary)
      settled := fun _ => ⟨unhunked, unopened, unbroken⟩ }
  | newName line awaiting new named =>
    obtain ⟨unhunked, unopened, unbroken⟩ := shaped.settled awaiting
    simp only [Section.awaiting, Bool.and_eq_true] at awaiting
    exact { shaped with
      new := by
        rintro _ ⟨⟩
        exact ⟨new, named⟩
      paired := fun _ => awaiting.1
      settled := by simp [Section.awaiting]
      headed := fun _ => .inl rfl }
  | hunk hunk may textual bare =>
    obtain ⟨unopened, unbroken, _, headed⟩ := (mayOpen_iff part).1 may
    have settled : part.awaiting = false := by
      by_contra awaiting
      rw [Bool.not_eq_false] at awaiting
      obtain ⟨unhunked, _⟩ := shaped.settled awaiting
      simp only [Section.awaiting, Bool.and_eq_true, Option.isNone_iff_eq_none] at awaiting
      rcases headed with named | hunked | ⟨unnamed, _⟩
      · simp [awaiting.2] at named
      · exact hunked unhunked
      · simp [unnamed] at awaiting
    have bodies : Section.bodies { part with openHunk := some hunk } = part.bodies := by
      simp [Section.bodies, unopened, bare]
    exact { shaped with
      textual := fun binary => Bool.noConfusion (textual.symm.trans binary)
      settled := fun awaiting => Bool.noConfusion (settled.symm.trans awaiting)
      headed := fun _ => by
        rcases headed with named | hunked | ⟨_, extended⟩
        · exact .inl named
        · exact shaped.headed (.inl hunked)
        · exact .inr extended
      unbroken := fun _ => unbroken
      opened := by simp [HunkText.within, bare, oldUsed, newUsed]
      markers := by simpa only [Section.markers, bodies] using shaped.markers
      ends := by simpa only [bodies] using shaped.ends }
  | body hunk line opened fits unended unmarked unfilled =>
    have bodies : Section.bodies { part with openHunk := some (hunk.add line) } =
        part.bodies ++ [line] := by
      simp [Section.bodies, opened, HunkText.add]
    have textual := textual_of_past part shaped (by simp [Section.past, opened])
    exact { shaped with
      textual := fun binary => Bool.noConfusion (textual.symm.trans binary)
      settled := fun awaiting => by simpa [opened] using (shaped.settled awaiting).2.1
      headed := fun _ => shaped.headed (.inr (by simp [opened]))
      unbroken := fun _ => shaped.unbroken (by simp [opened])
      opened := by
        rintro _ ⟨⟩
        exact ⟨fits_within hunk line (shaped.opened hunk opened).1 fits, fun _ => unfilled⟩
      markers := by simpa [Section.markers, bodies, unmarked] using shaped.markers
      ends := by
        rw [bodies]
        exact endsBefore_snoc _ _ shaped.ends (unended_endsBefore part line unended) }
  | lastBody hunk line opened fits unended unmarked filled changes =>
    have bodies : Section.bodies
        { part with hunks := part.hunks ++ [hunk.add line], openHunk := none } =
        part.bodies ++ [line] := by
      simp [Section.bodies, opened, HunkText.add]
    have textual := textual_of_past part shaped (by simp [Section.past, opened])
    exact { shaped with
      textual := fun binary => Bool.noConfusion (textual.symm.trans binary)
      settled := fun awaiting => by simpa [opened] using (shaped.settled awaiting).2.1
      headed := fun _ => shaped.headed (.inr (by simp [opened]))
      unbroken := by simp
      opened := by simp
      closed := by simpa [or_imp, forall_and, filled, changes] using shaped.closed
      markers := by simpa [Section.markers, bodies, unmarked] using shaped.markers
      ends := by
        rw [bodies]
        exact endsBefore_snoc _ _ shaped.ends (unended_endsBefore part line unended) }
  | marker hunk line _ text opened unmarked =>
    have textual := textual_of_past part shaped (by simp [Section.past, opened])
    have before := bodies_of_open part _ opened
    have bodies : Section.bodies
        { part with openHunk := some (hunk.add { line with marker := some input }) } =
        part.hunks.flatMap (·.body) ++ hunk.body ++ [{ line with marker := some input }] := by
      simp [Section.bodies, HunkText.add]
    simp only [HunkText.add, ← List.append_assoc] at before
    exact { shaped with
      textual := fun binary => Bool.noConfusion (textual.symm.trans binary)
      settled := fun awaiting => by simpa [opened] using (shaped.settled awaiting).2.1
      headed := fun _ => shaped.headed (.inr (by simp [opened]))
      unbroken := fun _ => shaped.unbroken (by simp [opened])
      opened := by
        rintro _ ⟨⟩
        have old := shaped.opened _ opened
        simpa [HunkText.within, HunkText.full, HunkText.add, oldUsed, newUsed] using old
      markers := by
        have old := shaped.markers
        simp only [Section.markers, before, bodies, List.flatMap_append, List.mem_append] at old ⊢
        rintro found (present | last)
        · exact old found (.inl present)
        · simp only [List.flatMap_singleton, Option.toList_some, List.mem_singleton] at last
          rw [last, text]
      ends := by
        have old := shaped.ends
        rw [before] at old
        rw [bodies]
        exact endsBefore_remark _ _ _ old }
  | lastMarker hunks hunk line _ text unopened unbroken last unmarked =>
    have textual := textual_of_past part shaped (by simp [Section.past, last])
    have before : part.bodies = hunks.flatMap (·.body) ++ hunk.body ++ [line] := by
      simp [Section.bodies, unopened, last, HunkText.add]
    have bodies : Section.bodies
        { part with hunks := hunks ++ [hunk.add { line with marker := some input }] } =
        hunks.flatMap (·.body) ++ hunk.body ++ [{ line with marker := some input }] := by
      simp [Section.bodies, unopened, HunkText.add]
    exact { shaped with
      textual := fun binary => Bool.noConfusion (textual.symm.trans binary)
      settled := fun awaiting => by simpa [last] using (shaped.settled awaiting).1
      headed := fun _ => shaped.headed (.inl (by simp [last]))
      closed := by
        have old := shaped.closed
        simp only [last, List.mem_append, List.mem_singleton, or_imp, forall_and,
          forall_eq] at old ⊢
        simpa [HunkText.full, HunkText.changes, HunkText.add, oldUsed, newUsed] using old
      markers := by
        have old := shaped.markers
        simp only [Section.markers, before, bodies, List.flatMap_append, List.mem_append] at old ⊢
        rintro found (present | last)
        · exact old found (.inl present)
        · simp only [List.flatMap_singleton, Option.toList_some, List.mem_singleton] at last
          rw [last, text]
      ends := by
        have old := shaped.ends
        rw [before] at old
        rw [bodies]
        exact endsBefore_remark _ _ _ old }
  | trailing _ unopened settled textual framing plain moves =>
    exact { shaped with
      textual := fun binary => Bool.noConfusion (textual.symm.trans binary)
      settled := fun awaiting => Bool.noConfusion (settled.symm.trans awaiting)
      unbroken := fun opened => by simp [unopened] at opened
      trailing := by
        have old := shaped.trailing
        simp only [List.mem_append, List.mem_singleton, or_imp, forall_and, forall_eq] at old ⊢
        exact ⟨⟨old.1, framing⟩, old.2, plain⟩ }

theorem lines_add (hunk : HunkText) (line : BodyLine) :
    (hunk.add line).lines = hunk.lines ++ line.lines := by
  simp [HunkText.lines, HunkText.add]

/-- Each line is read where the section's text ends. -/
theorem lines_grows (part grown : Section) (input : InputLine) (grows : part.Grows input grown)
    (shaped : part.Shaped) : grown.lines = part.lines ++ [input] := by
  cases grows with
  | extended line git early unbroken textual read =>
    obtain ⟨unnamed, unhunked, unopened⟩ := (past_eq_false part).1 early
    simp [Section.lines, unnamed, unnamed_newName part shaped unnamed, unhunked, unopened,
      unbroken, unheaded_binary part shaped textual]
  | binary line binary read =>
    obtain ⟨early, unbroken⟩ := shaped.textual binary
    obtain ⟨unnamed, unhunked, unopened⟩ := (past_eq_false part).1 early
    simp [Section.lines, unnamed, unnamed_newName part shaped unnamed, unhunked, unopened,
      unbroken]
  | oldName line git early unbroken textual old named =>
    obtain ⟨unnamed, unhunked, unopened⟩ := (past_eq_false part).1 early
    simp [Section.lines, unnamed, unnamed_newName part shaped unnamed, unhunked, unopened,
      unbroken]
  | newName line awaiting new named =>
    obtain ⟨unhunked, unopened, unbroken⟩ := shaped.settled awaiting
    simp only [Section.awaiting, Bool.and_eq_true, Option.isNone_iff_eq_none] at awaiting
    simp [Section.lines, awaiting.2, unhunked, unopened, unbroken]
  | hunk hunk may textual bare =>
    obtain ⟨unopened, unbroken, _⟩ := (mayOpen_iff part).1 may
    simp [Section.lines, HunkText.lines, unopened, unbroken, bare]
  | body hunk line opened fits unended unmarked unfilled =>
    simp [Section.lines, opened, shaped.unbroken (by simp [opened]), lines_add, BodyLine.lines,
      unmarked]
  | lastBody hunk line opened fits unended unmarked filled changes =>
    simp [Section.lines, opened, shaped.unbroken (by simp [opened]), lines_add, BodyLine.lines,
      unmarked]
  | marker hunk line _ text opened unmarked =>
    simp [Section.lines, opened, shaped.unbroken (by simp [opened]), lines_add, BodyLine.lines,
      unmarked]
  | lastMarker hunks hunk line _ text unopened unbroken last unmarked =>
    simp [Section.lines, unopened, unbroken, last, lines_add, BodyLine.lines, unmarked]
  | trailing _ unopened settled textual framing plain moves =>
    simp [Section.lines]

theorem lines_opens (p0 : Bool) (input : InputLine) (part : Section)
    (opens : part.Opens p0 input) : part.lines = [input] := by
  cases opens <;> simp [Section.lines]

theorem document_shaped_grows (doc next : Document) (input : InputLine)
    (grows : doc.Grows input next) (shaped : doc.Shaped) :
    next.Shaped ∧ next.lines = doc.lines ++ [input] := by
  cases grows with
  | preamble early framing =>
    have closed := shaped.begun early
    refine ⟨{ shaped with preamble := ?_ }, ?_⟩
    · simpa [or_imp, forall_and, framing] using shaped.preamble
    · simp [Document.lines, Document.sections, early, closed]
  | opening part opens ends fresh =>
    refine ⟨{ shaped with parts := ?_, begun := ?_, reviewed := ?_ }, ?_⟩
    · have parts := shaped.parts
      simp only [Document.sections, List.mem_append, or_imp, forall_and, Option.mem_toList]
        at parts ⊢
      exact ⟨parts, by rintro _ ⟨⟩; exact shaped_opens _ _ _ opens⟩
    · simp
    · simp only [List.mem_append, Option.mem_toList, or_imp, forall_and]
      exact ⟨shaped.reviewed, ends⟩
    · simp [Document.lines, Document.sections, lines_opens _ _ _ opens]
  | inside part grown current grows =>
    have present : part ∈ doc.sections := by simp [Document.sections, current]
    have old := shaped.parts part present
    refine ⟨{ shaped with parts := ?_, begun := ?_ }, ?_⟩
    · have parts := shaped.parts
      simp only [Document.sections, List.mem_append, or_imp, forall_and, Option.mem_toList]
        at parts ⊢
      exact ⟨parts.1, by rintro _ ⟨⟩; exact shaped_grows _ _ _ grows old⟩
    · simp
    · simp [Document.lines, Document.sections, current, lines_grows _ _ _ grows old]

theorem shaped_grown (lines : List InputLine) (doc : Document)
    (grown : Document.Grown lines doc) : doc.Shaped ∧ doc.lines = lines := by
  induction grown with
  | empty =>
    exact ⟨⟨by simp [Document.sections], by simp, by simp, by simp⟩, rfl⟩
  | more grown step ih =>
    obtain ⟨shaped, same⟩ := document_shaped_grows _ _ _ step ih.1
    exact ⟨shaped, by rw [same, ih.2]⟩

end DeepDiffForge.Patch
