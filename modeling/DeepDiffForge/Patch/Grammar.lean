import DeepDiffForge.Patch.Reading

/-! The parser reads exactly the grown documents: it takes a line just when the document can grow
by it, and its files are the ones the document's sections give. -/

namespace DeepDiffForge.Patch
open Text DeepDiffForge.Core Fallible

def hunkCount : List Section → Nat
  | [] => 0
  | part :: parts => part.hunks.length + hunkCount parts

theorem hunkCount_append (first second : List Section) :
    hunkCount (first ++ second) = hunkCount first + hunkCount second := by
  induction first with
  | nil => simp [hunkCount]
  | cons part first ih => simp only [List.cons_append, hunkCount, ih, Nat.add_assoc]

theorem reviewFrom_append (id : HunkId) (first second : List Section) :
    reviewFrom id (first ++ second) =
      (reviewFrom id first).bind fun files =>
        (reviewFrom (id + hunkCount first) second).map (files ++ ·) := by
  induction first generalizing id with
  | nil => simp [reviewFrom, hunkCount]
  | cons part first ih =>
    simp only [List.cons_append, reviewFrom, ih, hunkCount, ← Nat.add_assoc, Option.bind_eq_bind, Option.pure_def]
    cases part.review with
    | none => rfl
    | some file =>
      simp only [Option.bind_some]
      cases reviewFrom (id + part.hunks.length) first with
      | none => rfl
      | some files =>
        simp only [Option.bind_some]
        cases reviewFrom _ second <;> rfl

structure Parser.Reads (parser : Parser) (doc : Document) : Prop where
  files : reviewFrom 0 doc.closed = some parser.files
  idle : doc.current = none → parser.file = none ∧ parser.hunk = none ∧ parser.nextHunkId = 0 ∧
    parser.canMarkEof = false ∧ parser.hunkMayOpen = false ∧ parser.p0 = doc.p0
  inside : ∀ part ∈ doc.current, parser.ReadsPart (hunkCount doc.closed) part ∧
    part.p0 = (doc.p0 || doc.closed.any Section.guesses)

theorem reads_p0 (parser : Parser) (doc : Document) (reads : parser.Reads doc)
    (shaped : doc.Shaped) : parser.p0 = doc.guessed := by
  cases current : doc.current with
  | none =>
    rw [(reads.idle current).2.2.2.2.2]
    simp [Document.guessed, Document.sections, current, shaped.begun current]
  | some part =>
    obtain ⟨inside, p0⟩ := reads.inside part current
    rw [inside.p0, p0]
    simp [Document.guessed, Document.sections, current, Bool.or_assoc]

theorem review_ends (part : Section) (ends : part.review.isSome) :
    part.openHunk = none ∧ part.awaiting = false := by
  simp only [Section.review] at ends
  split_ifs at ends with opened
  · simp at ends
  · refine ⟨by simpa using opened, ?_⟩
    by_contra awaiting
    have waits : part.buf.awaitingNewHeader = true := eq_true_of_ne_false awaiting
    simp [FileBuf.finished, waits] at ends

theorem flushFile_reads (parser : Parser) (doc : Document) (reads : parser.Reads doc)
    (lineNumber : Nat) (ends : ∀ last ∈ doc.current, last.review.isSome) :
    ∃ files, reviewFrom 0 doc.sections = some files ∧
      (parser.readying lineNumber).flushFile =
        .ok { parser.readying lineNumber with file := none, files } := by
  cases current : doc.current with
  | none =>
    refine ⟨parser.files, by simpa [Document.sections, current] using reads.files, ?_⟩
    have idle := (reads.idle current).1
    simp only [Parser.flushFile, Parser.readying, idle]
  | some part =>
    obtain ⟨inside, _⟩ := reads.inside part current
    obtain ⟨reviewed, review⟩ := Option.isSome_iff_exists.1 (ends part current)
    obtain ⟨first, eofOld, eofNew, held, _⟩ := inside.file
    have unopened := (review_ends part (ends part current)).1
    have finishes : (part.buf.renumber (hunkCount doc.closed) first eofOld eofNew).finish
        lineNumber = .ok (shiftFile (hunkCount doc.closed) reviewed) := by
      rw [finish_eq_ok, finished_renumber]
      simp only [Section.review, unopened, Option.isSome_none, Bool.false_eq_true, if_false]
        at review
      rw [review, Option.map_some]
    refine ⟨parser.files ++ [shiftFile (hunkCount doc.closed) reviewed], ?_, ?_⟩
    · rw [Document.sections, reviewFrom_append, reads.files, current]
      simp [reviewFrom, review]
    · simp only [Parser.flushFile, Parser.readying, held, finishes, bind, Except.bind]
      rfl

def Parser.ReadsTo (parser : Parser) (input : InputLine) (lineNumber : Nat) (next : Document) :
    Prop :=
  ∃ after, parser.step input.text lineNumber input.lossy = .ok after ∧ after.Reads next ∧
    after.unterminatedLast = parser.unterminatedLast

theorem reads_inside (parser : Parser) (doc : Document) (part grown : Section) (input : InputLine)
    (lineNumber : Nat) (reads : parser.Reads doc) (shaped : doc.Shaped)
    (terminated : input.terminated = true → parser.unterminatedLast ≠ some lineNumber)
    (current : doc.current = some part) (grows : part.Grows input grown) :
    parser.ReadsTo input lineNumber { doc with current := some grown } := by
  obtain ⟨inside, p0⟩ := reads.inside part current
  have present : part ∈ doc.sections := by simp [Document.sections, current]
  obtain ⟨after, step, further, files, unterminated⟩ := reads_grows parser _ part grown input
    lineNumber inside (shaped.parts part present) terminated grows
  have same : grown.p0 = part.p0 := by cases grows <;> rfl
  refine ⟨after, step, ⟨by rw [files]; exact reads.files, by simp, ?_⟩, unterminated⟩
  rintro _ ⟨⟩
  exact ⟨further, by rw [same, p0]⟩

theorem reads_preamble (parser : Parser) (doc : Document) (line : InputLine) (lineNumber : Nat)
    (reads : parser.Reads doc) (early : doc.current = none)
    (framing : isFraming line.text = true) :
    parser.ReadsTo line lineNumber { doc with preamble := doc.preamble ++ [line] } := by
  obtain ⟨idle, unopened, next, _, _, p0⟩ := reads.idle early
  have dispatch := dispatch_framing (parser.readying lineNumber) line.text lineNumber
    parser.hunkMayOpen framing (by simp [Parser.readying, idle]) (by simp [Parser.readying, idle])
    (by simp [Parser.readying, idle])
  have step := step_framing parser line.text lineNumber line.lossy framing unopened dispatch
  refine ⟨_, step, ⟨reads.files, fun _ => ?_, by simp [early]⟩, rfl⟩
  exact ⟨by simp [idle], unopened, next, rfl, rfl, p0⟩

theorem hunk_of_ends (parser : Parser) (doc : Document) (reads : parser.Reads doc)
    (ends : ∀ last ∈ doc.current, last.review.isSome) : parser.hunk = none := by
  cases current : doc.current with
  | none => exact (reads.idle current).2.1
  | some part =>
    rw [(reads.inside part current).1.hunk, (review_ends part (ends part current)).1,
      Option.map_none]

theorem next_of_ends (parser : Parser) (doc : Document) (reads : parser.Reads doc)
    (shaped : doc.Shaped) (ends : ∀ last ∈ doc.current, last.review.isSome) :
    parser.nextHunkId = hunkCount doc.sections := by
  cases current : doc.current with
  | none =>
    rw [(reads.idle current).2.2.1]
    simp [Document.sections, current, shaped.begun current, hunkCount]
  | some part =>
    rw [(reads.inside part current).1.next, (review_ends part (ends part current)).1]
    simp [Document.sections, current, hunkCount_append, hunkCount]

theorem readsPart_opening (parser : Parser) (base : HunkId) (part : Section) (first : Nat)
    (held : parser.file = some (part.buf.renumber base first none none))
    (unhunked : part.hunks = []) (unopened : part.openHunk = none) (bare : part.newName = none)
    (early : part.extended = []) (closed : parser.hunk = none)
    (next : parser.nextHunkId = base) (marks : parser.canMarkEof = false)
    (may : parser.hunkMayOpen = false) (p0 : parser.p0 = part.p0) : parser.ReadsPart base part where
  file := ⟨first, none, none, held, by simp [Section.endedOld, Section.bodies, unhunked, unopened],
    by simp [Section.endedNew, Section.bodies, unhunked, unopened]⟩
  hunk := by rw [closed, unopened, Option.map_none]
  next := by simp [next, unhunked, unopened]
  canMark := by simp [marks, Section.canMark, Section.lastHunk, unhunked, unopened]
  mayOpen := by simp [may, Section.mayOpen, unhunked, bare, early]
  p0 := by simp [p0, Section.guesses, bare]

theorem opened_git_plain (line : GitLine) :
    startsWith ['\\'] line.text = false ∧ startsWith "diff --cc ".toList line.text = false ∧
      startsWith "diff --combined ".toList line.text = false ∧
      stripPrefix "diff --git ".toList line.text = some line.rest := by
  have begins : startsWith "diff --git ".toList line.text = true := startsWith_append _ _
  exact ⟨startsWith_apart _ _ _ begins (by decide), startsWith_apart _ _ _ begins (by decide),
    startsWith_apart _ _ _ begins (by decide), stripPrefix_append _ _⟩

theorem reads_git (parser : Parser) (doc : Document) (line : GitLine) (lineNumber : Nat)
    (reads : parser.Reads doc) (shaped : doc.Shaped)
    (terminated : parser.unterminatedLast ≠ some lineNumber)
    (named : gitNames line.rest doc.guessed = some line.names)
    (ends : ∀ last ∈ doc.current, last.review.isSome) :
    parser.ReadsTo (writtenLine line.text) lineNumber
      { doc with
        closed := doc.closed ++ doc.current.toList
        current := some { p0 := doc.guessed, opening := some line } } := by
  obtain ⟨plain, uncc, uncombined, stripped⟩ := opened_git_plain line
  have p0 := reads_p0 parser doc reads shaped
  have unopened := hunk_of_ends parser doc reads ends
  obtain ⟨files, reviewed, flushed⟩ := flushFile_reads parser doc reads lineNumber ends
  have dispatch : (parser.readying lineNumber).dispatchNonBody line.text lineNumber
      parser.hunkMayOpen = .ok ({ parser.readying lineNumber with
        files
        file := some { git := true, p0 := doc.guessed, firstLine := lineNumber,
                       gitOld := line.names.1, gitNew := line.names.2 } }, .interpreted) := by
    have closes : (parser.readying lineNumber).closeHunk lineNumber =
        .ok (parser.readying lineNumber) := by
      simp only [Parser.closeHunk, Parser.readying, unopened]
    have same : (parser.readying lineNumber).p0 = doc.guessed := p0
    simp only [Parser.dispatchNonBody, uncc, uncombined, Bool.or_self, Bool.false_eq_true, if_false,
      stripped, Parser.startGitFile, closes, flushed, bind, Except.bind, same, named]
    rfl
  refine ⟨_, step_interpreted parser _ line.text lineNumber plain unopened terminated dispatch rfl,
    ⟨reviewed, by simp, ?_⟩, rfl⟩
  rintro _ ⟨⟩
  refine ⟨readsPart_opening _ _ _ lineNumber rfl rfl rfl rfl rfl unopened
    (next_of_ends parser doc reads shaped ends) rfl rfl p0, rfl⟩

theorem traditionalNames_isSome (old new : Str) (p0 oldEpoch newEpoch newQuoted : Bool) :
    (traditionalNames old new p0 oldEpoch newEpoch newQuoted).1.isSome = true ∧
      (traditionalNames old new p0 oldEpoch newEpoch newQuoted).2.1.isSome = true := by
  simp only [traditionalNames]
  split_ifs <;> simp

theorem names_isSome (part : Section) :
    part.names.1.isSome = part.oldName.isSome ∧ part.names.2.1.isSome = part.newName.isSome := by
  simp only [Section.names]
  split
  · rename_i unopened present presented
    rw [presented, present]
    exact traditionalNames_isSome _ _ _ _ _ _
  · simp

theorem needsNew_buf (part : Section) (base first : Nat) (eofOld eofNew : Option Nat) :
    ((part.buf.renumber base first eofOld eofNew).newRaw.isSome ||
      (part.buf.renumber base first eofOld eofNew).hunks ≠ []) = part.needsNew := by
  have named : (part.buf.renumber base first eofOld eofNew).newRaw = part.names.2.1 := rfl
  have hunks : decide ((part.buf.renumber base first eofOld eofNew).hunks = []) =
      decide (part.hunks = []) := by
    rw [hunks_renumber_eq_nil, decide_eq_decide]
    exact numberHunks_eq_nil 0 part.hunks
  rw [named, (names_isSome part).2, Section.needsNew, decide_not, decide_not, hunks]

theorem reads_traditional (parser : Parser) (doc : Document) (line : NameLine) (lineNumber : Nat)
    (reads : parser.Reads doc) (shaped : doc.Shaped)
    (terminated : parser.unterminatedLast ≠ some lineNumber)
    (old : trimmed line.text = "--- ".toList ++ line.rest)
    (named : headerName line.rest (!hadCr line.text) = some line.name)
    (ends : ∀ last ∈ doc.current, last.review.isSome)
    (fresh : ∀ last ∈ doc.current, last.needsNew = true) :
    parser.ReadsTo (writtenLine line.text) lineNumber
      { doc with
        closed := doc.closed ++ doc.current.toList
        current := some { p0 := doc.guessed, oldName := some line } } := by
  obtain ⟨plain, undiff⟩ := name_plain line _ old (by decide)
  have p0 := reads_p0 parser doc reads shaped
  have unopened := hunk_of_ends parser doc reads ends
  obtain ⟨files, reviewed, flushed⟩ := flushFile_reads parser doc reads lineNumber ends
  have dispatch : (parser.readying lineNumber).dispatchNonBody line.text lineNumber
      parser.hunkMayOpen = .ok ({ parser.readying lineNumber with
        files
        file := some { firstLine := lineNumber, oldRaw := some line.name,
                       oldEpoch := !hadCr line.text && hasEpochTimestamp line.rest,
                       awaitingNewHeader := true, pastHeaders := true } }, .interpreted) := by
    have closes : (parser.readying lineNumber).closeHunk lineNumber =
        .ok (parser.readying lineNumber) := by
      simp only [Parser.closeHunk, Parser.readying, unopened]
    obtain ⟨textual, settled, needs⟩ : parser.file.any (·.inBinaryBody) = false ∧
        parser.file.any (·.awaitingNewHeader) = false ∧
        (parser.file.isNone || parser.file.any fun file =>
          file.newRaw.isSome || file.hunks ≠ []) = true := by
      cases current : doc.current with
      | none => simp [(reads.idle current).1]
      | some part =>
        obtain ⟨first, eofOld, eofNew, held, _⟩ := (reads.inside part current).1.file
        have inside : part.Shaped := shaped.parts part (by simp [Document.sections, current])
        have new := fresh part current
        have past : part.past = true := by
          simp only [Section.needsNew, Bool.or_eq_true] at new
          rcases new with presented | hunked
          · simp [Section.past, inside.paired presented]
          · simp only [Section.past, hunked, Bool.or_true, Bool.true_or]
        rw [held]
        refine ⟨textual_of_past part inside past, (review_ends part (ends part current)).2, ?_⟩
        rw [Option.any_some, needsNew_buf, new, Bool.or_true]
    have same : (parser.readying lineNumber).file = parser.file := rfl
    rw [dispatchNonBody_header (parser.readying lineNumber) _ _ _ undiff textual, old]
    simp only [Parser.dispatchHeader, same, settled, Bool.false_and, Bool.false_eq_true, if_false,
      stripPrefix_append, Parser.onOldHeader, closes, needs, if_true, flushed, bind, Except.bind,
      FileBuf.onOldHeader, Option.isSome_none, Bool.or_self, named, Bool.not_false, Bool.true_and,
      pure, Except.pure]
  refine ⟨_, step_interpreted parser _ line.text lineNumber plain unopened terminated dispatch rfl,
    ⟨reviewed, by simp, ?_⟩, rfl⟩
  rintro _ ⟨⟩
  refine ⟨readsPart_opening _ _ _ lineNumber rfl rfl rfl rfl rfl unopened
    (next_of_ends parser doc reads shaped ends) rfl rfl p0, rfl⟩

theorem reads_next (parser : Parser) (doc next : Document) (input : InputLine) (lineNumber : Nat)
    (reads : parser.Reads doc) (shaped : doc.Shaped)
    (terminated : input.terminated = true → parser.unterminatedLast ≠ some lineNumber)
    (grows : doc.Grows input next) : parser.ReadsTo input lineNumber next := by
  cases grows with
  | preamble early framing => exact reads_preamble parser doc input lineNumber reads early framing
  | opening part opens ends fresh =>
    cases opens with
    | git line named =>
      exact reads_git parser doc line lineNumber reads shaped (terminated rfl) named ends
    | traditional line old named =>
      refine reads_traditional parser doc line lineNumber reads shaped (terminated rfl) old named
        ends fun last present => ?_
      exact (fresh last present).resolve_left (by simp [Section.git])
  | inside part grown current grows =>
    exact reads_inside parser doc part grown input lineNumber reads shaped terminated current grows

/-- A flush that succeeds ends the section well. -/
theorem ends_of_flush (parser flushed : Parser) (doc : Document) (lineNumber : Nat)
    (reads : parser.Reads doc) (unopened : parser.hunk = none)
    (ok : (parser.readying lineNumber).flushFile = .ok flushed) :
    ∀ last ∈ doc.current, last.review.isSome := by
  intro part current
  obtain ⟨inside, _⟩ := reads.inside part current
  obtain ⟨first, eofOld, eofNew, held, _⟩ := inside.file
  have closed : part.openHunk = none := by
    have same := inside.hunk
    rw [unopened, eq_comm, Option.map_eq_none_iff] at same
    exact same
  simp only [Parser.flushFile, Parser.readying, held] at ok
  rw [bind_eq_ok] at ok
  obtain ⟨reviewed, finishes, _⟩ := ok
  rw [finish_eq_ok, finished_renumber, Option.map_eq_some_iff] at finishes
  obtain ⟨file, finished, _⟩ := finishes
  simp [Section.review, closed, finished]

theorem onOldHeader_ok (file after : FileBuf) (rest : Str) (hadCr : Bool) (lineNumber : Nat)
    (ok : file.onOldHeader rest hadCr lineNumber = .ok after) :
    file.oldRaw = none ∧ file.headerEnded = false ∧
      ∃ name, headerName rest (!file.git && !hadCr) = some name := by
  simp only [FileBuf.onOldHeader] at ok
  by_cases misplaced : (file.oldRaw.isSome || file.headerEnded) = true
  · rw [if_pos misplaced] at ok
    cases ok
  · rw [if_neg misplaced] at ok
    rw [Bool.not_eq_true, Bool.or_eq_false_iff] at misplaced
    refine ⟨by simpa using misplaced.1, misplaced.2, ?_⟩
    cases named : headerName rest (!file.git && !hadCr) with
    | none =>
      rw [named] at ok
      cases ok
    | some name => exact ⟨name, rfl⟩

theorem grows_of_onOldHeader (parser after : Parser) (doc : Document) (line rest : Str)
    (lineNumber : Nat) (reads : parser.Reads doc) (shaped : doc.Shaped)
    (unopened : parser.hunk = none) (textual : ∀ part ∈ doc.current, part.inBinary = false)
    (old : trimmed line = "--- ".toList ++ rest)
    (ok : (parser.readying lineNumber).onOldHeader rest (hadCr line) lineNumber = .ok after) :
    ∃ next, doc.Grows (writtenLine line) next := by
  have closes : (parser.readying lineNumber).closeHunk lineNumber =
      .ok (parser.readying lineNumber) := by
    simp only [Parser.closeHunk, Parser.readying, unopened]
  have same : (parser.readying lineNumber).file = parser.file := rfl
  simp only [Parser.onOldHeader] at ok
  rw [closes, bind_eq_ok] at ok
  obtain ⟨_, ⟨⟩, ok⟩ := ok
  simp only [same] at ok
  by_cases fresh : (parser.file.isNone || parser.file.any fun file =>
      file.newRaw.isSome || file.hunks ≠ []) = true
  · rw [if_pos fresh, bind_eq_ok] at ok
    obtain ⟨flushed, flush, ok⟩ := ok
    have ends := ends_of_flush parser flushed doc lineNumber reads unopened flush
    rw [bind_eq_ok] at ok
    obtain ⟨_, ⟨⟩, ok⟩ := ok
    simp only [bind_eq_ok] at ok
    obtain ⟨_, headed, _⟩ := ok
    obtain ⟨_, _, name, named⟩ := onOldHeader_ok _ _ _ _ _ headed
    refine ⟨_, .opening doc _ _ (.traditional { text := line, rest, name } old named) ends ?_⟩
    intro part current
    obtain ⟨inside, _⟩ := reads.inside part current
    obtain ⟨first, eofOld, eofNew, held, _⟩ := inside.file
    rw [held, Option.isNone_some, Bool.false_or, Option.any_some, needsNew_buf] at fresh
    exact .inr fresh
  · rw [if_neg fresh, bind_eq_ok] at ok
    obtain ⟨_, ⟨⟩, ok⟩ := ok
    rw [Bool.not_eq_true, Bool.or_eq_false_iff] at fresh
    cases current : doc.current with
    | none => simp [(reads.idle current).1] at fresh
    | some part =>
      obtain ⟨inside, _⟩ := reads.inside part current
      obtain ⟨first, eofOld, eofNew, held, _⟩ := inside.file
      have partShaped : part.Shaped := shaped.parts part (by simp [Document.sections, current])
      simp only [same, held, bind_eq_ok] at ok
      obtain ⟨_, headed, _⟩ := ok
      obtain ⟨unnamed, unbroken, name, named⟩ := onOldHeader_ok _ _ _ _ _ headed
      have bare : part.oldName = none := by
        have isSome := (names_isSome part).1
        rw [show part.names.1 = none from unnamed] at isSome
        simpa using isSome.symm
      have git : part.git = true := by
        by_contra traditional
        have named := (partShaped.traditional (eq_false_of_ne_true traditional)).1
        simp [bare] at named
      rw [held, Option.any_some, needsNew_buf] at fresh
      simp only [Section.needsNew, Bool.or_eq_false_iff, decide_eq_false_iff_not, not_not]
        at fresh
      have closed : part.openHunk = none := by
        have same := inside.hunk
        rw [unopened, eq_comm, Option.map_eq_none_iff] at same
        exact same
      have early : part.past = false := by
        rw [past_eq_false]
        exact ⟨bare, fresh.2.2, closed⟩
      have unended : part.trailing = [] := by
        have ended : (part.git && !part.past && decide (part.trailing ≠ [])) = false := unbroken
        simpa [git, early] using ended
      have isGit : (part.buf.renumber (hunkCount doc.closed) first eofOld eofNew).git = true := git
      rw [isGit] at named
      exact ⟨_, .inside doc _ part _ current (.oldName part { text := line, rest, name } git early
        unended (textual part current) old named)⟩

theorem grows_of_startGitFile (parser after : Parser) (doc : Document) (rest : Str)
    (lineNumber : Nat) (reads : parser.Reads doc) (shaped : doc.Shaped)
    (unopened : parser.hunk = none)
    (ok : (parser.readying lineNumber).startGitFile rest lineNumber = .ok after) :
    ∃ next, doc.Grows (writtenLine ("diff --git ".toList ++ rest)) next := by
  have closes : (parser.readying lineNumber).closeHunk lineNumber =
      .ok (parser.readying lineNumber) := by
    simp only [Parser.closeHunk, Parser.readying, unopened]
  simp only [Parser.startGitFile] at ok
  rw [closes, bind_eq_ok] at ok
  obtain ⟨_, ⟨⟩, ok⟩ := ok
  rw [bind_eq_ok] at ok
  obtain ⟨flushed, flush, ok⟩ := ok
  have ends := ends_of_flush parser flushed doc lineNumber reads unopened flush
  obtain ⟨files, _, flushes⟩ := flushFile_reads parser doc reads lineNumber ends
  rw [flush] at flushes
  cases flushes
  cases named : gitNames rest parser.p0 with
  | none =>
    simp only [Parser.readying, named] at ok
    cases ok
  | some names =>
    rw [reads_p0 parser doc reads shaped] at named
    exact ⟨_, .opening doc _ _ (.git { rest, names } named) ends fun _ _ => .inl rfl⟩

theorem grows_of_onNewHeader (parser after : Parser) (doc : Document) (line rest : Str)
    (lineNumber : Nat) (reads : parser.Reads doc) (new : trimmed line = "+++ ".toList ++ rest)
    (ok : (parser.readying lineNumber).onNewHeader rest (hadCr line) lineNumber = .ok after) :
    ∃ next, doc.Grows (writtenLine line) next := by
  have same : (parser.readying lineNumber).file = parser.file := rfl
  cases current : doc.current with
  | none =>
    simp only [Parser.onNewHeader, same, (reads.idle current).1] at ok
    cases ok
  | some part =>
    obtain ⟨first, eofOld, eofNew, held, _⟩ := (reads.inside part current).1.file
    have waits : (part.buf.renumber (hunkCount doc.closed) first eofOld eofNew).awaitingNewHeader =
      part.awaiting := rfl
    have git : (part.buf.renumber (hunkCount doc.closed) first eofOld eofNew).git = part.git := rfl
    simp only [Parser.onNewHeader, same, held, waits] at ok
    by_cases awaiting : part.awaiting = true
    · simp only [awaiting, Bool.not_true, Bool.false_eq_true, if_false, bind_eq_ok] at ok
      obtain ⟨file, headed, _⟩ := ok
      cases named : headerName rest (!part.git && !hadCr line) with
      | none =>
        simp only [FileBuf.onNewHeader, git, named] at headed
        cases headed
      | some name =>
        exact ⟨_, .inside doc _ part _ current
          (.newName part { text := line, rest, name } awaiting new named)⟩
    · simp only [awaiting, Bool.not_false, if_true] at ok
      cases ok

theorem grows_of_openHunk (parser after : Parser) (doc : Document) (line : Str)
    (lineNumber : Nat) (reads : parser.Reads doc)
    (textual : ∀ part ∈ doc.current, part.inBinary = false)
    (ok : (parser.readying lineNumber).openHunk (trimmed line) lineNumber parser.hunkMayOpen =
      .ok after) :
    ∃ next, doc.Grows (writtenLine line) next := by
  have same : (parser.readying lineNumber).file = parser.file := rfl
  simp only [Parser.openHunk, same] at ok
  cases read : parseHunkHeader (trimmed line) with
  | none =>
    rw [read] at ok
    cases ok
  | some header =>
    rw [read] at ok
    cases current : doc.current with
    | none =>
      simp only [(reads.idle current).1, Option.filter_none] at ok
      cases ok
    | some part =>
      obtain ⟨inside, _⟩ := reads.inside part current
      obtain ⟨first, eofOld, eofNew, held, _⟩ := inside.file
      by_cases may : part.mayOpen = true
      · exact ⟨_, .inside doc _ part _ current
          (.hunk part { opening := line, header, body := [], read } may (textual part current) rfl)⟩
      · simp only [held, inside.mayOpen, may, Option.filter, Bool.false_eq_true, if_false] at ok
        cases ok

theorem grows_of_metadata (parser : Parser) (doc : Document) (line : Str) (lineNumber : Nat)
    (part : Section) (file : FileBuf) (read : FileBuf) (reads : parser.Reads doc)
    (shaped : doc.Shaped) (current : doc.current = some part)
    (textual : part.inBinary = false) (held : parser.file = some file)
    (ok : file.tryMetadata (trimmed line) lineNumber = .ok (some read)) :
    ∃ next, doc.Grows (writtenLine line) next := by
  obtain ⟨inside, _⟩ := reads.inside part current
  obtain ⟨first, eofOld, eofNew, same, _⟩ := inside.file
  rw [held, Option.some.injEq] at same
  have partShaped : part.Shaped := shaped.parts part (by simp [Document.sections, current])
  rcases tryMetadata_cases _ _ _ _ ok with ⟨early, unended, reads⟩ | ⟨plain, moves⟩
  · rw [same] at early unended
    have early' : part.past = false := early
    have git : part.git = true := by
      by_contra traditional
      have named := (partShaped.traditional (eq_false_of_ne_true traditional)).1
      simp [((past_eq_false part).1 early').1] at named
    have unbroken : part.trailing = [] := by
      have ended : (part.git && !part.past && decide (part.trailing ≠ [])) = false := unended
      simpa [git, early'] using ended
    exact ⟨_, .inside doc _ part _ current
      (.extended part line git early' unbroken textual reads)⟩
  · rw [tryMetadata_plain _ _ _ plain moves] at ok
    cases ok

theorem grows_of_framing (parser : Parser) (doc : Document) (input : InputLine) (lineNumber : Nat)
    (reads : parser.Reads doc) (unopened : parser.hunk = none)
    (textual : ∀ part ∈ doc.current, part.inBinary = false)
    (settled : parser.file.any (·.awaitingNewHeader) = false)
    (framing : isFraming input.text = true)
    (plain : ∀ file ∈ parser.file, file.tryMetadata (trimmed input.text) lineNumber = .ok none) :
    ∃ next, doc.Grows input next := by
  cases current : doc.current with
  | none => exact ⟨_, .preamble doc input current framing⟩
  | some part =>
    obtain ⟨inside, _⟩ := reads.inside part current
    obtain ⟨first, eofOld, eofNew, held, _⟩ := inside.file
    have closed : part.openHunk = none := by
      have same := inside.hunk
      rw [unopened, eq_comm, Option.map_eq_none_iff] at same
      exact same
    rw [held, Option.any_some] at settled
    have absent := plain _ held
    rcases tryMetadata_cases _ _ _ _ absent with ⟨early, unended, reads⟩ | ⟨plain, moves⟩
    · rw [tryMetadata_read _ _ _ early unended reads] at absent
      cases absent
    · exact ⟨_, .inside doc _ part _ current
        (.trailing part input closed settled (textual part current) framing plain moves)⟩

theorem framing_of_ignored (parser after : Parser) (line : Str) (lineNumber : Nat)
    (used : LineUse) (plain : startsWith ['\\'] line = false) (undiff : opensDiff line = false)
    (old : stripPrefix "--- ".toList (trimmed line) = none)
    (new : stripPrefix "+++ ".toList (trimmed line) = none)
    (hunk : startsWith "@@".toList (trimmed line) = false)
    (ok : (if trimmed line = "---".toList || trimmed line = "-- ".toList then
        (pure (parser, .ignored) : Except PatchParseError (Parser × LineUse))
      else if startsWith ['+'] (trimmed line) || startsWith ['-'] (trimmed line) then
        .error (.bodyLineOutsideHunk lineNumber (trimmed line))
      else pure (parser, .ignored)) = .ok (after, used)) :
    isFraming line = true ∧ used = .ignored := by
  rw [stripPrefix_eq_none] at old new
  simp only [isFraming, plain, undiff, old, new, hunk, Bool.not_false, Bool.true_and]
  by_cases framed : (trimmed line = "---".toList || trimmed line = "-- ".toList) = true
  · rw [framed, Bool.true_or]
    rw [if_pos framed] at ok
    cases ok
    exact ⟨rfl, rfl⟩
  · rw [if_neg framed] at ok
    by_cases signed : (startsWith ['+'] (trimmed line) || startsWith ['-'] (trimmed line)) = true
    · rw [if_pos signed] at ok
      cases ok
    · rw [if_neg signed] at ok
      cases ok
      rw [eq_false_of_ne_true signed, Bool.not_false, Bool.or_true]
      exact ⟨rfl, rfl⟩

theorem grows_of_dispatchHeader (parser after : Parser) (doc : Document) (line : Str)
    (lineNumber : Nat) (used : LineUse) (reads : parser.Reads doc) (shaped : doc.Shaped)
    (plain : startsWith ['\\'] line = false) (undiff : opensDiff line = false)
    (unopened : parser.hunk = none) (textual : ∀ part ∈ doc.current, part.inBinary = false)
    (ok : (parser.readying lineNumber).dispatchHeader (trimmed line) (hadCr line) lineNumber
      parser.hunkMayOpen = .ok (after, used)) :
    (used = .interpreted ∧ ∃ next, doc.Grows (writtenLine line) next) ∨
      (used = .ignored ∧ ∀ input : InputLine, input.text = line → ∃ next, doc.Grows input next) := by
  have same : (parser.readying lineNumber).file = parser.file := rfl
  simp only [Parser.dispatchHeader, same] at ok
  by_cases waits : (parser.file.any (·.awaitingNewHeader) &&
      !startsWith "+++ ".toList (trimmed line)) = true
  · rw [if_pos waits] at ok
    cases ok
  rw [if_neg waits] at ok
  cases old : stripPrefix "--- ".toList (trimmed line) with
  | some rest =>
    simp only [old, bind_eq_ok] at ok
    obtain ⟨_, headed, ⟨⟩⟩ := ok
    exact .inl ⟨rfl, grows_of_onOldHeader parser _ doc line rest lineNumber reads shaped unopened
      textual ((stripPrefix_eq_some _ _ _).1 old) headed⟩
  | none =>
  cases new : stripPrefix "+++ ".toList (trimmed line) with
  | some rest =>
    simp only [old, new, bind_eq_ok] at ok
    obtain ⟨_, headed, ⟨⟩⟩ := ok
    exact .inl ⟨rfl, grows_of_onNewHeader parser _ doc line rest lineNumber reads
      ((stripPrefix_eq_some _ _ _).1 new) headed⟩
  | none =>
  simp only [old, new] at ok
  by_cases hunk : startsWith "@@".toList (trimmed line) = true
  · simp only [hunk, if_true, bind_eq_ok] at ok
    obtain ⟨_, opens, ⟨⟩⟩ := ok
    exact .inl ⟨rfl, grows_of_openHunk parser _ doc line lineNumber reads textual opens⟩
  rw [if_neg hunk] at ok
  rw [Bool.not_eq_true] at hunk
  cases current : doc.current with
  | none =>
    have idle := (reads.idle current).1
    simp only [idle, bind_eq_ok] at ok
    obtain ⟨_, ⟨⟩, ok⟩ := ok
    obtain ⟨framing, ignored⟩ := framing_of_ignored _ _ _ _ _ plain undiff old new hunk ok
    refine .inr ⟨ignored, fun input text => ⟨_, .preamble doc input current ?_⟩⟩
    rw [text]
    exact framing
  | some part =>
    obtain ⟨first, eofOld, eofNew, held, _⟩ := (reads.inside part current).1.file
    simp only [held, bind_eq_ok] at ok
    obtain ⟨read, tried, ok⟩ := ok
    cases read with
    | some file =>
      cases ok
      exact .inl ⟨rfl, grows_of_metadata parser doc line lineNumber part _ file reads shaped current
        (textual part current) held tried⟩
    | none =>
      obtain ⟨framing, ignored⟩ := framing_of_ignored _ _ _ _ _ plain undiff old new hunk ok
      refine .inr ⟨ignored, fun input text => ?_⟩
      subst text
      have settled : parser.file.any (·.awaitingNewHeader) = false := by
        rw [stripPrefix_eq_none] at new
        rw [new, Bool.not_false, Bool.and_true] at waits
        exact eq_false_of_ne_true waits
      refine grows_of_framing parser doc input lineNumber reads unopened textual settled framing ?_
      rintro file present
      rw [held] at present
      cases present
      exact tried

theorem grows_of_dispatch (parser after : Parser) (doc : Document) (line : Str)
    (lineNumber : Nat) (used : LineUse) (reads : parser.Reads doc) (shaped : doc.Shaped)
    (plain : startsWith ['\\'] line = false) (unopened : parser.hunk = none)
    (ok : (parser.readying lineNumber).dispatchNonBody line lineNumber parser.hunkMayOpen =
      .ok (after, used)) :
    (used = .interpreted ∧ ∃ next, doc.Grows (writtenLine line) next) ∨
      (used = .ignored ∧ ∀ input : InputLine, input.text = line → ∃ next, doc.Grows input next) := by
  by_cases combined : (startsWith "diff --cc ".toList line ||
      startsWith "diff --combined ".toList line) = true
  · simp only [Parser.dispatchNonBody, combined, if_true] at ok
    cases ok
  cases git : stripPrefix "diff --git ".toList line with
  | some rest =>
    simp only [Parser.dispatchNonBody, combined, Bool.false_eq_true, if_false, git,
      bind_eq_ok] at ok
    obtain ⟨_, starts, ⟨⟩⟩ := ok
    rw [(stripPrefix_eq_some _ _ _).1 git]
    exact .inl ⟨rfl, grows_of_startGitFile parser _ doc rest lineNumber reads shaped unopened starts⟩
  | none =>
  have undiff : opensDiff line = false := by
    rw [stripPrefix_eq_none] at git
    rw [Bool.not_eq_true, Bool.or_eq_false_iff] at combined
    rw [opensDiff, git, combined.1, combined.2]
    rfl
  by_cases textual : ∀ part ∈ doc.current, part.inBinary = false
  · have outside : parser.file.any (·.inBinaryBody) = false := by
      cases current : doc.current with
      | none => simp [(reads.idle current).1]
      | some part =>
        obtain ⟨first, eofOld, eofNew, held, _⟩ := (reads.inside part current).1.file
        rw [held]
        exact textual part current
    rw [dispatchNonBody_header (parser.readying lineNumber) _ _ _ undiff outside] at ok
    exact grows_of_dispatchHeader parser after doc line lineNumber used reads shaped plain undiff
      unopened textual ok
  · simp only [not_forall, Bool.not_eq_false] at textual
    obtain ⟨part, current, binary⟩ := textual
    obtain ⟨first, eofOld, eofNew, held, _⟩ := (reads.inside part current).1.file
    have inside : (part.buf.renumber (hunkCount doc.closed) first eofOld eofNew).inBinaryBody =
      true := binary
    simp only [Parser.dispatchNonBody, combined, Bool.false_eq_true, if_false, git,
      Parser.readying, held, Option.filter, inside, if_true] at ok
    by_cases read : isBinaryBodyLine line = true
    · rw [if_pos read] at ok
      cases ok
      exact .inl ⟨rfl, _, .inside doc _ part _ current (.binary part line binary read)⟩
    · rw [if_neg read] at ok
      cases ok

theorem eq_add_of_getLast (hunk : HunkText) (line : BodyLine)
    (last : hunk.body.getLast? = some line) : ∃ before, hunk = HunkText.add before line := by
  obtain ⟨body, same⟩ := List.getLast?_eq_some_iff.1 last
  exact ⟨{ hunk with body }, by cases hunk; simp_all [HunkText.add]⟩

theorem grows_of_marker (doc : Document) (part : Section) (input : InputLine)
    (current : doc.current = some part) (marks : part.canMark = true)
    (text : input.text = eofMarker) : ∃ next, doc.Grows input next := by
  simp only [Section.canMark, Bool.and_eq_true, decide_eq_true_eq, Option.any_eq_true_iff_get,
    Option.isNone_iff_eq_none] at marks
  obtain ⟨unbroken, present, unmarked⟩ := marks
  obtain ⟨line, found⟩ := Option.isSome_iff_exists.1 present
  simp only [found, Option.get_some] at unmarked
  obtain ⟨hunk, last, bodyLast⟩ := Option.bind_eq_some_iff.1 found
  obtain ⟨before, rfl⟩ := eq_add_of_getLast hunk line bodyLast
  cases opened : part.openHunk with
  | some unended =>
    rw [Section.lastHunk, opened, Option.some_or, Option.some.injEq] at last
    subst last
    exact ⟨_, .inside doc _ part _ current (.marker part before line input text opened unmarked)⟩
  | none =>
    rw [Section.lastHunk, opened, Option.none_or] at last
    obtain ⟨hunks, same⟩ := List.getLast?_eq_some_iff.1 last
    exact ⟨_, .inside doc _ part _ current
      (.lastMarker part hunks before line input text opened unbroken same unmarked)⟩

theorem fits_of_room (hunk : HunkText) (id : HunkId) (kind : PatchLineKind)
    (room : ((onOld kind && (hunk.buf id).remOld = 0) || (onNew kind && (hunk.buf id).remNew = 0)) =
      false) : hunk.fits kind = true := by
  have oldRest : (hunk.buf id).remOld = hunk.header.oldCount - oldUsed hunk.body := rfl
  have newRest : (hunk.buf id).remNew = hunk.header.newCount - newUsed hunk.body := rfl
  simp only [Bool.or_eq_false_iff, Bool.and_eq_false_iff, decide_eq_false_iff_not, oldRest,
    newRest] at room
  simp only [HunkText.fits, Bool.and_eq_true, Bool.or_eq_true, Bool.not_eq_true',
    decide_eq_true_eq]
  exact ⟨room.1.imp_right (by omega), room.2.imp_right (by omega)⟩

theorem unended_of_endedSide (file : FileBuf) (line : Str) (kind : PatchLineKind)
    (read : bodyKind line = some kind) (side : file.endedSide line = none) :
    ((onOld kind && file.eofOld.isSome) || (onNew kind && file.eofNew.isSome)) = false := by
  simp only [bodyKind] at read
  simp only [FileBuf.endedSide] at side
  split at read <;> cases read <;> simp_all [onOld, onNew]

/-- An open hunk neither closes nor lets another line pass before its counts are used up. -/
theorem closeHunk_open (parser after : Parser) (hunk : HunkText) (id : HunkId) (lineNumber : Nat)
    (opened : parser.hunk = some (hunk.buf id)) (within : hunk.within)
    (unfilled : hunk.body ≠ [] → hunk.full = false) :
    parser.closeHunk lineNumber ≠ .ok after := by
  intro ok
  have used := full_buf hunk id within
  simp only [Parser.closeHunk, opened] at ok
  by_cases rest : (hunk.buf id).remOld ≠ 0 ∨ (hunk.buf id).remNew ≠ 0
  · rw [if_pos rest] at ok
    cases ok
  · simp only [not_or, not_not] at rest
    have full : hunk.full = true := by rw [← used]; simp [rest]
    have bare : hunk.body = [] := by
      by_contra present
      rw [unfilled present] at full
      cases full
    have context : (hunk.buf id).lines.all (fun line => line.kind = .context) = true := by
      simp [HunkText.buf, HunkText.patchLines, bare, numberBody]
    simp only [rest, ne_eq, not_true_eq_false, or_self, if_false, context, if_true] at ok
    cases ok

theorem changes_of_closeHunk (parser after : Parser) (hunk : HunkText) (id : HunkId)
    (lineNumber : Nat) (opened : parser.hunk = some (hunk.buf id))
    (ok : parser.closeHunk lineNumber = .ok after) : hunk.changes = true := by
  have context := patchLines_context hunk
  simp only [Parser.closeHunk, opened] at ok
  split_ifs at ok with rest unchanged
  rw [Bool.not_eq_true] at unchanged
  rw [show (hunk.buf id).lines = hunk.patchLines from rfl, context] at unchanged
  simpa using unchanged

theorem grows_of_body (parser fed : Parser) (doc : Document) (part : Section) (hunk : HunkText)
    (line : Str) (lineNumber : Nat) (lossy : Bool) (reads : parser.Reads doc)
    (shaped : doc.Shaped) (current : doc.current = some part)
    (opened : part.openHunk = some hunk) (plain : startsWith ['\\'] line = false)
    (ok : parser.feed line lineNumber lossy = .ok fed) :
    fed.canMarkEof = true ∧ ∃ next, doc.Grows { text := line, lossy } next := by
  obtain ⟨inside, _⟩ := reads.inside part current
  obtain ⟨first, eofOld, eofNew, held, endedOld, endedNew⟩ := inside.file
  have partShaped : part.Shaped := shaped.parts part (by simp [Document.sections, current])
  obtain ⟨within, unfilled⟩ := partShaped.opened hunk opened
  have holds : parser.hunk = some (hunk.buf (hunkCount doc.closed + part.hunks.length)) := by
    rw [inside.hunk, opened, Option.map_some]
  have stuck (other : Parser) (same : other.hunk = parser.hunk) (after : Parser) :
      other.closeHunk lineNumber ≠ .ok after :=
    closeHunk_open other after hunk _ lineNumber (by rw [same, holds]) within unfilled
  have holding : (parser.readying lineNumber).hunk = parser.hunk := rfl
  have nonBody (skipped : (if (decide (0 < (hunk.buf (hunkCount doc.closed +
        part.hunks.length)).remOld) || decide (0 < (hunk.buf (hunkCount doc.closed +
        part.hunks.length)).remNew)) = true then
      (hunk.buf (hunkCount doc.closed + part.hunks.length)).consumeBody line lineNumber
      else none) = none) : False := by
    simp only [Parser.feed, plain, Bool.false_eq_true, if_false, holds, skipped,
      bind_eq_ok] at ok
    obtain ⟨after, closes, _⟩ := ok
    exact stuck _ holds.symm after closes
  by_cases remaining : (decide (0 < (hunk.buf (hunkCount doc.closed +
      part.hunks.length)).remOld) || decide (0 < (hunk.buf (hunkCount doc.closed +
      part.hunks.length)).remNew)) = true
  swap
  · exact (nonBody (if_neg remaining)).elim
  cases kinded : bodyKind line with
  | none =>
    refine (nonBody ?_).elim
    rw [if_pos remaining, consumeBody_eq, kinded, Option.map_none]
  | some kind =>
  by_cases room : ((onOld kind && decide ((hunk.buf (hunkCount doc.closed +
      part.hunks.length)).remOld = 0)) || (onNew kind && decide ((hunk.buf (hunkCount doc.closed +
      part.hunks.length)).remNew = 0))) = true
  · simp only [Parser.feed, plain, Bool.false_eq_true, if_false, holds, remaining, if_true,
      consumeBody_eq, kinded, Option.map_some, room, bind, Except.bind] at ok
    cases ok
  have fits := fits_of_room hunk _ kind (eq_false_of_ne_true room)
  have unended : part.ended kind = false := by
    cases side : (part.buf.renumber (hunkCount doc.closed) first eofOld eofNew).endedSide line with
    | some marker =>
      simp only [Parser.feed, plain, Bool.false_eq_true, if_false, holds, remaining, if_true,
        consumeBody_eq, kinded, Option.map_some, room, bind, Except.bind, held, Option.bind_some,
        side] at ok
      cases ok
    | none =>
      have unended := unended_of_endedSide _ line kind kinded side
      simpa only [FileBuf.renumber, endedOld, endedNew, Section.ended] using unended
  have fed' := feed_body parser _ part hunk { text := line, kind, lossy, marker := none, read := kinded }
    lineNumber inside partShaped opened fits unended rfl
  rw [ok] at fed'
  generalize same : ({ text := line, kind, lossy, marker := none, read := kinded } : BodyLine) =
    added at fed'
  have kindSame : added.kind = kind := by rw [← same]
  have unmarked : added.marker = none := by rw [← same]
  have input : ({ text := line, lossy } : InputLine) = { text := added.text, lossy := added.lossy } :=
    by rw [← same]
  rw [input]
  rw [← kindSame] at fits unended
  by_cases full : (hunk.add added).full = true
  · rw [if_pos full] at fed'
    cases closes : Parser.closeHunk { parser.readying lineNumber with
        hunk := some ((hunk.add added.clean).buf (hunkCount doc.closed + part.hunks.length))
        canMarkEof := true } lineNumber with
    | error error =>
      rw [closes] at fed'
      cases fed'
    | ok closed =>
      have changes := changes_of_closeHunk _ _ (hunk.add added.clean) _ lineNumber rfl closes
      have within := fits_within hunk added.clean within fits
      have full' : (hunk.add added.clean).full = true := by
        simpa [HunkText.full, HunkText.add, BodyLine.clean, oldUsed, newUsed] using full
      rw [closeHunk_full _ (hunk.add added.clean) _ lineNumber rfl within full' changes] at fed'
      cases fed'
      refine ⟨rfl, _, .inside doc _ part _ current (.lastBody part hunk added opened fits unended
        unmarked full ?_)⟩
      simpa [HunkText.changes, HunkText.add, BodyLine.clean] using changes
  · rw [if_neg full] at fed'
    cases fed'
    exact ⟨rfl, _, .inside doc _ part _ current (.body part hunk added opened fits unended unmarked
      (eq_false_of_ne_true full))⟩

theorem step_ok (parser after : Parser) (line : Str) (lineNumber : Nat) (lossy : Bool)
    (ok : parser.step line lineNumber lossy = .ok after) :
    ∃ fed, parser.feed line lineNumber lossy = .ok fed ∧
      (parser.unterminatedLast = some lineNumber → fed.canMarkEof = false) := by
  simp only [Parser.step, bind_eq_ok] at ok
  obtain ⟨fed, feeds, ends⟩ := ok
  refine ⟨fed, feeds, fun last => ?_⟩
  by_contra marks
  rw [Bool.not_eq_false] at marks
  simp only [last, marks, decide_true, Bool.and_self, if_true] at ends
  cases ends

theorem grows_of_step (parser after : Parser) (doc : Document) (input : InputLine)
    (lineNumber : Nat) (reads : parser.Reads doc) (shaped : doc.Shaped)
    (terminated : input.terminated = false → parser.unterminatedLast = some lineNumber)
    (ok : parser.step input.text lineNumber input.lossy = .ok after) :
    ∃ next, doc.Grows input next := by
  obtain ⟨fed, feeds, unterminated⟩ := step_ok parser after _ _ _ ok
  by_cases marker : startsWith ['\\'] input.text = true
  · simp only [Parser.feed, marker, if_true] at feeds
    by_cases refused : (!parser.canMarkEof || input.text ≠ eofMarker) = true
    · rw [if_pos refused] at feeds
      cases feeds
    · rw [Bool.not_eq_true, Bool.or_eq_false_iff, Bool.not_eq_false', decide_eq_false_iff_not,
        not_not] at refused
      cases current : doc.current with
      | none => simp [(reads.idle current).2.2.2.1] at refused
      | some part =>
        rw [(reads.inside part current).1.canMark] at refused
        exact grows_of_marker doc part input current refused.1 refused.2
  rw [Bool.not_eq_true] at marker
  by_cases opened : ∃ part ∈ doc.current, part.openHunk.isSome
  · obtain ⟨part, current, present⟩ := opened
    obtain ⟨hunk, opened⟩ := Option.isSome_iff_exists.1 present
    obtain ⟨marks, next, grows⟩ := grows_of_body parser fed doc part hunk input.text lineNumber
      input.lossy reads shaped current opened marker feeds
    have ended : input.terminated = true := by
      by_contra unended
      have last := unterminated (terminated (eq_false_of_ne_true unended))
      rw [marks] at last
      cases last
    have same : input = { text := input.text, lossy := input.lossy } := by
      cases input
      simp_all
    rw [same]
    exact ⟨next, grows⟩
  · have unopened : parser.hunk = none := by
      cases current : doc.current with
      | none => exact (reads.idle current).2.1
      | some part =>
        rw [(reads.inside part current).1.hunk, Option.map_eq_none_iff,
          ← Option.not_isSome_iff_eq_none]
        exact fun present => opened ⟨part, current, present⟩
    have closed : (parser.readying lineNumber).hunk = none := unopened
    simp only [Parser.feed, marker, Bool.false_eq_true, if_false, unopened, Parser.feedNonBody,
      bind_eq_ok] at feeds
    obtain ⟨⟨dispatched, used⟩, dispatch, finish⟩ := feeds
    have ready : parser.readying lineNumber = { parser with
        lastLine := lineNumber, canMarkEof := false, hunkMayOpen := false, hunk := none } := by
      rw [← unopened]
      rfl
    rw [← ready] at dispatch
    rcases grows_of_dispatch parser dispatched doc input.text lineNumber used reads shaped marker
      unopened dispatch with ⟨rfl, next, grows⟩ | ⟨rfl, grows⟩
    · by_cases bareEnd : input.lossy = true
      · simp only [bareEnd, if_true] at finish
        cases finish
      · by_cases last : dispatched.unterminatedLast = some lineNumber
        · simp only [bareEnd, last, Bool.false_eq_true, if_false, if_true] at finish
          cases finish
        · rw [dispatchNonBody_last _ _ _ _ _ _ dispatch] at last
          have written : input = writtenLine input.text := by
            have ended : input.terminated = true := by
              by_contra unended
              exact last (terminated (eq_false_of_ne_true unended))
            cases input
            simp_all [writtenLine]
          rw [written]
          exact ⟨next, grows⟩
    · exact grows input rfl

theorem reads_step (parser after : Parser) (doc : Document) (input : InputLine)
    (lineNumber : Nat) (reads : parser.Reads doc) (shaped : doc.Shaped)
    (terminated : input.terminated = false ↔ parser.unterminatedLast = some lineNumber)
    (ok : parser.step input.text lineNumber input.lossy = .ok after) :
    ∃ next, doc.Grows input next ∧ after.Reads next ∧
      after.unterminatedLast = parser.unterminatedLast := by
  obtain ⟨next, grows⟩ := grows_of_step parser after doc input lineNumber reads shaped
    terminated.1 ok
  obtain ⟨same, step, further, last⟩ := reads_next parser doc next input lineNumber reads shaped
    (fun ended last => by rw [terminated.2 last] at ended; cases ended) grows
  rw [ok] at step
  cases step
  exact ⟨next, grows, further, last⟩

def inputLines : List Str → Nat → List Nat → Option Nat → List InputLine
  | [], _, _, _ => []
  | line :: rest, index, lossy, last =>
      let isLossy := lossy.head? = some (index + 1)
      { text := line, lossy := isLossy, terminated := last ≠ some (index + 1) } ::
        inputLines rest (index + 1) (if isLossy then lossy.tail else lossy) last

inductive Document.GrowsBy : Document → List InputLine → Document → Prop where
  | nil (doc : Document) : GrowsBy doc [] doc
  | cons {doc next final : Document} {line : InputLine} {lines : List InputLine}
      (step : doc.Grows line next) (rest : GrowsBy next lines final) :
      GrowsBy doc (line :: lines) final

theorem grown_growsBy (before lines : List InputLine) (doc final : Document)
    (grown : Document.Grown before doc) (grows : doc.GrowsBy lines final) :
    Document.Grown (before ++ lines) final := by
  induction grows generalizing before with
  | nil doc => simpa using grown
  | cons step rest ih => simpa using ih _ (.more grown step)

theorem growsBy_append (first second : List InputLine) (doc middle final : Document)
    (one : doc.GrowsBy first middle) (two : middle.GrowsBy second final) :
    doc.GrowsBy (first ++ second) final := by
  induction one with
  | nil doc => exact two
  | cons step rest ih => exact .cons step (ih two)

theorem growsBy_of_grown (lines : List InputLine) (doc : Document)
    (grown : Document.Grown lines doc) : Document.GrowsBy {} lines doc := by
  induction grown with
  | empty => exact .nil _
  | more grown step ih => exact growsBy_append _ _ _ _ _ ih (.cons step (.nil _))

theorem feedLines_reads (lines : List Str) (index : Nat) (lossy : List Nat)
    (parser after : Parser) (doc : Document) (reads : parser.Reads doc) (shaped : doc.Shaped)
    (ok : feedLines lines index lossy parser = .ok after) :
    index + lines.length ≤ max index defaultLineBudget ∧
      ∃ final, doc.GrowsBy (inputLines lines index lossy parser.unterminatedLast) final ∧
        after.Reads final := by
  induction lines generalizing index lossy parser doc with
  | nil =>
    cases ok
    exact ⟨le_max_left _ _, doc, .nil doc, reads⟩
  | cons line lines ih =>
    unfold feedLines at ok
    by_cases budget : defaultLineBudget ≤ index
    · rw [if_pos budget] at ok
      cases ok
    rw [if_neg budget, bind_eq_ok] at ok
    obtain ⟨stepped, step, rest⟩ := ok
    obtain ⟨next, grows, further, last⟩ := reads_step parser stepped doc
      { text := line, lossy := lossy.head? = some (index + 1),
        terminated := parser.unterminatedLast ≠ some (index + 1) } (index + 1) reads shaped
      (by simp) step
    obtain ⟨bound, final, more, reads⟩ := ih _ _ stepped next further
      (document_shaped_grows _ _ _ grows shaped).1 rest
    refine ⟨?_, final, .cons grows (by rw [← last]; exact more), reads⟩
    simp only [List.length_cons]
    omega

theorem reads_feedLines (lines : List Str) (index : Nat) (lossy : List Nat) (parser : Parser)
    (doc final : Document) (reads : parser.Reads doc) (shaped : doc.Shaped)
    (budget : index + lines.length ≤ defaultLineBudget)
    (grows : doc.GrowsBy (inputLines lines index lossy parser.unterminatedLast) final) :
    ∃ after, feedLines lines index lossy parser = .ok after ∧ after.Reads final := by
  induction lines generalizing index lossy parser doc with
  | nil =>
    cases grows
    exact ⟨parser, rfl, reads⟩
  | cons line lines ih =>
    simp only [inputLines] at grows
    cases grows with
    | cons step rest =>
      simp only [List.length_cons] at budget
      obtain ⟨stepped, steps, further, last⟩ := reads_next parser doc _ _ (index + 1) reads shaped
        (by simp) step
      obtain ⟨after, fed, final⟩ := ih (index + 1) _ stepped _ further
        (document_shaped_grows _ _ _ step shaped).1 (by omega) (by rw [last]; exact rest)
      refine ⟨after, ?_, final⟩
      simp only [feedLines, if_neg (show ¬ defaultLineBudget ≤ index by omega), bind_eq_ok]
      exact ⟨stepped, steps, fed⟩

theorem reads_empty (p0 : Bool) (last : Option Nat) :
    Parser.Reads { p0, unterminatedLast := last } { p0 } ∧ Document.Shaped { p0 } := by
  refine ⟨⟨rfl, fun _ => ⟨rfl, rfl, rfl, rfl, rfl, rfl⟩, by simp⟩, ?_⟩
  exact ⟨by simp [Document.sections], by simp, by simp, by simp⟩

/-- At the end of the input the parser gives the document's files, or an error. -/
theorem finish_reads (parser : Parser) (doc : Document) (files : List ReviewFile)
    (reads : parser.Reads doc) (shaped : doc.Shaped) :
    parser.finish = .ok files ↔ doc.files = some files := by
  cases current : doc.current with
  | none =>
    obtain ⟨idle, unopened, _⟩ := reads.idle current
    have held := reads.files
    rw [shaped.begun current] at held
    simp [Parser.finish, Parser.closeHunk, unopened, Parser.flushFile, idle, bind, Except.bind,
      Document.files, Document.sections, current, shaped.begun current, held, pure, Except.pure]
  | some part =>
    obtain ⟨inside, _⟩ := reads.inside part current
    obtain ⟨first, eofOld, eofNew, held, _⟩ := inside.file
    have partShaped : part.Shaped := shaped.parts part (by simp [Document.sections, current])
    have split : doc.files = part.review.map fun file =>
        parser.files ++ [shiftFile (hunkCount doc.closed) file] := by
      rw [Document.files, Document.sections, current, reviewFrom_append, reads.files]
      cases review : part.review <;> simp [reviewFrom, review]
    rw [split]
    cases opened : part.openHunk with
    | some hunk =>
      obtain ⟨within, unfilled⟩ := partShaped.opened hunk opened
      have stuck (after : Parser) := closeHunk_open parser after hunk _ parser.lastLine
        (by rw [inside.hunk, opened, Option.map_some]) within unfilled
      have unreviewed : part.review = none := by simp [Section.review, opened]
      rw [unreviewed]
      simp only [Parser.finish, bind_eq_ok, Option.map_none, reduceCtorEq, iff_false]
      rintro ⟨after, closes, _⟩
      exact stuck after closes
    | none =>
      have unopened : parser.hunk = none := by rw [inside.hunk, opened, Option.map_none]
      have review : part.review = part.buf.finished := by simp [Section.review, opened]
      have closes : parser.closeHunk parser.lastLine = .ok parser := by
        simp only [Parser.closeHunk, unopened]
      have finishes (reviewed : ReviewFile) :
          (part.buf.renumber (hunkCount doc.closed) first eofOld eofNew).finish parser.lastLine =
            .ok reviewed ↔ part.review.map (shiftFile (hunkCount doc.closed)) = some reviewed := by
        rw [finish_eq_ok, finished_renumber, review]
      simp only [Parser.finish, bind_eq_ok]
      constructor
      · rintro ⟨closed, ended, flushed, flush, ⟨⟩⟩
        rw [closes] at ended
        cases ended
        simp only [Parser.flushFile, held, bind_eq_ok] at flush
        obtain ⟨reviewed, ended, ⟨⟩⟩ := flush
        obtain ⟨file, found, rfl⟩ := Option.map_eq_some_iff.1 ((finishes reviewed).1 ended)
        rw [found]
        rfl
      · intro reviewed
        obtain ⟨file, found, rfl⟩ := Option.map_eq_some_iff.1 reviewed
        have ended := (finishes (shiftFile (hunkCount doc.closed) file)).2 (by rw [found]; rfl)
        refine ⟨parser, closes, { parser with
          file := none, files := parser.files ++ [shiftFile (hunkCount doc.closed) file] }, ?_, rfl⟩
        simp only [Parser.flushFile, held, bind_eq_ok]
        exact ⟨_, ended, rfl⟩

def documentLines (input : Str) (lossy : List Nat) : List InputLine :=
  inputLines (splitLines input) 0 lossy
    (if unterminated input then some (splitLines input).length else none)

theorem shaped_growsBy (lines : List InputLine) (doc final : Document) (shaped : doc.Shaped)
    (grows : doc.GrowsBy lines final) : final.Shaped ∧ final.lines = doc.lines ++ lines := by
  induction grows with
  | nil doc => exact ⟨shaped, (List.append_nil _).symm⟩
  | cons step rest ih =>
    obtain ⟨next, same⟩ := document_shaped_grows _ _ _ step shaped
    obtain ⟨last, eq⟩ := ih next
    exact ⟨last, by rw [eq, same, List.append_assoc, List.singleton_append]⟩

/-- A fresh parser accepts the lines a document whose every section ends well grows by. -/
theorem feedLines_eq_ok (lines : List Str) (lossy : List Nat) (p0 : Bool) (last : Option Nat)
    (files : List ReviewFile) :
    (feedLines lines 0 lossy { p0, unterminatedLast := last } >>= Parser.finish) = .ok files ↔
      lines.length ≤ defaultLineBudget ∧
        ∃ doc, Document.GrowsBy { p0 } (inputLines lines 0 lossy last) doc ∧
          doc.files = some files := by
  obtain ⟨reads, shaped⟩ := reads_empty p0 last
  rw [bind_eq_ok]
  constructor
  · rintro ⟨parser, fed, finishes⟩
    obtain ⟨bound, doc, grows, further⟩ := feedLines_reads _ _ _ _ _ _ reads shaped fed
    have ends := shaped_growsBy _ _ _ shaped grows
    exact ⟨by omega, doc, grows, (finish_reads parser doc files further ends.1).1 finishes⟩
  · rintro ⟨budget, doc, grows, reviewed⟩
    obtain ⟨parser, fed, further⟩ := reads_feedLines lines 0 lossy _ _ doc reads shaped
      (by omega) grows
    have ends := shaped_growsBy _ _ _ shaped grows
    exact ⟨parser, fed, (finish_reads parser doc files further ends.1).2 reviewed⟩

/-- The parser accepts what grows into a document whose every section ends well. -/
theorem parseLines_eq_ok (input : Str) (byteLen : Nat) (lossy : List Nat)
    (options : ParseOptions) (files : List ReviewFile) :
    parseLines input byteLen lossy options = .ok files ↔
      byteLen ≤ options.byteBudget ∧ (splitLines input).length ≤ defaultLineBudget ∧
        ∃ doc, Document.Grown (documentLines input lossy) doc ∧ doc.files = some files := by
  have fed := feedLines_eq_ok (splitLines input) lossy false
    (if unterminated input then some (splitLines input).length else none) files
  have grown (doc : Document) : Document.GrowsBy { p0 := false } (documentLines input lossy) doc ↔
      Document.Grown (documentLines input lossy) doc :=
    ⟨fun grows => grown_growsBy [] _ _ _ .empty grows, growsBy_of_grown _ _⟩
  unfold parseLines
  by_cases exceeds : options.byteBudget < byteLen
  · rw [if_pos exceeds]
    simp only [reduceCtorEq, false_iff, not_and]
    omega
  · rw [if_neg exceeds]
    simp only [← grown]
    exact fed.trans ⟨fun rest => ⟨by omega, rest⟩, fun rest => rest.2⟩

def textLines (input : Str) : List InputLine := documentLines input []

def Budgeted (input : Str) : Prop :=
  (Utf8.encode input).length ≤ defaultByteBudget ∧ (splitLines input).length ≤ defaultLineBudget

theorem parse_eq_ok (input : Str) (files : List ReviewFile) :
    parse input = .ok files ↔
      Budgeted input ∧ ∃ doc, Document.Grown (textLines input) doc ∧ doc.files = some files := by
  rw [parse, parseWith, parseLines_eq_ok, Budgeted, and_assoc]
  rfl

theorem inputLines_text (lines : List Str) (index : Nat) (lossy : List Nat) (last : Option Nat) :
    (inputLines lines index lossy last).map (·.text) = lines := by
  induction lines generalizing index lossy with
  | nil => rfl
  | cons line lines ih => simp only [inputLines, List.map_cons, ih]

theorem textLines_text (input : Str) : (textLines input).map (·.text) = splitLines input :=
  inputLines_text _ _ _ _

theorem inputLines_written (lines : List Str) (index : Nat) :
    inputLines lines index [] none = lines.map writtenLine := by
  induction lines generalizing index with
  | nil => rfl
  | cons line lines ih =>
    have rest := ih (index + 1)
    simp [inputLines, rest, writtenLine]

theorem textLines_terminated (input : Str) (ends : unterminated input = false) :
    textLines input = (splitLines input).map writtenLine := by
  rw [textLines, documentLines, ends]
  exact inputLines_written _ _

theorem inputLines_append (first second : List Str) (index : Nat) (last : Option Nat)
    (later : ∀ place ∈ last, index + first.length < place) :
    inputLines (first ++ second) index [] last =
      first.map writtenLine ++ inputLines second (index + first.length) [] last := by
  induction first generalizing index with
  | nil => rfl
  | cons line first ih =>
    have rest := ih (index + 1) (fun place member => by
      have := later place member
      simp only [List.length_cons] at this
      omega)
    have inner : last ≠ some (index + 1) := by
      intro same
      have := later _ same
      simp at this
    rw [Nat.add_right_comm] at rest
    simp [inputLines, rest, writtenLine, inner, Nat.add_assoc]

theorem inputLines_shift (lines : List Str) (index shift : Nat) (last : Option Nat) :
    inputLines lines (index + shift) [] (last.map (· + shift)) = inputLines lines index [] last := by
  induction lines generalizing index with
  | nil => rfl
  | cons line lines ih =>
    have rest := ih (index + 1)
    have same : (last.map (· + shift) = some (index + shift + 1)) ↔ last = some (index + 1) := by
      cases last with
      | none => simp
      | some place => simp; omega
    rw [Nat.add_right_comm] at rest
    simp [inputLines, rest, same]

theorem unterminated_append (first second : Str) (ends : unterminated first = false) :
    unterminated (first ++ second) = unterminated second := by
  cases second with
  | nil =>
    rw [List.append_nil, ends]
    rfl
  | cons c second => simp [unterminated, List.getLast?_append]

theorem textLines_append (first second : Str) (ends : unterminated first = false) :
    textLines (first ++ second) = textLines first ++ textLines second := by
  rw [textLines_terminated first ends, textLines, textLines, documentLines, documentLines,
    unterminated_append first second ends, splitLines_append first second ends]
  by_cases last : unterminated second = true
  · have nonempty : splitLines second ≠ [] := by
      intro absent
      have whole := unlines_splitLines second
      rw [absent, if_pos last] at whole
      simp [unlines] at whole
    have filled : 0 < (splitLines second).length := List.length_pos_iff.2 nonempty
    have shift := inputLines_shift (splitLines second) 0 (splitLines first).length
      (some (splitLines second).length)
    rw [if_pos last, if_pos last, inputLines_append _ _ _ _ (by simp; omega), ← shift,
      List.length_append, Option.map_some, Nat.add_comm (splitLines second).length]
  · rw [if_neg last, if_neg last, inputLines_append _ _ _ _ (by simp), inputLines_written,
      inputLines_written]

end DeepDiffForge.Patch
