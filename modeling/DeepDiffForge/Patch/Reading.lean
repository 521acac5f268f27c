import DeepDiffForge.Patch.Buffers

/-! Inside a section the parser's state is the one the section gives, and each line the section
can grow by takes it to the state of the grown section. -/

namespace DeepDiffForge.Patch
open Text DeepDiffForge.Core

def Parser.readying (parser : Parser) (lineNumber : Nat) : Parser :=
  { parser with lastLine := lineNumber, canMarkEof := false, hunkMayOpen := false }

/-- The parser's state inside a section whose hunks are numbered from `base`. -/
structure Parser.ReadsPart (parser : Parser) (base : HunkId) (part : Section) : Prop where
  file : ∃ first eofOld eofNew, parser.file = some (part.buf.renumber base first eofOld eofNew) ∧
    eofOld.isSome = part.endedOld ∧ eofNew.isSome = part.endedNew
  hunk : parser.hunk = part.openHunk.map (·.buf (base + part.hunks.length))
  next : parser.nextHunkId = base + part.hunks.length + part.openHunk.toList.length
  canMark : parser.canMarkEof = part.canMark
  mayOpen : parser.hunkMayOpen = part.mayOpen
  p0 : parser.p0 = (part.p0 || part.guesses)

theorem step_interpreted (parser next : Parser) (line : Str) (lineNumber : Nat)
    (plain : startsWith ['\\'] line = false) (unopened : parser.hunk = none)
    (terminated : parser.unterminatedLast ≠ some lineNumber)
    (dispatch : (parser.readying lineNumber).dispatchNonBody line lineNumber parser.hunkMayOpen =
      .ok (next, .interpreted))
    (same : next.unterminatedLast = parser.unterminatedLast) :
    parser.step line lineNumber false = .ok next := by
  have fed : parser.feed line lineNumber false = .ok next := by
    simp only [Parser.feed, plain, unopened, Parser.feedNonBody]
    simp only [Parser.readying, unopened] at dispatch
    simp only [dispatch, bind, Except.bind, same, terminated, if_false]
    rfl
  simp only [Parser.step, fed, bind, Except.bind, terminated, decide_false, Bool.false_and]
  rfl

theorem opensDiff_of_trimmed (line : Str)
    (apart : ∀ start ∈ ["diff --git ".toList, "diff --cc ".toList, "diff --combined ".toList],
      startsWith start (trimmed line) = false) : opensDiff line = false := by
  have each (start : Str) (member) := apart start member
  simp only [List.mem_cons, List.not_mem_nil, or_false, forall_eq_or_imp, forall_eq, trimmed] at apart
  rw [startsWith_trimEnd _ _ _ (by decide), startsWith_trimEnd _ _ _ (by decide),
    startsWith_trimEnd _ _ _ (by decide)] at apart
  rw [opensDiff, apart.1, apart.2.1, apart.2.2]
  rfl

theorem dispatchNonBody_header (parser : Parser) (line : Str) (lineNumber : Nat) (may : Bool)
    (plain : opensDiff line = false)
    (textual : parser.file.any (·.inBinaryBody) = false) :
    parser.dispatchNonBody line lineNumber may =
      parser.dispatchHeader (trimmed line) (hadCr line) lineNumber may := by
  simp only [opensDiff, Bool.or_eq_false_iff] at plain
  have unopened := (stripPrefix_eq_none "diff --git ".toList line).2 plain.1.1
  have unfiltered : parser.file.filter (·.inBinaryBody) = none := by
    cases held : parser.file with
    | none => rfl
    | some file =>
      rw [held, Option.any_some] at textual
      simp only [Option.filter, textual, Bool.false_eq_true, if_false]
  simp only [Parser.dispatchNonBody, plain.1.2, plain.2, Bool.or_self, Bool.false_eq_true, if_false,
    unopened, unfiltered, trimmed, hadCr]

def Parser.ReadsNext (parser : Parser) (base : HunkId) (input : InputLine) (lineNumber : Nat)
    (grown : Section) : Prop :=
  ∃ next, parser.step input.text lineNumber input.lossy = .ok next ∧ next.ReadsPart base grown ∧
    next.files = parser.files ∧ next.unterminatedLast = parser.unterminatedLast

theorem notBackslash (line : Str) (start : Str) (begins : startsWith start (trimmed line) = true)
    (apart : (startsWith start ['\\'] || startsWith ['\\'] start) = false) :
    startsWith ['\\'] line = false := by
  have plain := startsWith_apart start ['\\'] (trimmed line) begins apart
  rwa [trimmed, startsWith_trimEnd _ _ _ (by decide)] at plain

theorem extended_plain (line : Str) (extended : isExtended (trimmed line) = true) :
    startsWith ['\\'] line = false ∧ opensDiff line = false := by
  constructor
  · have plain := startsWith_of_extended (trimmed line) ['\\'] extended (by decide)
    rwa [trimmed, startsWith_trimEnd _ _ _ (by decide)] at plain
  · apply opensDiff_of_trimmed
    simp only [List.mem_cons, List.not_mem_nil, or_false, forall_eq_or_imp, forall_eq]
    exact ⟨startsWith_of_extended _ _ extended (by decide),
      startsWith_of_extended _ _ extended (by decide),
      startsWith_of_extended _ _ extended (by decide)⟩

theorem extended_of_reads (header : Str) (read : readsExtended header = true) :
    isExtended header = true := by
  simp only [readsExtended, Bool.and_eq_true] at read
  exact read.1.1

theorem canMark_early (part : Section) (early : part.past = false) : part.canMark = false := by
  obtain ⟨_, unhunked, unopened⟩ := (past_eq_false part).1 early
  simp [Section.canMark, Section.lastHunk, unhunked, unopened]

theorem reads_extended (parser : Parser) (base : HunkId) (part : Section) (line : Str)
    (lineNumber : Nat) (reads : parser.ReadsPart base part) (shaped : part.Shaped)
    (terminated : parser.unterminatedLast ≠ some lineNumber) (git : part.git = true)
    (early : part.past = false) (unbroken : part.trailing = []) (textual : part.inBinary = false)
    (read : readsExtended (trimmed line) = true) :
    parser.ReadsNext base (writtenLine line) lineNumber
      { part with extended := part.extended ++ [line] } := by
  obtain ⟨first, eofOld, eofNew, held, old, new⟩ := reads.file
  obtain ⟨unnamed, unhunked, unopened⟩ := (past_eq_false part).1 early
  have extended := extended_of_reads _ read
  obtain ⟨plain, undiff⟩ := extended_plain line extended
  have closed : parser.hunk = none := by rw [reads.hunk, unopened, Option.map_none]
  have dispatch : (parser.readying lineNumber).dispatchNonBody line lineNumber
      parser.hunkMayOpen =
      .ok ({ parser.readying lineNumber with
        file := some ((part.buf.renumber base first eofOld eofNew).withHeader (trimmed line))
        hunkMayOpen := true }, .interpreted) := by
    have awaiting : (part.buf.renumber base first eofOld eofNew).awaitingNewHeader = false := by
      simp only [FileBuf.renumber, Section.buf, Section.awaiting, unnamed, Option.isSome_none,
        Bool.false_and]
    have unended : (part.buf.renumber base first eofOld eofNew).headerEnded = false := by
      simp [FileBuf.renumber, Section.buf, unbroken]
    have metadata := tryMetadata_read (part.buf.renumber base first eofOld eofNew) (trimmed line)
      lineNumber early unended read
    rw [dispatchNonBody_header _ _ _ _ undiff (by rw [Parser.readying, held]; exact textual)]
    simp only [Parser.dispatchHeader, Parser.readying, held, Option.any_some, awaiting,
      Bool.false_and, Bool.false_eq_true, if_false,
      (stripPrefix_eq_none "--- ".toList _).2 (startsWith_of_extended _ _ extended (by decide)),
      (stripPrefix_eq_none "+++ ".toList _).2 (startsWith_of_extended _ _ extended (by decide)),
      startsWith_of_extended _ "@@".toList extended (by decide), metadata]
    rfl
  refine ⟨_, step_interpreted parser _ line lineNumber plain closed terminated dispatch rfl,
    ?_, rfl, rfl⟩
  have empty : part.binary = [] := unheaded_binary part shaped textual
  exact {
    file := ⟨first, eofOld, eofNew,
      by rw [buf_extended part line shaped git early unbroken textual read]; rfl, old, new⟩
    hunk := reads.hunk
    next := reads.next
    canMark := (canMark_early _ early).symm
    mayOpen := by
      symm
      rw [mayOpen_iff]
      exact ⟨unopened, unbroken, empty, .inr (.inr ⟨unnamed, by simp⟩)⟩
    p0 := reads.p0 }

theorem isBinaryBodyLine_diff (rest : Str) :
    isBinaryBodyLine ("diff ".toList ++ rest) = false := by
  have outside : ' ' ∉ base85 := by decide
  have literal : stripPrefix "literal ".toList ("diff ".toList ++ rest) = none := rfl
  have delta : stripPrefix "delta ".toList ("diff ".toList ++ rest) = none := rfl
  have begins : "diff ".toList ++ rest = 'd' :: 'i' :: 'f' :: 'f' :: ' ' :: rest := rfl
  rw [begins] at literal delta ⊢
  simp only [isBinaryBodyLine, literal, delta, Option.orElse]
  simp [outside]

theorem isBinaryBodyLine_backslash (rest : Str) : isBinaryBodyLine ('\\' :: rest) = false := by
  have literal : stripPrefix "literal ".toList ('\\' :: rest) = none := rfl
  have delta : stripPrefix "delta ".toList ('\\' :: rest) = none := rfl
  simp only [isBinaryBodyLine, literal, delta, Option.orElse]
  simp

theorem binary_plain (line : Str) (read : isBinaryBodyLine line = true) :
    startsWith ['\\'] line = false ∧ opensDiff line = false := by
  constructor
  · by_contra begins
    rw [Bool.not_eq_false, startsWith_iff] at begins
    obtain ⟨rest, rfl⟩ := begins
    exact Bool.noConfusion ((isBinaryBodyLine_backslash rest).symm.trans read)
  · by_contra opens
    rw [Bool.not_eq_false] at opens
    simp only [opensDiff, Bool.or_eq_true, startsWith_iff] at opens
    obtain ⟨rest, rfl⟩ : ∃ rest, line = "diff ".toList ++ rest := by
      rcases opens with (⟨rest, rfl⟩ | ⟨rest, rfl⟩) | ⟨rest, rfl⟩
      · exact ⟨"--git ".toList ++ rest, rfl⟩
      · exact ⟨"--cc ".toList ++ rest, rfl⟩
      · exact ⟨"--combined ".toList ++ rest, rfl⟩
    exact Bool.noConfusion ((isBinaryBodyLine_diff rest).symm.trans read)

theorem reads_binary (parser : Parser) (base : HunkId) (part : Section) (line : Str)
    (lineNumber : Nat) (reads : parser.ReadsPart base part) (shaped : part.Shaped)
    (terminated : parser.unterminatedLast ≠ some lineNumber) (binary : part.inBinary = true)
    (read : isBinaryBodyLine line = true) :
    parser.ReadsNext base (writtenLine line) lineNumber
      { part with binary := part.binary ++ [line] } := by
  obtain ⟨first, eofOld, eofNew, held, old, new⟩ := reads.file
  obtain ⟨early, unbroken⟩ := shaped.textual binary
  obtain ⟨unnamed, unhunked, unopened⟩ := (past_eq_false part).1 early
  obtain ⟨plain, undiff⟩ := binary_plain line read
  have closed : parser.hunk = none := by rw [reads.hunk, unopened, Option.map_none]
  have dispatch : (parser.readying lineNumber).dispatchNonBody line lineNumber
      parser.hunkMayOpen =
      .ok ({ parser.readying lineNumber with
        file := some { part.buf.renumber base first eofOld eofNew with
          binaryBody := part.binary ++ [line] } }, .interpreted) := by
    simp only [opensDiff, Bool.or_eq_false_iff] at undiff
    have inside : (part.buf.renumber base first eofOld eofNew).inBinaryBody = true := binary
    simp only [Parser.dispatchNonBody, undiff.1.2, undiff.2, Bool.or_self, Bool.false_eq_true,
      if_false, (stripPrefix_eq_none _ _).2 undiff.1.1, Parser.readying, held, Option.filter,
      inside, if_true, read]
    rfl
  refine ⟨_, step_interpreted parser _ line lineNumber plain closed terminated dispatch rfl,
    ?_, rfl, rfl⟩
  exact {
    file := ⟨first, eofOld, eofNew, by rw [buf_binary part line shaped binary read]; rfl, old, new⟩
    hunk := reads.hunk
    next := reads.next
    canMark := (canMark_early _ early).symm
    mayOpen := by simp [Section.mayOpen, Parser.readying]
    p0 := reads.p0 }

theorem name_plain (line : NameLine) (start : Str) (begins : trimmed line.text = start ++ line.rest)
    (apart : ∀ other ∈ [['\\'], "diff --git ".toList, "diff --cc ".toList,
      "diff --combined ".toList], (startsWith start other || startsWith other start) = false) :
    startsWith ['\\'] line.text = false ∧ opensDiff line.text = false := by
  have begun : startsWith start (trimmed line.text) = true := by rw [begins, startsWith_append]
  constructor
  · exact notBackslash line.text start begun (apart _ (by simp))
  · apply opensDiff_of_trimmed
    intro other member
    exact startsWith_apart start other _ begun (apart other (List.mem_cons_of_mem _ member))

theorem reads_oldName (parser : Parser) (base : HunkId) (part : Section) (line : NameLine)
    (lineNumber : Nat) (reads : parser.ReadsPart base part) (shaped : part.Shaped)
    (terminated : parser.unterminatedLast ≠ some lineNumber) (git : part.git = true)
    (early : part.past = false) (unbroken : part.trailing = []) (textual : part.inBinary = false)
    (old : trimmed line.text = "--- ".toList ++ line.rest)
    (named : headerName line.rest false = some line.name) :
    parser.ReadsNext base (writtenLine line.text) lineNumber
      { part with oldName := some line } := by
  obtain ⟨first, eofOld, eofNew, held, endedOld, endedNew⟩ := reads.file
  obtain ⟨unnamed, unhunked, unopened⟩ := (past_eq_false part).1 early
  obtain ⟨plain, undiff⟩ := name_plain line _ old (by decide)
  have closed : parser.hunk = none := by rw [reads.hunk, unopened, Option.map_none]
  have unnewed := unnamed_newName part shaped unnamed
  have names : part.names = (none, none, none) := by
    obtain ⟨opening, opened⟩ := Option.isSome_iff_exists.1 git
    simp [Section.names, opened, unnamed, unnewed]
  have dispatch : (parser.readying lineNumber).dispatchNonBody line.text lineNumber
      parser.hunkMayOpen =
      .ok ({ parser.readying lineNumber with
        file := some { part.buf.renumber base first eofOld eofNew with
          oldRaw := some line.name
          awaitingNewHeader := true
          pastHeaders := true } }, .interpreted) := by
    have awaiting : (part.buf.renumber base first eofOld eofNew).awaitingNewHeader = false := by
      simp only [FileBuf.renumber, Section.buf, Section.awaiting, unnamed, Option.isSome_none,
        Bool.false_and]
    have unended : (part.buf.renumber base first eofOld eofNew).headerEnded = false := by
      simp [FileBuf.renumber, Section.buf, unbroken]
    have oldRaw : (part.buf.renumber base first eofOld eofNew).oldRaw = none := by
      simp only [FileBuf.renumber, Section.buf, names]
    have newRaw : (part.buf.renumber base first eofOld eofNew).newRaw = none := by
      simp only [FileBuf.renumber, Section.buf, names]
    have hunks : (part.buf.renumber base first eofOld eofNew).hunks = [] := by
      simp only [FileBuf.renumber, Section.buf, unhunked, numberHunks, shiftHunks, List.map_nil]
    have isGit : (part.buf.renumber base first eofOld eofNew).git = true := git
    have epoch : (part.buf.renumber base first eofOld eofNew).oldEpoch = false := by
      simp only [FileBuf.renumber, Section.buf, Section.oldEpoch, git, Bool.not_true,
        Bool.false_and]
    rw [dispatchNonBody_header _ _ _ _ undiff (by rw [Parser.readying, held]; exact textual), old]
    simp only [Parser.dispatchHeader, Parser.readying, held, Option.any_some, awaiting,
      Bool.false_and, Bool.false_eq_true, if_false, stripPrefix_append, Parser.onOldHeader,
      Parser.closeHunk, closed, newRaw, hunks, FileBuf.onOldHeader, oldRaw, unended, isGit, named,
      bind, Except.bind, Option.isSome_none, Option.isNone_some, ne_eq, not_true_eq_false,
      decide_false, Bool.or_self, Bool.not_true, pure, Except.pure]
    simp only [epoch]
  refine ⟨_, step_interpreted parser _ line.text lineNumber plain closed terminated dispatch rfl,
    ?_, rfl, rfl⟩
  exact {
    file := ⟨first, eofOld, eofNew,
      by rw [buf_oldName part line shaped git early unbroken textual old named]; rfl,
      endedOld, endedNew⟩
    hunk := reads.hunk
    next := reads.next
    canMark := by simp [Section.canMark, Section.lastHunk, unhunked, unopened, Parser.readying]
    mayOpen := by simp [Section.mayOpen, unnewed, unhunked, Parser.readying]
    p0 := reads.p0 }

theorem nameTraditional_renumber (file : FileBuf) (base first : Nat) (eofOld eofNew : Option Nat)
    (newEpoch newQuoted : Bool) :
    (file.renumber base first eofOld eofNew).nameTraditional newEpoch newQuoted =
      (file.nameTraditional newEpoch newQuoted).renumber base first eofOld eofNew := by
  have oldRaw : (file.renumber base first eofOld eofNew).oldRaw = file.oldRaw := rfl
  have newRaw : (file.renumber base first eofOld eofNew).newRaw = file.newRaw := rfl
  have p0 : (file.renumber base first eofOld eofNew).p0 = file.p0 := rfl
  have epoch : (file.renumber base first eofOld eofNew).oldEpoch = file.oldEpoch := rfl
  simp only [FileBuf.nameTraditional, oldRaw, newRaw, p0, epoch]
  cases file.oldRaw with
  | none => rfl
  | some old =>
    cases file.newRaw with
    | none => rfl
    | some new =>
      simp only
      split_ifs <;> rfl

theorem guesses_awaiting (part : Section) (awaiting : part.awaiting = true) :
    part.guesses = false := by
  simp only [Section.awaiting, Bool.and_eq_true, Option.isNone_iff_eq_none] at awaiting
  simp [Section.guesses, awaiting.2]

theorem onNewHeader_held (part : Section) (line : NameLine) (lineNumber : Nat)
    (shaped : part.Shaped) (base first : Nat) (eofOld eofNew : Option Nat)
    (awaiting : part.awaiting = true) (new : trimmed line.text = "+++ ".toList ++ line.rest)
    (named : headerName line.rest (!part.git && !hadCr line.text) = some line.name) :
    (part.buf.renumber base first eofOld eofNew).onNewHeader line.rest (hadCr line.text) part.p0
        lineNumber =
      .ok ((Section.buf { part with newName := some line }).renumber base first eofOld eofNew) := by
  have git : (part.buf.renumber base first eofOld eofNew).git = part.git := rfl
  simp only [FileBuf.onNewHeader, git, named]
  by_cases opened : part.git = true
  · rw [if_pos opened, buf_newName_git part line shaped awaiting new named opened]
    rfl
  · rw [if_neg opened, buf_newName_traditional part line shaped awaiting new named
      (eq_false_of_ne_true opened), ← nameTraditional_renumber]
    rfl

theorem reads_newName (parser : Parser) (base : HunkId) (part : Section) (line : NameLine)
    (lineNumber : Nat) (reads : parser.ReadsPart base part) (shaped : part.Shaped)
    (terminated : parser.unterminatedLast ≠ some lineNumber) (awaiting : part.awaiting = true)
    (new : trimmed line.text = "+++ ".toList ++ line.rest)
    (named : headerName line.rest (!part.git && !hadCr line.text) = some line.name) :
    parser.ReadsNext base (writtenLine line.text) lineNumber
      { part with newName := some line } := by
  obtain ⟨first, eofOld, eofNew, held, endedOld, endedNew⟩ := reads.file
  obtain ⟨unhunked, unopened, unbroken⟩ := shaped.settled awaiting
  obtain ⟨plain, undiff⟩ := name_plain line _ new (by decide)
  have closed : parser.hunk = none := by rw [reads.hunk, unopened, Option.map_none]
  have textual : part.inBinary = false := by
    simp only [Section.awaiting, Bool.and_eq_true] at awaiting
    exact textual_of_past part shaped (by simp [Section.past, awaiting.1])
  have p0 : parser.p0 = part.p0 := by
    rw [reads.p0, guesses_awaiting part awaiting, Bool.or_false]
  have guess : (if part.git = true then part.p0 else Section.bare { part with newName := some line })
      = (part.p0 || Section.guesses { part with newName := some line }) := by
    have same : Section.git { part with newName := some line } = part.git := rfl
    simp only [Section.guesses, Section.bare, same, Option.any_some]
    cases opening : part.opening <;> simp [Section.git, opening]
  have dispatch : (parser.readying lineNumber).dispatchNonBody line.text lineNumber
      parser.hunkMayOpen =
      .ok ({ parser.readying lineNumber with
        file := some ((Section.buf { part with newName := some line }).renumber base first
          eofOld eofNew)
        p0 := part.p0 || Section.guesses { part with newName := some line }
        hunkMayOpen := true }, .interpreted) := by
    have waits : (part.buf.renumber base first eofOld eofNew).awaitingNewHeader = true := awaiting
    have git : (part.buf.renumber base first eofOld eofNew).git = part.git := rfl
    have bare : ((Section.buf { part with newName := some line }).renumber base first eofOld
      eofNew).p0 = Section.bare { part with newName := some line } := rfl
    have read := onNewHeader_held part line lineNumber shaped base first eofOld eofNew awaiting new
      named
    have notOld : stripPrefix "--- ".toList ("+++ ".toList ++ line.rest) = none := rfl
    rw [dispatchNonBody_header _ _ _ _ undiff (by rw [Parser.readying, held]; exact textual), new]
    simp only [Parser.dispatchHeader, Parser.readying, held, startsWith_append, Bool.not_true,
      Bool.and_false, Bool.false_eq_true, if_false, notOld, stripPrefix_append, Parser.onNewHeader,
      waits, p0, read, bind, Except.bind, git, bare, guess]
    rfl
  refine ⟨_, step_interpreted parser _ line.text lineNumber plain closed terminated dispatch rfl,
    ?_, rfl, rfl⟩
  exact {
    file := ⟨first, eofOld, eofNew, rfl, endedOld, endedNew⟩
    hunk := reads.hunk
    next := reads.next
    canMark := by simp [Section.canMark, Section.lastHunk, unhunked, unopened, Parser.readying]
    mayOpen := by
      symm
      rw [mayOpen_iff]
      exact ⟨unopened, unbroken, unheaded_binary part shaped textual, .inl rfl⟩
    p0 := rfl }

theorem hunk_plain (hunk : HunkText) :
    startsWith ['\\'] hunk.opening = false ∧ opensDiff hunk.opening = false ∧
      stripPrefix "--- ".toList (trimmed hunk.opening) = none ∧
      stripPrefix "+++ ".toList (trimmed hunk.opening) = none ∧
      startsWith "@@".toList (trimmed hunk.opening) = true := by
  have begins : startsWith "@@ -".toList (trimmed hunk.opening) = true := by
    have read := hunk.read
    simp only [parseHunkHeader, Option.bind_eq_bind, Option.bind_eq_some_iff] at read
    obtain ⟨rest, starts, _⟩ := read
    rw [startsWith, starts, Option.isSome_some]
  refine ⟨notBackslash _ _ begins (by decide), opensDiff_of_trimmed _ fun other member => ?_,
    (stripPrefix_eq_none _ _).2 (startsWith_apart _ _ _ begins (by decide)),
    (stripPrefix_eq_none _ _).2 (startsWith_apart _ _ _ begins (by decide)), ?_⟩
  · refine startsWith_apart _ other _ begins ?_
    revert other
    decide
  · obtain ⟨rest, same⟩ := (startsWith_iff _ _).1 begins
    rw [same, startsWith_iff]
    exact ⟨" -".toList ++ rest, rfl⟩

theorem reads_hunk (parser : Parser) (base : HunkId) (part : Section) (hunk : HunkText)
    (lineNumber : Nat) (reads : parser.ReadsPart base part) (shaped : part.Shaped)
    (terminated : parser.unterminatedLast ≠ some lineNumber) (may : part.mayOpen = true)
    (textual : part.inBinary = false) (bare : hunk.body = []) :
    parser.ReadsNext base (writtenLine hunk.opening) lineNumber
      { part with openHunk := some hunk } := by
  obtain ⟨first, eofOld, eofNew, held, endedOld, endedNew⟩ := reads.file
  obtain ⟨unopened, unbroken, unbinary, headed⟩ := (mayOpen_iff part).1 may
  obtain ⟨plain, undiff, notOld, notNew, begins⟩ := hunk_plain hunk
  have closed : parser.hunk = none := by rw [reads.hunk, unopened, Option.map_none]
  have bodies : Section.bodies { part with openHunk := some hunk } = part.bodies := by
    simp [Section.bodies, unopened, bare]
  have opens : hunk.buf parser.nextHunkId =
      { id := parser.nextHunkId, sectionHeading := hunk.header.sectionHeading,
        oldStart := hunk.header.oldStart, newStart := hunk.header.newStart,
        oldLine := hunk.header.oldStart, newLine := hunk.header.newStart,
        remOld := hunk.header.oldCount, remNew := hunk.header.newCount, lines := [] } := by
    obtain ⟨oldBound, newBound⟩ := parseHunkHeader_le _ _ hunk.read
    simp only [HunkText.buf, HunkText.patchLines, bare, oldUsed, newUsed, numberBody,
      List.countP_nil, Nat.add_zero, Nat.sub_zero, Nat.min_eq_left oldBound,
      Nat.min_eq_left newBound]
  have dispatch : (parser.readying lineNumber).dispatchNonBody hunk.opening lineNumber
      parser.hunkMayOpen =
      .ok ({ parser.readying lineNumber with
        file := some ((Section.buf { part with openHunk := some hunk }).renumber base first eofOld
          eofNew)
        nextHunkId := parser.nextHunkId + 1
        hunk := some (hunk.buf parser.nextHunkId) }, .interpreted) := by
    have awaiting : (part.buf.renumber base first eofOld eofNew).awaitingNewHeader = false := by
      by_contra awaits
      rw [Bool.not_eq_false] at awaits
      obtain ⟨unhunked, _⟩ := shaped.settled awaits
      have waits : part.awaiting = true := awaits
      simp only [Section.awaiting, Bool.and_eq_true, Option.isNone_iff_eq_none] at waits
      rcases headed with named | hunked | ⟨unnamed, _⟩
      · simp [waits.2] at named
      · exact hunked unhunked
      · simp [unnamed] at waits
    rw [dispatchNonBody_header _ _ _ _ undiff (by rw [Parser.readying, held]; exact textual),
      opens, buf_hunk part hunk shaped may textual bare]
    simp only [Parser.dispatchHeader, Parser.readying, held, Option.any_some, awaiting,
      Bool.false_and, Bool.false_eq_true, if_false, notOld, notNew, begins, if_true,
      Parser.openHunk, hunk.read, reads.mayOpen, may, Option.filter_some, bind, Except.bind]
    have settled : part.buf.awaitingNewHeader = false := awaiting
    simp only [settled]
    rfl
  refine ⟨_, step_interpreted parser _ hunk.opening lineNumber plain closed terminated dispatch
    rfl, ?_, rfl, rfl⟩
  have next := reads.next
  simp only [unopened, Option.toList_none, List.length_nil, Nat.add_zero] at next
  exact {
    file := ⟨first, eofOld, eofNew, rfl, by rw [endedOld, Section.endedOld, Section.endedOld, bodies],
      by rw [endedNew, Section.endedNew, Section.endedNew, bodies]⟩
    hunk := by rw [next]; rfl
    next := by rw [next]; rfl
    canMark := by simp [Section.canMark, Section.lastHunk, bare, Parser.readying]
    mayOpen := by simp [Section.mayOpen, Parser.readying]
    p0 := reads.p0 }

theorem bodyKind_plain (line : Str) (kind : PatchLineKind) (read : bodyKind line = some kind) :
    startsWith ['\\'] line = false := by
  by_contra begins
  rw [Bool.not_eq_false, startsWith_iff] at begins
  obtain ⟨rest, rfl⟩ := begins
  simp [bodyKind] at read

theorem endedSide_eq_none (file : FileBuf) (line : Str) (kind : PatchLineKind)
    (read : bodyKind line = some kind)
    (unended : ((onOld kind && file.eofOld.isSome) || (onNew kind && file.eofNew.isSome)) = false) :
    file.endedSide line = none := by
  simp only [bodyKind] at read
  simp only [FileBuf.endedSide]
  split at read <;> cases read <;> simp_all [onOld, onNew]

theorem room_of_fits (hunk : HunkText) (id : HunkId) (kind : PatchLineKind)
    (fits : hunk.fits kind = true) :
    ((onOld kind && (hunk.buf id).remOld = 0) || (onNew kind && (hunk.buf id).remNew = 0)) =
      false ∧ (decide (0 < (hunk.buf id).remOld) || decide (0 < (hunk.buf id).remNew)) = true := by
  have oldRest : (hunk.buf id).remOld = hunk.header.oldCount - oldUsed hunk.body := rfl
  have newRest : (hunk.buf id).remNew = hunk.header.newCount - newUsed hunk.body := rfl
  simp only [HunkText.fits, Bool.and_eq_true, Bool.or_eq_true, Bool.not_eq_true',
    decide_eq_true_eq] at fits
  obtain ⟨old, new⟩ := fits
  simp only [Bool.or_eq_false_iff, Bool.and_eq_false_iff, decide_eq_false_iff_not,
    Bool.or_eq_true, decide_eq_true_eq, oldRest, newRest]
  refine ⟨⟨old.imp_right (by omega), new.imp_right (by omega)⟩, ?_⟩
  cases kind with
  | added =>
    have room := new.resolve_left (by decide)
    omega
  | context | removed =>
    have room := old.resolve_left (by decide)
    omega

theorem full_buf (hunk : HunkText) (id : HunkId) (within : hunk.within) :
    (decide ((hunk.buf id).remOld = 0) && decide ((hunk.buf id).remNew = 0)) = hunk.full := by
  have oldRest : (hunk.buf id).remOld = hunk.header.oldCount - oldUsed hunk.body := rfl
  have newRest : (hunk.buf id).remNew = hunk.header.newCount - newUsed hunk.body := rfl
  obtain ⟨old, new⟩ := within
  rw [Bool.eq_iff_iff]
  simp only [HunkText.full, Bool.and_eq_true, decide_eq_true_eq, oldRest, newRest]
  omega

/-- A body line as it is before the parser learns that it was decoded lossily. -/
def BodyLine.clean (line : BodyLine) : BodyLine := { line with lossy := false }

theorem patchLines_clean (hunk : HunkText) (line : BodyLine) :
    (hunk.add line).patchLines =
      if line.lossy then (hunk.add line.clean).patchLines.modifyLast fun body =>
        { body with lossy := true }
      else (hunk.add line.clean).patchLines := by
  simp only [patchLines_add, List.modifyLast_concat, BodyLine.clean, BodyLine.patchLine]
  cases line.lossy <;> rfl

theorem patchLines_add_ne_nil (hunk : HunkText) (line : BodyLine) :
    (hunk.add line).patchLines ≠ [] := by
  simp [patchLines_add]

theorem feed_body (parser : Parser) (base : HunkId) (part : Section) (hunk : HunkText)
    (line : BodyLine) (lineNumber : Nat) (reads : parser.ReadsPart base part)
    (shaped : part.Shaped) (opened : part.openHunk = some hunk)
    (fits : hunk.fits line.kind = true) (unended : part.ended line.kind = false)
    (unmarked : line.marker = none) :
    parser.feed line.text lineNumber line.lossy =
      if (hunk.add line).full then
        (Parser.closeHunk { parser.readying lineNumber with
          hunk := some ((hunk.add line.clean).buf (base + part.hunks.length))
          canMarkEof := true } lineNumber).map fun closed => { closed with hunkMayOpen := true }
      else
        .ok { parser.readying lineNumber with
          hunk := some ((hunk.add line.clean).buf (base + part.hunks.length))
          canMarkEof := true } := by
  obtain ⟨first, eofOld, eofNew, held, endedOld, endedNew⟩ := reads.file
  have plain := bodyKind_plain line.text line.kind line.read
  have holds : parser.hunk = some (hunk.buf (base + part.hunks.length)) := by
    rw [reads.hunk, opened, Option.map_some]
  obtain ⟨room, remaining⟩ := room_of_fits hunk (base + part.hunks.length) line.kind fits
  have taken : (hunk.buf (base + part.hunks.length)).take line.kind line.text.tail =
      (hunk.add line.clean).buf (base + part.hunks.length) :=
    buf_take hunk line.clean (base + part.hunks.length) unmarked rfl
  have within := fits_within hunk line.clean (shaped.opened hunk opened).1 fits
  have full : (hunk.add line.clean).full = (hunk.add line).full := by
    simp [HunkText.full, HunkText.add, BodyLine.clean, oldUsed, newUsed]
  have side : (part.buf.renumber base first eofOld eofNew).endedSide line.text = none := by
    apply endedSide_eq_none _ _ _ line.read
    simpa only [FileBuf.renumber, endedOld, endedNew, Section.ended] using unended
  simp only [Parser.feed, plain, Bool.false_eq_true, if_false, holds, remaining, if_true,
    consumeBody_eq, line.read, Option.map_some, room, bind, Except.bind, held, Option.bind_some,
    side, taken, full_buf _ _ within, full, Parser.readying]
  cases (hunk.add line).full with
  | false => rfl
  | true =>
    simp only [if_true]
    cases Parser.closeHunk _ lineNumber <;> rfl

theorem step_fed (parser fed : Parser) (line : Str) (lineNumber : Nat) (lossy : Bool)
    (terminated : parser.unterminatedLast ≠ some lineNumber ∨ fed.canMarkEof = false)
    (feeds : parser.feed line lineNumber lossy = .ok fed) :
    parser.step line lineNumber lossy = .ok (if lossy then fed.markLossy else fed) := by
  have allowed : (decide (parser.unterminatedLast = some lineNumber) && fed.canMarkEof) = false := by
    rw [Bool.and_eq_false_iff, decide_eq_false_iff_not]
    exact terminated
  simp only [Parser.step, feeds, bind, Except.bind, allowed, Bool.false_eq_true, if_false]
  cases lossy <;> rfl

theorem markLossy_open (parser : Parser) (base : HunkId) (hunk : HunkText) (line : BodyLine)
    (file : FileBuf) (held : parser.file = some file) (marks : parser.canMarkEof = true)
    (opened : parser.hunk = some ((hunk.add line.clean).buf base)) :
    (if line.lossy then parser.markLossy else parser) =
      { parser with
        file := some (file.counting line.lossy)
        hunk := some ((hunk.add line).buf base) } := by
  have lines := patchLines_clean hunk line
  have nonempty : ((hunk.add line.clean).buf base).lines ≠ [] := patchLines_add_ne_nil hunk _
  have same : (hunk.add line).buf base =
      { (hunk.add line.clean).buf base with lines := (hunk.add line).patchLines } := by
    simp [HunkText.buf, HunkText.add, BodyLine.clean, oldUsed, newUsed]
  cases lossy : line.lossy with
  | false =>
    rw [lossy, if_neg Bool.false_ne_true] at lines
    rw [same, lines]
    simp only [Bool.false_eq_true, if_false, FileBuf.counting, ← held]
    rw [show { (hunk.add line.clean).buf base with lines := (hunk.add line.clean).patchLines } =
      (hunk.add line.clean).buf base from rfl, ← opened]
  | true =>
    rw [lossy, if_pos rfl] at lines
    rw [same, lines]
    simp only [if_true, Parser.markLossy, marks, Parser.modifyLastBodyLine, held, opened, nonempty,
      if_false]
    rfl

theorem markLossy_closed (parser : Parser) (lossy : Bool) (file : FileBuf)
    (held : parser.file = some file) (marks : parser.canMarkEof = true)
    (unopened : parser.hunk = none) :
    (if lossy then parser.markLossy else parser) =
      { parser with
        file := some { file.counting lossy with
          hunks := if lossy then file.hunks.modifyLast fun closed =>
              { closed with lines := closed.lines.modifyLast fun body => { body with lossy := true } }
            else file.hunks } } := by
  cases lossy with
  | false =>
    simp only [Bool.false_eq_true, if_false, FileBuf.counting, ← held]
  | true =>
    simp only [if_true, Parser.markLossy, marks, Parser.modifyLastBodyLine, held, unopened]
    rfl

theorem markLossy_outside (parser : Parser) (lossy : Bool) (marks : parser.canMarkEof = false) :
    (if lossy then parser.markLossy else parser) =
      { parser with file := parser.file.map (·.counting lossy) } := by
  cases lossy with
  | false =>
    have same : (fun file : FileBuf => file.counting false) = id := rfl
    rw [same, Option.map_id]
    rfl
  | true =>
    simp only [if_true, Parser.markLossy, marks, Bool.false_eq_true, if_false]
    rfl

theorem canMark_add (part : Section) (hunk : HunkText) (line : BodyLine)
    (last : part.lastHunk = some (hunk.add line)) (unbroken : part.trailing = []) :
    part.canMark = line.marker.isNone := by
  simp [Section.canMark, last, unbroken, HunkText.add]

theorem counting_renumber (file : FileBuf) (base first : Nat) (eofOld eofNew : Option Nat)
    (lossy : Bool) :
    (file.renumber base first eofOld eofNew).counting lossy =
      (file.counting lossy).renumber base first eofOld eofNew := rfl

theorem reads_body (parser : Parser) (base : HunkId) (part : Section) (hunk : HunkText)
    (line : BodyLine) (lineNumber : Nat) (reads : parser.ReadsPart base part)
    (shaped : part.Shaped) (terminated : parser.unterminatedLast ≠ some lineNumber)
    (opened : part.openHunk = some hunk) (fits : hunk.fits line.kind = true)
    (unended : part.ended line.kind = false) (unmarked : line.marker = none)
    (unfilled : (hunk.add line).full = false) :
    parser.ReadsNext base { text := line.text, lossy := line.lossy } lineNumber
      { part with openHunk := some (hunk.add line) } := by
  have fed := feed_body parser base part hunk line lineNumber reads shaped opened fits unended
    unmarked
  rw [unfilled, if_neg Bool.false_ne_true] at fed
  have step := step_fed parser _ line.text lineNumber line.lossy (.inl terminated) fed
  obtain ⟨first, eofOld, eofNew, held, endedOld, endedNew⟩ := reads.file
  have marked := markLossy_open { parser.readying lineNumber with
    hunk := some ((hunk.add line.clean).buf (base + part.hunks.length))
    canMarkEof := true } _ hunk line _ held rfl rfl
  rw [counting_renumber, ← buf_body part hunk line shaped opened fits unended unmarked unfilled]
    at marked
  have bodies : Section.bodies { part with openHunk := some (hunk.add line) } =
      part.bodies ++ [line] := by
    simp [Section.bodies, opened, HunkText.add]
  have next := reads.next
  rw [opened] at next
  refine ⟨_, step.trans (congrArg Except.ok marked), ?_, rfl, rfl⟩
  have unbroken := shaped.unbroken (by simp [opened])
  have marks := canMark_add { part with openHunk := some (hunk.add line) } hunk line rfl unbroken
  exact {
    file := ⟨first, eofOld, eofNew, rfl, by simp [Section.endedOld, bodies, unmarked, endedOld],
      by simp [Section.endedNew, bodies, unmarked, endedNew]⟩
    hunk := rfl
    next := next
    canMark := by rw [marks, unmarked]; rfl
    mayOpen := by simp [Section.mayOpen, Parser.readying]
    p0 := reads.p0 }

theorem numberBody_kinds (old new : Nat) (body : List BodyLine) :
    (numberBody old new body).map (·.kind) = body.map (·.kind) := by
  induction body generalizing old new with
  | nil => rfl
  | cons line body ih => simp only [numberBody, List.map_cons, ih, BodyLine.patchLine]

theorem patchLines_context (hunk : HunkText) :
    hunk.patchLines.all (fun line => line.kind = .context) = !hunk.changes := by
  have kinds := numberBody_kinds hunk.header.oldStart hunk.header.newStart hunk.body
  have each : hunk.patchLines.all (fun line => decide (line.kind = .context)) =
      (hunk.patchLines.map (·.kind)).all (fun kind => decide (kind = .context)) := by
    rw [List.all_map]
    rfl
  rw [each, HunkText.patchLines, kinds, List.all_map, HunkText.changes, List.not_any_eq_all_not]
  congr 1
  funext line
  simp

theorem closeHunk_full (parser : Parser) (hunk : HunkText) (id : HunkId) (lineNumber : Nat)
    (opened : parser.hunk = some (hunk.buf id)) (within : hunk.within) (full : hunk.full = true)
    (changes : hunk.changes = true) :
    parser.closeHunk lineNumber = .ok { parser with
      hunk := none
      file := parser.file.map fun file => { file with hunks := file.hunks ++ [hunk.patch id] } } := by
  have used := full_buf hunk id within
  rw [full, Bool.and_eq_true, decide_eq_true_eq, decide_eq_true_eq] at used
  have context : (hunk.buf id).lines.all (fun line => line.kind = .context) = false := by
    rw [show (hunk.buf id).lines = hunk.patchLines from rfl, patchLines_context, changes]
    rfl
  simp only [Parser.closeHunk, opened, used.1, used.2, context, ne_eq, not_true_eq_false, or_self,
    if_false, Bool.false_eq_true]
  rfl

theorem patch_lossy (hunks : List PatchHunk) (hunk : HunkText) (line : BodyLine) (id : HunkId) :
    (if line.lossy then (hunks ++ [(hunk.add line.clean).patch id]).modifyLast fun closed =>
        { closed with lines := closed.lines.modifyLast fun body => { body with lossy := true } }
      else hunks ++ [(hunk.add line.clean).patch id]) = hunks ++ [(hunk.add line).patch id] := by
  have lines := patchLines_clean hunk line
  cases lossy : line.lossy with
  | false =>
    rw [lossy, if_neg Bool.false_ne_true] at lines
    simp only [Bool.false_eq_true, if_false, HunkText.patch, lines]
    rfl
  | true =>
    rw [lossy, if_pos rfl] at lines
    simp only [if_true, List.modifyLast_concat, HunkText.patch, lines]
    rfl

theorem reads_lastBody (parser : Parser) (base : HunkId) (part : Section) (hunk : HunkText)
    (line : BodyLine) (lineNumber : Nat) (reads : parser.ReadsPart base part)
    (shaped : part.Shaped) (terminated : parser.unterminatedLast ≠ some lineNumber)
    (opened : part.openHunk = some hunk) (fits : hunk.fits line.kind = true)
    (unended : part.ended line.kind = false) (unmarked : line.marker = none)
    (filled : (hunk.add line).full = true) (changes : (hunk.add line).changes = true) :
    parser.ReadsNext base { text := line.text, lossy := line.lossy } lineNumber
      { part with hunks := part.hunks ++ [hunk.add line], openHunk := none } := by
  have fed := feed_body parser base part hunk line lineNumber reads shaped opened fits unended
    unmarked
  obtain ⟨first, eofOld, eofNew, held, endedOld, endedNew⟩ := reads.file
  rw [filled, if_pos rfl] at fed
  have within := fits_within hunk line.clean (shaped.opened hunk opened).1 fits
  have full : (hunk.add line.clean).full = true := by
    simpa [HunkText.full, HunkText.add, BodyLine.clean, oldUsed, newUsed] using filled
  have changed : (hunk.add line.clean).changes = true := by
    simpa [HunkText.changes, HunkText.add, BodyLine.clean] using changes
  have closes := closeHunk_full { parser.readying lineNumber with
    hunk := some ((hunk.add line.clean).buf (base + part.hunks.length))
    canMarkEof := true } (hunk.add line.clean) _ lineNumber rfl within full changed
  rw [closes] at fed
  have step := step_fed parser _ line.text lineNumber line.lossy (.inl terminated) fed
  have marked := markLossy_closed { parser.readying lineNumber with
    hunk := none
    canMarkEof := true
    hunkMayOpen := true
    file := parser.file.map fun file => { file with
      hunks := file.hunks ++ [(hunk.add line.clean).patch (base + part.hunks.length)] } }
    line.lossy { part.buf.renumber base first eofOld eofNew with
      hunks := shiftHunks base part.buf.hunks ++
        [(hunk.add line.clean).patch (base + part.hunks.length)] } (by rw [held]; rfl) rfl rfl
  have bodies : Section.bodies
      { part with hunks := part.hunks ++ [hunk.add line], openHunk := none } =
      part.bodies ++ [line] := by
    simp [Section.bodies, opened, HunkText.add]
  have next := reads.next
  rw [opened] at next
  have unbroken := shaped.unbroken (by simp [opened])
  have textual := textual_of_past part shaped (by simp [Section.past, opened])
  have marks := canMark_add { part with hunks := part.hunks ++ [hunk.add line], openHunk := none }
    hunk line (by simp [Section.lastHunk]) unbroken
  refine ⟨_, step.trans (congrArg Except.ok marked), ?_, rfl, rfl⟩
  exact {
    file := by
      refine ⟨first, eofOld, eofNew, ?_, by simp [Section.endedOld, bodies, unmarked, endedOld],
        by simp [Section.endedNew, bodies, unmarked, endedNew]⟩
      have shifted : shiftHunks base
          (part.buf.hunks ++ [(hunk.add line).patch part.hunks.length]) =
          shiftHunks base part.buf.hunks ++ [(hunk.add line).patch (base + part.hunks.length)] := by
        simp [shiftHunks, HunkText.patch, Nat.add_comm]
      rw [buf_lastBody part hunk line shaped opened fits unended unmarked filled changes]
      simp only [patch_lossy, FileBuf.renumber, shifted]
      rfl
    hunk := rfl
    next := by
      rw [List.length_append]
      exact next
    canMark := by rw [marks, unmarked]; rfl
    mayOpen := by
      symm
      rw [mayOpen_iff]
      exact ⟨rfl, unbroken, unheaded_binary part shaped textual, .inr (.inl (by simp))⟩
    p0 := reads.p0 }

theorem feed_marker (parser : Parser) (lineNumber : Nat) (lossy : Bool)
    (marks : parser.canMarkEof = true) :
    parser.feed eofMarker lineNumber lossy =
      .ok { (parser.readying lineNumber).markEof eofMarker lineNumber with
        hunkMayOpen := parser.hunkMayOpen } := by
  have begins : startsWith ['\\'] eofMarker = true := by decide
  simp only [Parser.feed, begins, if_true, marks, Bool.not_true, Bool.false_or, ne_eq,
    not_true_eq_false, decide_false, Bool.false_eq_true, if_false]
  rfl

theorem ended_marked (earlier : List BodyLine) (line : BodyLine) (marker : InputLine)
    (side : PatchLineKind → Bool) :
    (earlier ++ [{ line with marker := some marker }]).any
        (fun line => line.marker.isSome && side line.kind) =
      (earlier.any (fun line => line.marker.isSome && side line.kind) || side line.kind) := by
  simp [List.any_append]

def FileBuf.marking (file : FileBuf) (kind : PatchLineKind) (lineNumber : Nat) : FileBuf :=
  { file with
    metadata := file.metadata ++ [eofMarker]
    eofOld := if onOld kind then some lineNumber else file.eofOld
    eofNew := if onNew kind then some lineNumber else file.eofNew }

theorem markEof_open (parser : Parser) (file : FileBuf) (hunk : HunkText) (line : BodyLine)
    (marker : InputLine) (id : HunkId) (lineNumber : Nat) (held : parser.file = some file)
    (opened : parser.hunk = some ((hunk.add line).buf id)) (unmarked : line.marker = none) :
    parser.markEof eofMarker lineNumber =
      { parser with
        hunk := some ((hunk.add { line with marker := some marker }).buf id)
        file := some (file.marking line.kind lineNumber) } := by
  have nonempty : ((hunk.add line).buf id).lines ≠ [] := patchLines_add_ne_nil hunk line
  have last : (((hunk.add line).buf id).lines.getLast?).map (·.kind) = some line.kind := by
    simp [HunkText.buf, patchLines_add, BodyLine.patchLine]
  have kind : parser.lastBodyLine.map (·.kind) = some line.kind := by
    obtain ⟨found, present⟩ : ∃ found, ((hunk.add line).buf id).lines.getLast? = some found :=
      Option.isSome_iff_exists.1 (by simp [nonempty])
    rw [present] at last
    simp only [Parser.lastBodyLine, held, opened, Option.bind_some, present, Option.some_or]
    exact last
  have marked : (hunk.add { line with marker := some marker }).buf id =
      { (hunk.add line).buf id with
        lines := ((hunk.add line).buf id).lines.modifyLast fun previous =>
          { previous with noNewline := true } } := by
    simp only [HunkText.buf, patchLines_add, List.modifyLast_concat, BodyLine.patchLine, unmarked,
      oldUsed_add, newUsed_add]
    rfl
  simp only [Parser.markEof, kind, Parser.modifyLastBodyLine, held, opened, nonempty, if_false,
    marked]
  cases line.kind <;> rfl

theorem markEof_closed (parser : Parser) (file : FileBuf) (hunks : List PatchHunk)
    (hunk : HunkText) (line : BodyLine) (id : HunkId) (lineNumber : Nat)
    (held : parser.file = some file) (unopened : parser.hunk = none)
    (closed : file.hunks = hunks ++ [(hunk.add line).patch id]) :
    parser.markEof eofMarker lineNumber =
      { parser with
        file := some { file.marking line.kind lineNumber with
          hunks := file.hunks.modifyLast fun closed =>
            { closed with lines := closed.lines.modifyLast fun previous =>
              { previous with noNewline := true } } } } := by
  have kind : parser.lastBodyLine.map (·.kind) = some line.kind := by
    simp only [Parser.lastBodyLine, held, unopened, Option.bind_none, Option.none_or, closed,
      List.getLast?_append, List.getLast?_singleton, Option.some_or, Option.bind_some,
      HunkText.patch, patchLines_add, Option.map_some]
    rfl
  simp only [Parser.markEof, kind, Parser.modifyLastBodyLine, held, unopened]
  cases line.kind <;> rfl

theorem isSome_marking (ended : Option Nat) (side : Bool) (lineNumber : Nat) :
    (if side = true then some lineNumber else ended).isSome = (ended.isSome || side) := by
  cases side <;> simp

theorem counting_outside (parser : Parser) (file : FileBuf) (lossy may : Bool)
    (held : parser.file = some file) (marks : parser.canMarkEof = false) :
    (if lossy then ({ parser with hunkMayOpen := may } : Parser).markLossy
      else { parser with hunkMayOpen := may }) =
      { parser with hunkMayOpen := may, file := some (file.counting lossy) } := by
  have marked := markLossy_outside { parser with hunkMayOpen := may } lossy marks
  rw [marked, held]
  rfl

theorem reads_marker (parser : Parser) (base : HunkId) (part : Section) (hunk : HunkText)
    (line : BodyLine) (marker : InputLine) (lineNumber : Nat) (reads : parser.ReadsPart base part)
    (shaped : part.Shaped) (text : marker.text = eofMarker)
    (opened : part.openHunk = some (hunk.add line)) (unmarked : line.marker = none) :
    parser.ReadsNext base marker lineNumber
      { part with openHunk := some (hunk.add { line with marker := some marker }) } := by
  obtain ⟨first, eofOld, eofNew, held, endedOld, endedNew⟩ := reads.file
  have unbroken := shaped.unbroken (by simp [opened])
  have marks : parser.canMarkEof = true := by
    rw [reads.canMark, canMark_add part hunk line (by simp [Section.lastHunk, opened]) unbroken,
      unmarked]
    rfl
  have holds : parser.hunk = some ((hunk.add line).buf (base + part.hunks.length)) := by
    rw [reads.hunk, opened, Option.map_some]
  have fed := feed_marker parser lineNumber marker.lossy marks
  rw [markEof_open (parser.readying lineNumber) _ hunk line marker _ lineNumber held holds unmarked,
    ← text] at fed
  have step := step_fed parser _ marker.text lineNumber marker.lossy (.inr rfl) fed
  have counted := counting_outside { parser.readying lineNumber with
    hunk := some ((hunk.add { line with marker := some marker }).buf (base + part.hunks.length))
    file := some ((part.buf.renumber base first eofOld eofNew).marking line.kind lineNumber) }
    _ marker.lossy parser.hunkMayOpen rfl rfl
  have before := bodies_of_open part _ opened
  have bodies : Section.bodies
      { part with openHunk := some (hunk.add { line with marker := some marker }) } =
      part.hunks.flatMap (·.body) ++ hunk.body ++ [{ line with marker := some marker }] := by
    simp [Section.bodies, HunkText.add]
  simp only [HunkText.add, ← List.append_assoc] at before
  have unmarkedOld : part.endedOld = (part.hunks.flatMap (·.body) ++ hunk.body).any
      (fun line => line.marker.isSome && onOld line.kind) := by
    simp [Section.endedOld, before, unmarked]
  have unmarkedNew : part.endedNew = (part.hunks.flatMap (·.body) ++ hunk.body).any
      (fun line => line.marker.isSome && onNew line.kind) := by
    simp [Section.endedNew, before, unmarked]
  have next := reads.next
  rw [opened] at next
  have mayOpen : parser.hunkMayOpen = false := by
    rw [reads.mayOpen]
    simp [Section.mayOpen, opened]
  have silent := canMark_add
    { part with openHunk := some (hunk.add { line with marker := some marker }) } hunk
    { line with marker := some marker } rfl unbroken
  refine ⟨_, step.trans (congrArg Except.ok counted), ?_, rfl, rfl⟩
  exact {
    file := by
      refine ⟨first, if onOld line.kind then some lineNumber else eofOld,
        if onNew line.kind then some lineNumber else eofNew, ?_, ?_, ?_⟩
      · rw [buf_marker part hunk line marker shaped text opened unmarked]
        rfl
      · rw [isSome_marking, endedOld, unmarkedOld, Section.endedOld, bodies, ended_marked]
      · rw [isSome_marking, endedNew, unmarkedNew, Section.endedNew, bodies, ended_marked]
    hunk := rfl
    next := next
    canMark := silent.symm
    mayOpen := by
      rw [mayOpen]
      simp [Section.mayOpen]
    p0 := reads.p0 }

theorem shiftHunks_modifyLast (base : HunkId) (hunks : List PatchHunk)
    (change : List PatchLine → List PatchLine) :
    shiftHunks base (hunks.modifyLast fun closed => { closed with lines := change closed.lines }) =
      (shiftHunks base hunks).modifyLast fun closed =>
        { closed with lines := change closed.lines } := by
  induction hunks using List.reverseRecOn with
  | nil => rfl
  | append_singleton hunks last _ =>
    simp only [shiftHunks, List.map_append, List.map_cons, List.map_nil, List.modifyLast_concat]

theorem reads_lastMarker (parser : Parser) (base : HunkId) (part : Section)
    (hunks : List HunkText) (hunk : HunkText) (line : BodyLine) (marker : InputLine)
    (lineNumber : Nat) (reads : parser.ReadsPart base part) (shaped : part.Shaped)
    (text : marker.text = eofMarker) (unopened : part.openHunk = none)
    (unbroken : part.trailing = []) (last : part.hunks = hunks ++ [hunk.add line])
    (unmarked : line.marker = none) :
    parser.ReadsNext base marker lineNumber
      { part with hunks := hunks ++ [hunk.add { line with marker := some marker }] } := by
  obtain ⟨first, eofOld, eofNew, held, endedOld, endedNew⟩ := reads.file
  have marks : parser.canMarkEof = true := by
    rw [reads.canMark,
      canMark_add part hunk line (by simp [Section.lastHunk, unopened, last]) unbroken, unmarked]
    rfl
  have closed : parser.hunk = none := by rw [reads.hunk, unopened, Option.map_none]
  have held' : (part.buf.renumber base first eofOld eofNew).hunks =
      numberHunks base hunks ++ [(hunk.add line).patch (base + hunks.length)] := by
    have shifted := shiftHunks_numberHunks base 0 part.hunks
    rw [last, Nat.zero_add, numberHunks_append base] at shifted
    simpa only [FileBuf.renumber, Section.buf, last, numberHunks] using shifted
  have fed := feed_marker parser lineNumber marker.lossy marks
  rw [markEof_closed (parser.readying lineNumber) _ _ hunk line _ lineNumber held closed held',
    ← text] at fed
  have step := step_fed parser _ marker.text lineNumber marker.lossy (.inr rfl) fed
  have counted := counting_outside { parser.readying lineNumber with
    file := some { (part.buf.renumber base first eofOld eofNew).marking line.kind lineNumber with
      hunks := (part.buf.renumber base first eofOld eofNew).hunks.modifyLast fun closed =>
        { closed with lines := closed.lines.modifyLast fun previous =>
          { previous with noNewline := true } } } }
    _ marker.lossy parser.hunkMayOpen rfl rfl
  have before : part.bodies = hunks.flatMap (·.body) ++ hunk.body ++ [line] := by
    simp [Section.bodies, unopened, last, HunkText.add]
  have bodies : Section.bodies
      { part with hunks := hunks ++ [hunk.add { line with marker := some marker }] } =
      hunks.flatMap (·.body) ++ hunk.body ++ [{ line with marker := some marker }] := by
    simp [Section.bodies, unopened, HunkText.add]
  have unmarkedOld : part.endedOld = (hunks.flatMap (·.body) ++ hunk.body).any
      (fun line => line.marker.isSome && onOld line.kind) := by
    simp [Section.endedOld, before, unmarked]
  have unmarkedNew : part.endedNew = (hunks.flatMap (·.body) ++ hunk.body).any
      (fun line => line.marker.isSome && onNew line.kind) := by
    simp [Section.endedNew, before, unmarked]
  have silent := canMark_add
    { part with hunks := hunks ++ [hunk.add { line with marker := some marker }] } hunk
    { line with marker := some marker } (by simp [Section.lastHunk, unopened]) unbroken
  refine ⟨_, step.trans (congrArg Except.ok counted), ?_, rfl, rfl⟩
  exact {
    file := by
      refine ⟨first, if onOld line.kind then some lineNumber else eofOld,
        if onNew line.kind then some lineNumber else eofNew, ?_, ?_, ?_⟩
      · rw [buf_lastMarker part hunks hunk line marker shaped text unopened unbroken last unmarked]
        simp only [FileBuf.renumber, shiftHunks_modifyLast]
        rfl
      · rw [isSome_marking, endedOld, unmarkedOld, Section.endedOld, bodies, ended_marked]
      · rw [isSome_marking, endedNew, unmarkedNew, Section.endedNew, bodies, ended_marked]
    hunk := by
      rw [unopened]
      exact closed
    next := by
      have next := reads.next
      rw [last, List.length_append] at next
      rw [List.length_append]
      exact next
    canMark := silent.symm
    mayOpen := by
      have may : part.mayOpen = parser.hunkMayOpen := reads.mayOpen.symm
      simp only [Section.mayOpen, last] at may
      rw [← may]
      simp [Section.mayOpen]
    p0 := reads.p0 }

theorem framing_plain (line : Str) (framing : isFraming line = true) :
    startsWith ['\\'] line = false ∧ opensDiff line = false ∧
      stripPrefix "--- ".toList (trimmed line) = none ∧
      stripPrefix "+++ ".toList (trimmed line) = none ∧
      startsWith "@@".toList (trimmed line) = false := by
  simp only [isFraming, Bool.and_eq_true, Bool.not_eq_true'] at framing
  obtain ⟨⟨⟨⟨⟨plain, undiff⟩, old⟩, new⟩, hunk⟩, _⟩ := framing
  exact ⟨plain, undiff, (stripPrefix_eq_none _ _).2 old, (stripPrefix_eq_none _ _).2 new, hunk⟩

/-- A line no rule reads is ignored, and at most ends a Git section's headers. -/
theorem dispatch_framing (parser : Parser) (line : Str) (lineNumber : Nat) (may : Bool)
    (framing : isFraming line = true) (textual : parser.file.any (·.inBinaryBody) = false)
    (settled : parser.file.any (·.awaitingNewHeader) = false)
    (plain : ∀ file ∈ parser.file, file.tryMetadata (trimmed line) lineNumber = .ok none) :
    parser.dispatchNonBody line lineNumber may = .ok (parser, .ignored) := by
  obtain ⟨_, undiff, old, new, hunk⟩ := framing_plain line framing
  have ending : (if trimmed line = "---".toList || trimmed line = "-- ".toList then
      (pure (parser, .ignored) : Except PatchParseError (Parser × LineUse))
    else if startsWith ['+'] (trimmed line) || startsWith ['-'] (trimmed line) then
      .error (.bodyLineOutsideHunk lineNumber (trimmed line))
    else pure (parser, .ignored)) = .ok (parser, .ignored) := by
    simp only [isFraming, Bool.and_eq_true] at framing
    by_cases framed : (trimmed line = "---".toList || trimmed line = "-- ".toList) = true
    · rw [if_pos framed]
      rfl
    · have unsigned := framing.2
      rw [eq_false_of_ne_true framed, Bool.false_or, Bool.not_eq_true'] at unsigned
      rw [if_neg framed, unsigned]
      rfl
  rw [dispatchNonBody_header _ _ _ _ undiff textual]
  simp only [Parser.dispatchHeader, settled, Bool.false_and, Bool.false_eq_true, if_false, old, new,
    hunk]
  cases held : parser.file with
  | none => exact ending
  | some file =>
    simp only [plain file held, bind, Except.bind]
    exact ending

theorem step_framing (parser : Parser) (line : Str) (lineNumber : Nat) (lossy : Bool)
    (framing : isFraming line = true) (unopened : parser.hunk = none)
    (dispatch : (parser.readying lineNumber).dispatchNonBody line lineNumber parser.hunkMayOpen =
      .ok (parser.readying lineNumber, .ignored)) :
    parser.step line lineNumber lossy = .ok { parser.readying lineNumber with
      file := parser.file.map fun file =>
        (if file.git && !file.pastHeaders then { file with headerEnded := true }
          else file).counting lossy } := by
  obtain ⟨plain, _⟩ := framing_plain line framing
  have fed : parser.feed line lineNumber lossy = .ok { parser.readying lineNumber with
      file := parser.file.map fun file =>
        if file.git && !file.pastHeaders then { file with headerEnded := true } else file } := by
    simp only [Parser.feed, plain, Bool.false_eq_true, if_false, unopened, Parser.feedNonBody]
    simp only [Parser.readying, unopened] at dispatch
    simp only [dispatch, bind, Except.bind, Parser.readying, unopened]
    rfl
  have step := step_fed parser _ line lineNumber lossy (.inr rfl) fed
  rw [step, markLossy_outside _ _ rfl, Option.map_map]
  rfl

theorem reads_trailing (parser : Parser) (base : HunkId) (part : Section) (line : InputLine)
    (lineNumber : Nat) (reads : parser.ReadsPart base part) (shaped : part.Shaped)
    (unopened : part.openHunk = none) (settled : part.awaiting = false)
    (textual : part.inBinary = false) (framing : isFraming line.text = true)
    (plain : isExtended (trimmed line.text) = false)
    (moves : part.past = true ∨ (startsWith "rename old ".toList (trimmed line.text) = false ∧
      startsWith "rename new ".toList (trimmed line.text) = false)) :
    parser.ReadsNext base line lineNumber { part with trailing := part.trailing ++ [line] } := by
  obtain ⟨first, eofOld, eofNew, held, endedOld, endedNew⟩ := reads.file
  have closed : parser.hunk = none := by rw [reads.hunk, unopened, Option.map_none]
  have dispatch := dispatch_framing (parser.readying lineNumber) line.text lineNumber
    parser.hunkMayOpen framing (by rw [Parser.readying, held]; exact textual)
    (by rw [Parser.readying, held]; exact settled) (by
      rintro file same
      rw [Parser.readying, held] at same
      cases same
      exact tryMetadata_plain _ _ _ plain moves)
  have step := step_framing parser line.text lineNumber line.lossy framing closed dispatch
  refine ⟨_, step, ?_, rfl, rfl⟩
  exact {
    file := by
      refine ⟨first, eofOld, eofNew, ?_, endedOld, endedNew⟩
      rw [buf_trailing part line shaped unopened settled textual framing plain moves]
      have git : (part.buf.renumber base first eofOld eofNew).git = part.git := rfl
      have past : (part.buf.renumber base first eofOld eofNew).pastHeaders = part.past := rfl
      simp only [held, Option.map_some, git, past]
      cases part.git && !part.past with
      | true => simp only [if_true, Bool.or_true]; rfl
      | false => simp only [Bool.false_eq_true, if_false, Bool.or_false]; rfl
    hunk := by
      rw [unopened]
      exact closed
    next := reads.next
    canMark := by simp [Section.canMark, Parser.readying]
    mayOpen := by simp [Section.mayOpen, Parser.readying]
    p0 := reads.p0 }

theorem reads_grows (parser : Parser) (base : HunkId) (part grown : Section) (input : InputLine)
    (lineNumber : Nat) (reads : parser.ReadsPart base part) (shaped : part.Shaped)
    (terminated : input.terminated = true → parser.unterminatedLast ≠ some lineNumber)
    (grows : part.Grows input grown) : parser.ReadsNext base input lineNumber grown := by
  cases grows with
  | extended line git early unbroken textual read =>
    exact reads_extended parser base part line lineNumber reads shaped (terminated rfl) git early
      unbroken textual read
  | binary line binary read =>
    exact reads_binary parser base part line lineNumber reads shaped (terminated rfl) binary read
  | oldName line git early unbroken textual old named =>
    exact reads_oldName parser base part line lineNumber reads shaped (terminated rfl) git early
      unbroken textual old named
  | newName line awaiting new named =>
    exact reads_newName parser base part line lineNumber reads shaped (terminated rfl) awaiting new
      named
  | hunk hunk may textual bare =>
    exact reads_hunk parser base part hunk lineNumber reads shaped (terminated rfl) may textual bare
  | body hunk line opened fits unended unmarked unfilled =>
    exact reads_body parser base part hunk line lineNumber reads shaped (terminated rfl) opened fits
      unended unmarked unfilled
  | lastBody hunk line opened fits unended unmarked filled changes =>
    exact reads_lastBody parser base part hunk line lineNumber reads shaped (terminated rfl) opened
      fits unended unmarked filled changes
  | marker hunk line _ text opened unmarked =>
    exact reads_marker parser base part hunk line input lineNumber reads shaped text opened unmarked
  | lastMarker hunks hunk line _ text unopened unbroken last unmarked =>
    exact reads_lastMarker parser base part hunks hunk line input lineNumber reads shaped text
      unopened unbroken last unmarked
  | trailing _ unopened settled textual framing plain moves =>
    exact reads_trailing parser base part input lineNumber reads shaped unopened settled textual
      framing plain moves

end DeepDiffForge.Patch
