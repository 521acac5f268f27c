import DeepDiffForge.Patch.Capture
import DeepDiffForge.Patch.Sections

/-! Lines grow into one document: what each line is read as is settled by the section it is read
in. -/

namespace DeepDiffForge.Patch
open Text DeepDiffForge.Core

/-- The `---` or `+++` line a line is. -/
def nameLine (start line : Str) (dated : Bool) : Option NameLine :=
  (stripPrefix start (trimmed line)).bind fun rest =>
    (headerName rest dated).map fun name => { text := line, rest, name }

def openedHunk (line : Str) : Option HunkText :=
  match read : parseHunkHeader (trimmed line) with
  | some header => some { opening := line, header, body := [], read }
  | none => none

def hunkLine (input : InputLine) : Option BodyLine :=
  match read : bodyKind input.text with
  | some kind => some { text := input.text, kind, lossy := input.lossy, marker := none, read }
  | none => none

def HunkText.mark (hunk : HunkText) (marker : InputLine) : HunkText :=
  { hunk with body := hunk.body.modifyLast fun line => { line with marker := some marker } }

def Section.next (part : Section) (input : InputLine) : Section :=
  let line := input.text
  if startsWith ['\\'] line then
    match part.openHunk with
    | some hunk => { part with openHunk := some (hunk.mark input) }
    | none => { part with hunks := part.hunks.modifyLast (·.mark input) }
  else
    match part.openHunk with
    | some hunk =>
        match hunkLine input with
        | some body =>
            if (hunk.add body).full then
              { part with hunks := part.hunks ++ [hunk.add body], openHunk := none }
            else { part with openHunk := some (hunk.add body) }
        | none => part
    | none =>
        if part.inBinary then { part with binary := part.binary ++ [line] }
        else if startsWith "--- ".toList (trimmed line) then
          { part with oldName := nameLine "--- ".toList line false }
        else if startsWith "+++ ".toList (trimmed line) then
          { part with
            newName := nameLine "+++ ".toList line (!part.git && !hadCr line) }
        else if startsWith "@@".toList (trimmed line) then
          { part with openHunk := openedHunk line }
        else if isExtended (trimmed line) then { part with extended := part.extended ++ [line] }
        else { part with trailing := part.trailing ++ [input] }

theorem nameLine_eq (line : NameLine) (start : Str) (dated : Bool)
    (begins : trimmed line.text = start ++ line.rest)
    (named : headerName line.rest dated = some line.name) :
    nameLine start line.text dated = some line := by
  simp only [nameLine, begins, stripPrefix_append, Option.bind_some, named, Option.map_some]

theorem openedHunk_eq (hunk : HunkText) (bare : hunk.body = []) :
    openedHunk hunk.opening = some hunk := by
  obtain ⟨opening, header, body, read⟩ := hunk
  obtain rfl : body = [] := bare
  simp only [openedHunk]
  split
  · rename_i found present
    cases present.symm.trans read
    rfl
  · rename_i absent
    cases absent.symm.trans read

theorem hunkLine_eq (line : BodyLine) (unmarked : line.marker = none) :
    hunkLine { text := line.text, lossy := line.lossy } = some line := by
  obtain ⟨text, kind, lossy, marker, read⟩ := line
  obtain rfl : marker = none := unmarked
  simp only [hunkLine]
  split
  · rename_i found present
    cases present.symm.trans read
    rfl
  · rename_i absent
    cases absent.symm.trans read

theorem mark_add (hunk : HunkText) (line : BodyLine) (marker : InputLine) :
    (hunk.add line).mark marker = hunk.add { line with marker := some marker } := by
  simp only [HunkText.mark, HunkText.add, List.modifyLast_concat]

theorem startsWith_marker (input : InputLine) (text : input.text = eofMarker) :
    startsWith ['\\'] input.text = true := by
  rw [text]
  decide

theorem body_plain (line : BodyLine) : startsWith ['\\'] line.text = false := by
  by_contra begins
  rw [Bool.not_eq_false, startsWith_iff] at begins
  obtain ⟨rest, same⟩ := begins
  have read := line.read
  rw [same] at read
  cases read

theorem grows_next (part grown : Section) (input : InputLine) (grows : part.Grows input grown)
    (shaped : part.Shaped) : grown = part.next input := by
  cases grows with
  | extended line git early unbroken textual read =>
    obtain ⟨_, _, unopened⟩ := (past_eq_false part).1 early
    have extended := extended_of_reads _ read
    have plain := (extended_plain line extended).1
    simp only [Section.next, writtenLine, plain, unopened, textual, extended,
      startsWith_of_extended _ "--- ".toList extended (by decide),
      startsWith_of_extended _ "+++ ".toList extended (by decide),
      startsWith_of_extended _ "@@".toList extended (by decide), Bool.false_eq_true, if_false,
      if_true]
  | binary line binary read =>
    obtain ⟨_, _, unopened⟩ := (past_eq_false part).1 (shaped.textual binary).1
    simp only [Section.next, writtenLine, (binary_plain line read).1, unopened, binary,
      Bool.false_eq_true, if_false, if_true]
  | oldName line git early unbroken textual old named =>
    obtain ⟨_, _, unopened⟩ := (past_eq_false part).1 early
    have plain := (name_plain line _ old (by decide)).1
    have begins : startsWith "--- ".toList (trimmed line.text) = true := by
      rw [old, startsWith_append]
    simp only [Section.next, writtenLine, plain, unopened, textual, begins,
      nameLine_eq line _ _ old named, Bool.false_eq_true, if_false, if_true]
  | newName line awaiting new named =>
    obtain ⟨_, unopened, _⟩ := shaped.settled awaiting
    have textual : part.inBinary = false := textual_of_past part shaped (by
      simp only [Section.awaiting, Bool.and_eq_true] at awaiting
      simp [Section.past, awaiting.1])
    have plain := (name_plain line _ new (by decide)).1
    have begins : startsWith "+++ ".toList (trimmed line.text) = true := by
      rw [new, startsWith_append]
    simp only [Section.next, writtenLine, plain, unopened, textual, begins,
      startsWith_apart _ "--- ".toList _ begins (by decide), nameLine_eq line _ _ new named,
      Bool.false_eq_true, if_false, if_true]
  | hunk hunk may textual bare =>
    obtain ⟨unopened, _⟩ := (mayOpen_iff part).1 may
    obtain ⟨plain, _, old, new, begins⟩ := hunk_plain hunk
    rw [stripPrefix_eq_none] at old new
    simp only [Section.next, writtenLine, plain, unopened, textual, old, new, begins,
      openedHunk_eq hunk bare, Bool.false_eq_true, if_false, if_true]
  | body hunk line opened fits unended unmarked unfilled =>
    have plain := body_plain line
    simp only [Section.next, plain, opened, hunkLine_eq line unmarked, unfilled,
      Bool.false_eq_true, if_false]
  | lastBody hunk line opened fits unended unmarked filled changes =>
    have plain := body_plain line
    simp only [Section.next, plain, opened, hunkLine_eq line unmarked, filled,
      Bool.false_eq_true, if_false, if_true]
  | marker hunk line _ text opened unmarked =>
    simp only [Section.next, startsWith_marker input text, opened, mark_add, if_true]
  | lastMarker hunks hunk line _ text unopened unbroken last unmarked =>
    simp only [Section.next, startsWith_marker input text, unopened, last, mark_add, if_true,
      List.modifyLast_concat]
  | trailing _ unopened settled textual framing plain moves =>
    obtain ⟨unmarked, _, old, new, hunk⟩ := framing_plain _ framing
    rw [stripPrefix_eq_none] at old new
    simp only [Section.next, unmarked, unopened, textual, old, new, hunk, plain,
      Bool.false_eq_true, if_false]

theorem body_undiff (line : BodyLine) : opensDiff line.text = false := by
  have read := line.read
  by_contra begins
  rw [Bool.not_eq_false] at begins
  simp only [opensDiff, Bool.or_eq_true, startsWith_iff] at begins
  rcases begins with (⟨rest, same⟩ | ⟨rest, same⟩) | ⟨rest, same⟩ <;>
    · rw [same] at read
      cases read

/-- No line that carries a section on begins a `diff`. -/
theorem grows_undiff (part grown : Section) (input : InputLine) (grows : part.Grows input grown) :
    opensDiff input.text = false := by
  cases grows with
  | extended line git early unbroken textual read =>
    exact (extended_plain line (extended_of_reads _ read)).2
  | binary line binary read => exact (binary_plain line read).2
  | oldName line git early unbroken textual old named => exact (name_plain line _ old (by decide)).2
  | newName line awaiting new named => exact (name_plain line _ new (by decide)).2
  | hunk hunk may textual bare => exact (hunk_plain hunk).2.1
  | body hunk line opened fits unended unmarked unfilled => exact body_undiff line
  | lastBody hunk line opened fits unended unmarked filled changes => exact body_undiff line
  | marker hunk line _ text opened unmarked =>
    rw [text]
    decide
  | lastMarker hunks hunk line _ text unopened unbroken last unmarked =>
    rw [text]
    decide
  | trailing _ unopened settled textual framing plain moves => exact (framing_plain _ framing).2.1

theorem past_of_needsNew (part : Section) (shaped : part.Shaped) (needs : part.needsNew = true) :
    part.past = true := by
  simp only [Section.needsNew, Bool.or_eq_true, decide_eq_true_eq] at needs
  simp only [Section.past, Bool.or_eq_true, decide_eq_true_eq]
  exact .inl (needs.imp_left shaped.paired)

/-- A `---` line after a section's names or hunks never carries it on. -/
theorem grows_unnamed (part grown : Section) (input : InputLine) (grows : part.Grows input grown)
    (shaped : part.Shaped) (unopened : part.openHunk = none) (needs : part.needsNew = true) :
    startsWith "--- ".toList (trimmed input.text) = false := by
  have past := past_of_needsNew part shaped needs
  cases grows with
  | extended line git early unbroken textual read =>
    exact startsWith_of_extended _ _ (extended_of_reads _ read) (by decide)
  | binary line binary read => exact Bool.noConfusion ((shaped.textual binary).1.symm.trans past)
  | oldName line git early unbroken textual old named =>
    exact Bool.noConfusion (early.symm.trans past)
  | newName line awaiting new named =>
    exact startsWith_apart "+++ ".toList _ _ (by rw [writtenLine, new, startsWith_append])
      (by decide)
  | hunk hunk may textual bare => exact (stripPrefix_eq_none _ _).1 (hunk_plain hunk).2.2.1
  | body hunk line opened fits unended unmarked unfilled => simp [opened] at unopened
  | lastBody hunk line opened fits unended unmarked filled changes => simp [opened] at unopened
  | marker hunk line _ text opened unmarked => simp [opened] at unopened
  | lastMarker hunks hunk line _ text unopened unbroken last unmarked =>
    rw [text]
    decide
  | trailing _ unopened settled textual framing plain moves =>
    exact (stripPrefix_eq_none _ _).1 (framing_plain _ framing).2.2.1

theorem opens_cases (p0 : Bool) (input : InputLine) (part : Section) (opens : part.Opens p0 input) :
    (∃ line : GitLine, input = writtenLine line.text ∧ gitNames line.rest p0 = some line.names ∧
      part = { p0, opening := some line }) ∨
    (∃ line : NameLine, input = writtenLine line.text ∧
      nameLine "--- ".toList line.text (!hadCr line.text) = some line ∧
      part = { p0, oldName := some line }) := by
  cases opens with
  | git line named => exact .inl ⟨line, rfl, named, rfl⟩
  | traditional line old named =>
    exact .inr ⟨line, rfl, nameLine_eq line _ _ old named, rfl⟩

/-- A line that opens a section begins a `diff` or names an old file. -/
theorem opens_begins (p0 : Bool) (input : InputLine) (part : Section) (opens : part.Opens p0 input) :
    (part.git = true ∧ startsWith "diff --git ".toList input.text = true) ∨
      (part.git = false ∧ startsWith "--- ".toList (trimmed input.text) = true) := by
  cases opens with
  | git line named => exact .inl ⟨rfl, startsWith_append _ _⟩
  | traditional line old named => exact .inr ⟨rfl, by rw [writtenLine, old, startsWith_append]⟩

theorem opensDiff_of_git (line : Str) (begins : startsWith "diff --git ".toList line = true) :
    opensDiff line = true := by
  rw [opensDiff, begins, Bool.true_or, Bool.true_or]

theorem framing_unopened (p0 : Bool) (input : InputLine) (part : Section)
    (framing : isFraming input.text = true) : ¬part.Opens p0 input := by
  intro opens
  obtain ⟨_, undiff, old, _⟩ := framing_plain _ framing
  rcases opens_begins p0 input part opens with ⟨_, begins⟩ | ⟨_, begins⟩
  · exact Bool.noConfusion (undiff.symm.trans (opensDiff_of_git _ begins))
  · exact Bool.noConfusion (((stripPrefix_eq_none _ _).1 old).symm.trans begins)

theorem grows_unopened (p0 : Bool) (input : InputLine) (part grown other : Section)
    (shaped : part.Shaped) (ends : part.review.isSome)
    (fresh : other.git = true ∨ part.needsNew = true) (grows : part.Grows input grown) :
    ¬other.Opens p0 input := by
  intro opens
  rcases opens_begins p0 input other opens with ⟨_, begins⟩ | ⟨traditional, begins⟩
  · exact Bool.noConfusion ((grows_undiff _ _ _ grows).symm.trans (opensDiff_of_git _ begins))
  · have needs := fresh.resolve_left (by simp [traditional])
    have unnamed := grows_unnamed _ _ _ grows shaped (review_ends part ends).1 needs
    exact Bool.noConfusion (unnamed.symm.trans begins)

theorem opens_unique (p0 : Bool) (input : InputLine) (one other : Section)
    (first : one.Opens p0 input) (second : other.Opens p0 input) : one = other := by
  have apart (line : GitLine) (line' : NameLine) (same : line.text = line'.text)
      (named : nameLine "--- ".toList line'.text (!hadCr line'.text) = some line') : False := by
    have begins : startsWith "diff --git ".toList line.text = true := startsWith_append _ _
    have unnamed := startsWith_apart _ "--- ".toList _ begins (by decide)
    rw [same, ← startsWith_trimEnd '\r' _ _ (by decide), ← trimmed, ← stripPrefix_eq_none]
      at unnamed
    simp only [nameLine, unnamed, Option.bind_none] at named
    cases named
  rcases opens_cases p0 input one first with ⟨line, text, named, rfl⟩ | ⟨line, text, named, rfl⟩
  · rcases opens_cases p0 input other second with
      ⟨line', text', named', rfl⟩ | ⟨line', text', named', rfl⟩
    · have same := congrArg InputLine.text (text.symm.trans text')
      obtain ⟨rest, names⟩ := line
      obtain ⟨rest', names'⟩ := line'
      obtain rfl : rest = rest' := List.append_cancel_left same
      cases named.symm.trans named'
      rfl
    · exact (apart line line' (congrArg InputLine.text (text.symm.trans text')) named').elim
  · rcases opens_cases p0 input other second with
      ⟨line', text', named', rfl⟩ | ⟨line', text', named', rfl⟩
    · exact (apart line' line (congrArg InputLine.text (text'.symm.trans text)) named).elim
    · have same := congrArg InputLine.text (text.symm.trans text')
      change line.text = line'.text at same
      rw [same] at named
      cases named.symm.trans named'
      rfl

theorem document_grows_unique (doc one other : Document) (input : InputLine) (shaped : doc.Shaped)
    (first : doc.Grows input one) (second : doc.Grows input other) : one = other := by
  cases first with
  | preamble early framing =>
    cases second with
    | preamble early' framing' => rfl
    | opening part' opens' ends' fresh' => exact (framing_unopened _ _ _ framing opens').elim
    | inside part' grown' current' grows' =>
      rw [early] at current'
      cases current'
  | opening part opens ends fresh =>
    cases second with
    | preamble early' framing' => exact (framing_unopened _ _ _ framing' opens).elim
    | opening part' opens' ends' fresh' => rw [opens_unique _ _ _ _ opens opens']
    | inside part' grown' current' grows' =>
      have shape := shaped.parts part' (by simp [Document.sections, current'])
      exact (grows_unopened _ _ _ _ _ shape (ends part' current') (fresh part' current') grows'
        opens).elim
  | inside part grown current grows =>
    have shape := shaped.parts part (by simp [Document.sections, current])
    cases second with
    | preamble early' framing' =>
      rw [early'] at current
      cases current
    | opening part' opens' ends' fresh' =>
      exact (grows_unopened _ _ _ _ _ shape (ends' part current) (fresh' part current) grows
        opens').elim
    | inside part' grown' current' grows' =>
      cases current.symm.trans current'
      rw [grows_next _ _ _ grows shape, grows_next _ _ _ grows' shape]

theorem growsBy_unique (lines : List InputLine) (doc one other : Document) (shaped : doc.Shaped)
    (first : doc.GrowsBy lines one) (second : doc.GrowsBy lines other) : one = other := by
  induction first with
  | nil doc =>
    cases second
    rfl
  | cons step rest ih =>
    cases second with
    | cons step' rest' =>
      have same := document_grows_unique _ _ _ _ shaped step step'
      subst same
      exact ih (document_shaped_grows _ _ _ step shaped).1 rest'

theorem grown_unique (lines : List InputLine) (one other : Document)
    (first : Document.Grown lines one) (second : Document.Grown lines other) : one = other :=
  growsBy_unique lines {} one other (shaped_grown [] {} .empty).1 (growsBy_of_grown lines one first)
    (growsBy_of_grown lines other second)

theorem files_of_grown (text : Str) (files : List ReviewFile) (doc : Document)
    (accepted : parse text = .ok files) (grown : Document.Grown (textLines text) doc) :
    doc.files = some files := by
  obtain ⟨_, other, grown', reviewed⟩ := (parse_eq_ok text files).1 accepted
  rwa [grown_unique _ _ _ grown grown']

structure GrowsOnly (lines : List InputLine) (doc : Document) : Prop where
  only : ∀ other, Document.Grown lines other ↔ other = doc
  whole : doc.lines = lines

theorem growsOnly_of_grown (lines : List InputLine) (doc : Document)
    (grown : Document.Grown lines doc) : GrowsOnly lines doc where
  only other := by
    constructor
    · intro grown'
      exact grown_unique lines other doc grown' grown
    · rintro rfl
      exact grown
  whole := (shaped_grown lines doc grown).2

/-- A capture takes the bytes within the budgets whose lines grow into just one document, each of
whose sections ends well, and its files are the reviews of those sections. -/
theorem captureBytes_grammar (bytes : List UInt8) (files : List ReviewFile) :
    (∃ captured, captureBytes bytes = .ok captured ∧ captured.files = files) ↔
      bytes.length ≤ defaultByteBudget ∧ (byteLines bytes).length ≤ defaultLineBudget ∧
        ∃ doc, GrowsOnly (byteLines bytes) doc ∧ doc.files = some files := by
  rw [captureBytes_files]
  constructor
  · rintro ⟨small, few, doc, grown, reviewed⟩
    exact ⟨small, few, doc, growsOnly_of_grown _ doc grown, reviewed⟩
  · rintro ⟨small, few, doc, grows, reviewed⟩
    exact ⟨small, few, doc, (grows.only doc).2 rfl, reviewed⟩

end DeepDiffForge.Patch
