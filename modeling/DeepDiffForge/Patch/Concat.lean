import DeepDiffForge.Patch.Locality

/-! A patch after a patch: when the second begins with a `diff --git` line, nothing of the first
changes how it is read but a `-p0` guess. -/

namespace DeepDiffForge.Patch
open Text DeepDiffForge.Core

theorem shiftFile_shift (first second : Nat) (file : ReviewFile) :
    shiftFile (first + second) file = shiftFile second (shiftFile first file) := by
  simp [shiftFile, shiftHunks, Nat.add_assoc]

/-- Hunk ids that begin further on are further on in every file. -/
theorem reviewFrom_shift (id more : HunkId) (parts : List Section) :
    reviewFrom (id + more) parts = (reviewFrom id parts).map (·.map (shiftFile more)) := by
  induction parts generalizing id with
  | nil => rfl
  | cons part parts ih =>
    simp only [reviewFrom, Option.bind_eq_bind, Option.pure_def]
    cases part.review with
    | none => rfl
    | some file =>
      rw [Option.bind_some, Option.bind_some, Nat.add_right_comm, ih]
      cases reviewFrom (id + part.hunks.length) parts with
      | none => rfl
      | some files => simp [shiftFile_shift]

theorem length_numberHunks (id : HunkId) (hunks : List HunkText) :
    (numberHunks id hunks).length = hunks.length := by
  induction hunks generalizing id with
  | nil => rfl
  | cons hunk hunks ih => rw [numberHunks, List.length_cons, ih, List.length_cons]

theorem hunkCount_eq (parts : List Section) :
    hunkCount parts = (parts.flatMap (·.hunks)).length := by
  induction parts with
  | nil => rfl
  | cons part parts ih => rw [hunkCount, ih, List.flatMap_cons, List.length_append]

theorem hunkCount_files (parts : List Section) (files : List ReviewFile)
    (ok : reviewFrom 0 parts = some files) :
    hunkCount parts = (files.flatMap (·.patchTwin.hunks)).length := by
  rw [reviewFrom_hunks 0 parts files ok, length_numberHunks, hunkCount_eq]

theorem chained_after (p0 : Bool) (last : Option Section) (parts : List Section)
    (chained : Chained p0 none parts) (follows : ∀ part ∈ parts.head?, part.Follows last) :
    Chained p0 last parts := by
  cases parts with
  | nil => trivial
  | cons part parts => exact ⟨chained.1, follows part rfl, chained.2.2⟩

/-- A section whose first line begins `diff --git` is a Git section. -/
theorem git_of_head (part : Section) (shaped : part.Shaped) (line : InputLine)
    (head : part.lines.head? = some line)
    (begins : startsWith "diff --git ".toList line.text = true) : part.git = true := by
  by_contra traditional
  have traditional := eq_false_of_ne_true traditional
  obtain ⟨named, plain⟩ := shaped.traditional traditional
  obtain ⟨old, present⟩ := Option.isSome_iff_exists.1 named
  have textual : part.inBinary = false := by simp [Section.inBinary, Section.headers, plain]
  have unopened : part.opening = none := by
    simpa [Section.git] using traditional
  have first : part.lines.head? = some (writtenLine old.text) := by
    simp [Section.lines, unopened, plain, unheaded_binary part shaped textual, present]
  cases first.symm.trans head
  have apart := startsWith_apart _ "--- ".toList _ begins (by decide)
  rw [← startsWith_trimEnd '\r' _ _ (by decide)] at apart
  have read := (shaped.old old present).1
  rw [trimmed] at read
  rw [writtenLine, read, startsWith_append] at apart
  cases apart

theorem lines_ne_nil (part : Section) (shaped : part.Shaped) : part.lines ≠ [] := by
  intro empty
  cases opened : part.opening with
  | none =>
    obtain ⟨old, named⟩ := Option.isSome_iff_exists.1
      (shaped.traditional (by simp [Section.git, opened])).1
    simp [Section.lines, named] at empty
  | some opening => simp [Section.lines, opened] at empty

/-- A document that begins with a `diff --git` line has no preamble, and a Git section first. -/
theorem git_first (doc : Document) (shaped : doc.Shaped) (line : InputLine)
    (head : doc.lines.head? = some line)
    (begins : startsWith "diff --git ".toList line.text = true) :
    doc.preamble = [] ∧ ∀ part ∈ doc.sections.head?, part.git = true := by
  have bare : doc.preamble = [] := by
    cases preamble : doc.preamble with
    | nil => rfl
    | cons first rest =>
      have framing := shaped.preamble first (by simp [preamble])
      rw [Document.lines, preamble, List.cons_append, List.head?_cons] at head
      cases head
      have undiff := (framing_plain _ framing).2.1
      exact Bool.noConfusion (undiff.symm.trans (opensDiff_of_git _ begins))
  refine ⟨bare, ?_⟩
  intro part first
  cases sections : doc.sections with
  | nil => simp [sections] at first
  | cons other parts =>
    rw [sections, List.head?_cons] at first
    cases first
    refine git_of_head part (shaped.parts part (by simp [sections])) line ?_ begins
    rw [Document.lines, bare, sections, List.nil_append, List.flatMap_cons,
      List.head?_append] at head
    cases lines : part.lines with
    | nil => exact (lines_ne_nil part (shaped.parts part (by simp [sections])) lines).elim
    | cons first rest =>
      rw [lines] at head
      exact head

theorem unguessed (doc : Document) (p0 : doc.p0 = false)
    (slashed : ∀ part ∈ doc.sections, part.git = false → ∀ new ∈ part.newName, '/' ∈ new.name) :
    doc.guessed = false := by
  rw [Document.guessed, p0, Bool.false_or, List.any_eq_false]
  intro part member guesses
  simp only [Section.guesses, Bool.and_eq_true, Option.isNone_iff_eq_none,
    Option.any_eq_true] at guesses
  obtain ⟨unopened, new, named, bare⟩ := guesses
  have slash := slashed part member (by simp [Section.git, unopened]) new named
  simp [guessesP0, slash] at bare

theorem head_of_text (text start : Str) (plain : '\n' ∉ start) (nonempty : start ≠ [])
    (begins : startsWith start text = true) :
    ∃ line, (textLines text).head? = some line ∧ startsWith start line.text = true := by
  obtain ⟨rest, rfl⟩ := (startsWith_iff start text).1 begins
  obtain ⟨line, lines, split⟩ := splitLines_begins start rest plain nonempty
  rw [← textLines_text] at split
  cases whole : textLines (start ++ rest) with
  | nil => simp [whole] at split
  | cons first others =>
    rw [whole, List.map_cons, List.cons.injEq] at split
    exact ⟨first, rfl, by rw [split.1, startsWith_append]⟩

/-- Nothing before a `diff --git` line changes how it and what follows is read. -/
theorem parse_concat (first second : Str) (files later : List ReviewFile) (doc : Document)
    (accepted : parse first = .ok files) (accepted' : parse second = .ok later)
    (grown : Document.Grown (textLines first) doc)
    (slashed : ∀ part ∈ doc.sections, part.git = false → ∀ new ∈ part.newName, '/' ∈ new.name)
    (ends : first.getLast? = some '\n') (begins : startsWith "diff --git ".toList second = true)
    (budgeted : Budgeted (first ++ second)) :
    parse (first ++ second) =
      .ok (files ++ later.map (shiftFile (files.flatMap (·.patchTwin.hunks)).length)) := by
  obtain ⟨_, doc', grown', reviewed'⟩ := (parse_eq_ok second later).1 accepted'
  have reviewed := files_of_grown first files doc accepted grown
  obtain ⟨shaped, lines⟩ := shaped_grown _ _ grown
  obtain ⟨shaped', lines'⟩ := shaped_grown _ _ grown'
  have guessed := unguessed doc (chained_of_grown _ _ grown).1 slashed
  obtain ⟨line, head, starts⟩ := head_of_text second "diff --git ".toList (by decide) (by decide)
    begins
  obtain ⟨bare, git⟩ := git_first doc' shaped' line (by rw [lines', head]) starts
  have chained : Chained doc.guessed doc.current doc'.sections := by
    rw [guessed]
    refine chained_after false doc.current doc'.sections (chained_of_grown _ _ grown').2 ?_
    intro part head last current
    refine ⟨?_, .inl (git part head)⟩
    exact reviewFrom_isSome 0 _ _ reviewed last (by simp [Document.sections, Option.mem_def.1 current])
  have after := growsBy_of_chained doc doc'.sections chained
  have whole : textLines (first ++ second) = textLines first ++ doc'.sections.flatMap Section.lines := by
    rw [textLines_append first second (by simp [unterminated, ends]), ← lines', Document.lines,
      bare, List.nil_append]
  refine (parse_eq_ok _ _).2 ⟨budgeted, doc.extend doc'.sections, ?_, ?_⟩
  · rw [whole]
    exact grown_growsBy _ _ _ _ grown after
  · rw [Document.files, sections_extend, reviewFrom_append, ← Document.files, reviewed,
      Option.bind_some, hunkCount_files _ _ reviewed, reviewFrom_shift, ← Document.files, reviewed']
    rfl

/-- A Git section that edits one line of `y`, and the file it gives. -/
def editSection : Section where
  p0 := false
  opening := some { rest := "a/y b/y".toList, names := (some "y".toList, some "y".toList) }
  extended := ["index 1..2".toList]
  oldName := some { text := "--- a/y".toList, rest := "a/y".toList, name := "a/y".toList }
  newName := some { text := "+++ b/y".toList, rest := "b/y".toList, name := "b/y".toList }
  hunks := [(edit.add removal).add addition]

def editedFile (id : HunkId) : ReviewFile where
  path := "y".toList
  status := .modified
  patchTwin :=
    { binaryBody := []
      hunks := [((edit.add removal).add addition).patch id]
      metadata := ["index 1..2".toList]
      lossyLines := 0 }
  semanticTwin := none
  planner := { strategy := .line, fallback := none, notes := [] }

theorem editSection_built : editSection.Built false editSection.lines := by
  have opened : Section.Built false _ _ := .opens
    (.git { rest := "a/y b/y".toList, names := (some "y".toList, some "y".toList) }
      (by decide +kernel))
  have index := opened.grows
    (.extended _ "index 1..2".toList rfl rfl rfl rfl (by decide +kernel))
  have old := index.grows
    (.oldName _ { text := "--- a/y".toList, rest := "a/y".toList, name := "a/y".toList } rfl rfl
      rfl rfl (by decide +kernel) (by decide +kernel))
  have new := old.grows
    (.newName _ { text := "+++ b/y".toList, rest := "b/y".toList, name := "b/y".toList } rfl
      (by decide +kernel) (by decide +kernel))
  exact built_edit false _ _ new rfl rfl rfl

theorem parse_concat_edits :
    parse (written editSection.lines ++ written editSection.lines) =
      .ok [editedFile 0, editedFile 1] := by
  have accepted : parse (written editSection.lines) = .ok [editedFile 0] := by decide +kernel
  have lines : textLines (written editSection.lines) =
      [] ++ [editSection].flatMap Section.lines := by
    decide +kernel
  have grown := grown_of_chained [] [editSection] (by simp)
    ⟨editSection_built, by simp [Section.Follows], trivial⟩
  rw [← lines] at grown
  refine parse_concat _ _ _ _ _ accepted accepted grown ?_ (by decide +kernel) (by decide +kernel)
    ⟨by decide +kernel, by decide +kernel⟩
  intro part member traditional
  rw [sections_extend] at member
  rw [List.mem_singleton.1 member] at traditional
  cases traditional

end DeepDiffForge.Patch
