import DeepDiffForge.Core.Address
import DeepDiffForge.Lib.Blocks
import DeepDiffForge.Projection.Notes

/-! The inline layout, and that its rows read back in one way only: its headers, separators, lines
and notes are told apart by their first characters and by the column of a row's marker. -/

namespace DeepDiffForge.Projection
open Text Blocks DeepDiffForge.Core

def markerOf : PatchLineKind → Char
  | .context => ' '
  | .added => '+'
  | .removed => '-'

def num (value : Option Nat) (width : Nat) : Str :=
  value.elim (spaces width) fun n => rightAligned (decimal n) width

/-- The pairs of the lines from place `i` on, `removed` the current block's removed lines and `next`
the one that an added line pairs with. -/
def pairsFrom : Nat → List Nat → Nat → PatchLineKind → List PatchLine → List (Option Nat)
  | _, _, _, _, [] => []
  | i, removed, next, previous, line :: rest =>
      match line.kind with
      | .removed =>
          none :: pairsFrom (i + 1) ((if previous ≠ .removed then [] else removed) ++ [i]) next
            .removed rest
      | .added =>
          let next := if previous ≠ .added then 0 else next
          removed[next]? :: pairsFrom (i + 1) removed (next + 1) .added rest
      | .context => none :: pairsFrom (i + 1) [] next .context rest

def pairs (lines : List PatchLine) : List (Option Nat) := pairsFrom 0 [] 0 .context lines

def notesOf (terminal : Terminal) (width : Nat) (lines : List PatchLine) (line : PatchLine)
    (pair : Option Nat) : List Str :=
  let column := 2 * width + 6
  let alike := (pair.bind (lines[·]?)).any fun old => Id.run <|
    rendersAlike terminal old.text line.text fun text => pure (inlineShown terminal text column)
  lineNotes line.lossy line.noNewline ++ if alike then [rendersAlikeNote] else []

structure ShownLine where
  kind : PatchLineKind
  oldLine : Option Nat
  newLine : Option Nat
  text : Str
  notes : List Str
  deriving DecidableEq

structure ShownHunk where
  oldStart : Option Nat
  newStart : Option Nat
  lines : List ShownLine
  deriving DecidableEq

structure ShownFile where
  status : FileStatus
  path : Str
  hunks : List ShownHunk
  deriving DecidableEq

def shownLine (terminal : Terminal) (width : Nat) (lines : List PatchLine)
    (paired : PatchLine × Option Nat) : ShownLine where
  kind := paired.1.kind
  oldLine := paired.1.oldLine
  newLine := paired.1.newLine
  text := displaySafe paired.1.text
  notes := notesOf terminal width lines paired.1 paired.2

def shownHunk (terminal : Terminal) (width : Nat) (hunk : PatchHunk) : ShownHunk where
  oldStart := hunk.oldStart
  newStart := hunk.newStart
  lines := (hunk.lines.zip (pairs hunk.lines)).map (shownLine terminal width hunk.lines)

def shownFile (terminal : Terminal) (file : ReviewFile) : ShownFile where
  status := file.status
  path := displaySafe file.path
  hunks := file.patchTwin.hunks.map (shownHunk terminal (gutterWidth file))

def ShownLine.row (width : Nat) (line : ShownLine) : Str :=
  "  ".toList ++ num line.oldLine width ++ ' ' :: (num line.newLine width ++
    ' ' :: markerOf line.kind :: ' ' :: line.text)

def noteRow (width : Nat) (note : Str) : Str :=
  "  ".toList ++ spaces (2 * width + 1) ++ ' ' :: note

def ShownLine.block (width : Nat) (line : ShownLine) : Str × List Str :=
  (line.row width, line.notes.map (noteRow width))

def ShownHunk.block (width : Nat) (hunk : ShownHunk) : Str × List Str :=
  ("  @@ -".toList ++ decimal (hunk.oldStart.getD 0) ++ " +".toList ++
      decimal (hunk.newStart.getD 0) ++ " @@".toList,
    laid (hunk.lines.map (·.block width)))

def ShownFile.block (width : Nat) (file : ShownFile) : Str × List Str :=
  (file.status.label ++ "  ".toList ++ file.path, laid (file.hunks.map (·.block width)))

def fileBlock (terminal : Terminal) (file : ReviewFile) : Str × List Str :=
  (shownFile terminal file).block (gutterWidth file)

def renderInline (terminal : Terminal) (files : List ReviewFile) : Str :=
  unlines (laid (files.map (fileBlock terminal)))

section Columns

/-- What the widest number of a file and its kind promise of a line. -/
structure ShownLine.Fits (width : Nat) (line : ShownLine) : Prop where
  old : line.oldLine.isSome = (line.kind ≠ .added : Bool)
  new : line.newLine.isSome = (line.kind ≠ .removed : Bool)
  oldFits : ∀ n ∈ line.oldLine, (decimal n).length ≤ width
  newFits : ∀ n ∈ line.newLine, (decimal n).length ≤ width
  noted : ∀ note ∈ line.notes, note.head? = some '\\'

theorem spaces_add (one two : Nat) : spaces one ++ spaces two = spaces (one + two) :=
  List.replicate_append_replicate

theorem length_num (value : Option Nat) (width : Nat)
    (fits : ∀ n ∈ value, (decimal n).length ≤ width) : (num value width).length = width := by
  cases value with
  | none => exact List.length_replicate
  | some n => exact length_rightAligned _ _ (fits n rfl)

theorem mem_num (value : Option Nat) (width : Nat) :
    ∀ c ∈ num value width, c = ' ' ∨ c.isDigit = true := by
  intro c listed
  cases value with
  | none => exact .inl (List.eq_of_mem_replicate listed)
  | some n =>
    rcases List.mem_append.1 listed with blank | digit
    · exact .inl (List.eq_of_mem_replicate blank)
    · exact .inr (decimal_digit n c digit)

theorem dropWhile_spaces (gap n : Nat) (rest : Str) :
    (spaces gap ++ (decimal n ++ rest)).dropWhile (· = ' ') = decimal n ++ rest := by
  rw [List.dropWhile_append_of_pos fun c listed => by simp [List.eq_of_mem_replicate listed]]
  cases digits : decimal n with
  | nil => exact absurd digits (decimal_ne_nil n)
  | cons c more =>
    have digit := decimal_digit n c (by simp [digits])
    have other : c ≠ ' ' := by
      rintro rfl
      exact absurd digit (by decide)
    rw [List.cons_append, List.dropWhile_cons_of_neg (by simpa using other)]

theorem number_unique (gap gap' n n' : Nat) (rest rest' : Str)
    (same : spaces gap ++ (decimal n ++ ' ' :: rest) = spaces gap' ++ (decimal n' ++ ' ' :: rest')) :
    gap = gap' ∧ n = n' ∧ rest = rest' := by
  have texts := congrArg (List.dropWhile (· = ' ')) same
  rw [dropWhile_spaces, dropWhile_spaces] at texts
  obtain ⟨digits, more⟩ := cut_unique ' ' _ _ _ _ (decimal_without n ' ' rfl)
    (decimal_without n' ' ' rfl) texts
  have numbers := decimal_injective n n' digits
  have lengths := congrArg List.length same
  rw [numbers, more] at lengths
  simp only [List.length_append, spaces, List.length_replicate] at lengths
  exact ⟨Nat.add_right_cancel lengths, numbers, more⟩

theorem num_injective (one two : Option Nat) (width : Nat)
    (same : num one width = num two width) : one = two := by
  have blank (n : Nat) : num none width ≠ num (some n) width := by
    intro same
    cases digits : decimal n with
    | nil => exact absurd digits (decimal_ne_nil n)
    | cons c more =>
      have listed : c ∈ num (some n) width :=
        List.mem_append_right _ (by rw [digits]; exact List.mem_cons_self ..)
      rw [← same] at listed
      have digit := decimal_digit n c (by simp [digits])
      rw [List.eq_of_mem_replicate listed] at digit
      exact absurd digit (by decide)
  cases one with
  | none =>
    cases two with
    | none => rfl
    | some n => exact absurd same (blank n)
  | some n =>
    cases two with
    | none => exact absurd same.symm (blank n)
    | some n' =>
      have padded : num (some n) width ++ [' '] = num (some n') width ++ [' '] := by rw [same]
      have numbers := number_unique (width - (decimal n).length) (width - (decimal n').length) n n'
        [] [] (by simpa [num, rightAligned] using padded)
      rw [numbers.2.1]

theorem first_number (width : Nat) (line : ShownLine) (fits : line.Fits width) :
    ∃ gap n rest, line.row width = spaces gap ++ (decimal n ++ ' ' :: rest) ∧
      ((gap + (decimal n).length = width + 2 ∧ rest.head? ≠ some '+') ∨
        gap + (decimal n).length = 2 * width + 3 ∧ rest.head? = some '+') := by
  have opening : "  ".toList = spaces 2 := rfl
  by_cases added : line.kind = .added
  · have absent : line.oldLine = none := by
      have old := fits.old
      rw [added] at old
      exact Option.not_isSome_iff_eq_none.1 (by simpa using old)
    obtain ⟨n, present⟩ := Option.isSome_iff_exists.1 (fits.new.trans (by rw [added]; rfl))
    have short := fits.newFits n present
    refine ⟨2 + width + 1 + (width - (decimal n).length), n, '+' :: ' ' :: line.text, ?_,
      .inr ⟨by omega, rfl⟩⟩
    rw [ShownLine.row, absent, present, added, opening, ← spaces_add, ← spaces_add, ← spaces_add]
    simp [num, rightAligned, markerOf, spaces]
  · obtain ⟨n, present⟩ := Option.isSome_iff_exists.1 (fits.old.trans (by simpa using added))
    have short := fits.oldFits n present
    refine ⟨2 + (width - (decimal n).length), n, num line.newLine width ++
      ' ' :: markerOf line.kind :: ' ' :: line.text, ?_, .inl ⟨by omega, ?_⟩⟩
    · rw [ShownLine.row, present, opening, ← spaces_add]
      simp [num, rightAligned]
    · intro plus
      cases shown : num line.newLine width with
      | nil =>
        rw [shown] at plus
        cases plus
      | cons c more =>
        rw [shown] at plus
        obtain rfl := Option.some.inj plus
        rcases mem_num line.newLine width '+' (by simp [shown]) with blank | digit
        · cases blank
        · cases digit

/-- Equal rows are of equally wide fields. -/
theorem row_width (width width' : Nat) (one two : ShownLine) (fits : one.Fits width)
    (fits' : two.Fits width') (same : one.row width = two.row width') : width = width' := by
  obtain ⟨gap, n, rest, shown, ends⟩ := first_number width one fits
  obtain ⟨gap', n', rest', shown', ends'⟩ := first_number width' two fits'
  rw [shown, shown'] at same
  obtain ⟨rfl, rfl, rfl⟩ := number_unique gap gap' n n' rest rest' same
  rcases ends with ⟨sum, other⟩ | ⟨sum, plus⟩
  · rcases ends' with ⟨sum', other'⟩ | ⟨sum', plus'⟩
    · omega
    · exact absurd plus' other
  · rcases ends' with ⟨sum', other'⟩ | ⟨sum', plus'⟩
    · exact absurd plus other'
    · omega

theorem markerOf_injective (one two : PatchLineKind) (same : markerOf one = markerOf two) :
    one = two := by
  cases one <;> cases two <;> first | rfl | exact absurd same (by decide)

/-- A row tells its line, its notes apart. -/
theorem row_line (width : Nat) (one two : ShownLine) (fits : one.Fits width)
    (fits' : two.Fits width) (same : one.row width = two.row width) :
    one.kind = two.kind ∧ one.oldLine = two.oldLine ∧ one.newLine = two.newLine ∧
      one.text = two.text := by
  rw [ShownLine.row, ShownLine.row, List.append_assoc, List.append_assoc] at same
  obtain ⟨olds, rest⟩ := List.append_inj (List.append_cancel_left same)
    ((length_num _ _ fits.oldFits).trans (length_num _ _ fits'.oldFits).symm)
  obtain ⟨news, rest⟩ := List.append_inj (List.cons.inj rest).2
    ((length_num _ _ fits.newFits).trans (length_num _ _ fits'.newFits).symm)
  obtain ⟨markers, rest⟩ := List.cons.inj (List.cons.inj rest).2
  exact ⟨markerOf_injective _ _ markers, num_injective _ _ width olds, num_injective _ _ width news,
    (List.cons.inj rest).2⟩

def markAt (width : Nat) (row : Str) : Option Char := (row.drop (2 * width + 4)).head?

theorem markAt_row (width : Nat) (line : ShownLine) (fits : line.Fits width) :
    markAt width (line.row width) = some (markerOf line.kind) := by
  have length : ("  ".toList ++ num line.oldLine width ++ ' ' ::
      (num line.newLine width ++ [' '])).length = 2 * width + 4 := by
    have two : "  ".toList.length = 2 := rfl
    have olds := length_num _ _ fits.oldFits
    have news := length_num _ _ fits.newFits
    simp only [List.length_append, List.length_cons, List.length_nil]
    omega
  have row : line.row width = ("  ".toList ++ num line.oldLine width ++ ' ' ::
      (num line.newLine width ++ [' '])) ++ markerOf line.kind :: ' ' :: line.text := by
    simp [ShownLine.row]
  rw [markAt, row, ← length, List.drop_left, List.head?_cons]

theorem markAt_note (width : Nat) (note : Str) : markAt width (noteRow width note) = note.head? := by
  have length : ("  ".toList ++ spaces (2 * width + 1) ++ [' ']).length = 2 * width + 4 := by
    have two : "  ".toList.length = 2 := rfl
    simp only [List.length_append, List.length_cons, List.length_nil, spaces,
      List.length_replicate]
    omega
  have row : noteRow width note = "  ".toList ++ spaces (2 * width + 1) ++ [' '] ++ note := by
    simp [noteRow]
  rw [markAt, row, ← length, List.drop_left]

theorem noteRow_injective (width : Nat) (one two : Str)
    (same : noteRow width one = noteRow width two) : one = two := by
  rw [noteRow, noteRow] at same
  exact (List.cons.inj (List.append_cancel_left same)).2

def startsLine (width : Nat) (row : Str) : Bool := markAt width row ≠ some '\\'

theorem headed_lines (width : Nat) (lines : List ShownLine) (fits : ∀ line ∈ lines, line.Fits width) :
    Headed (startsLine width) (lines.map (·.block width)) := by
  rintro block listed
  obtain ⟨line, held, rfl⟩ := List.mem_map.1 listed
  constructor
  · rw [ShownLine.block, startsLine, markAt_row width line (fits line held)]
    cases line.kind <;> decide
  · intro row noted
    obtain ⟨note, among, rfl⟩ := List.mem_map.1 noted
    rw [startsLine, markAt_note, (fits line held).noted note among]
    decide

/-- The lines of a hunk read back, and unless there are none so does their width. -/
theorem lines_unique (width width' : Nat) (one two : List ShownLine)
    (fits : ∀ line ∈ one, line.Fits width) (fits' : ∀ line ∈ two, line.Fits width')
    (same : laid (one.map (·.block width)) = laid (two.map (·.block width'))) : one = two := by
  cases one with
  | nil =>
    cases two with
    | nil => rfl
    | cons line two =>
      rw [List.map_cons, laid_cons] at same
      cases same
  | cons line one =>
    cases two with
    | nil =>
      rw [List.map_cons, laid_cons] at same
      cases same
    | cons line' two =>
      have first := same
      rw [List.map_cons, List.map_cons, laid_cons, laid_cons] at first
      obtain rfl := row_width width width' line line' (fits line (List.mem_cons_self ..))
        (fits' line' (List.mem_cons_self ..)) (List.cons.inj first).1
      have blocks := laid_injective (startsLine width) _ _ (headed_lines width _ fits)
        (headed_lines width _ fits') same
      refine map_unique _ _ _ _ ?_ blocks
      intro x listed y listed' rows
      obtain ⟨row, notes⟩ := Prod.mk.inj rows
      obtain ⟨kind, old, new, text⟩ := row_line width x y (fits x listed) (fits' y listed') row
      have marked := map_unique _ _ _ _ (fun a _ b _ => noteRow_injective width a b) notes
      cases x
      cases y
      cases kind
      cases old
      cases new
      cases text
      cases marked
      rfl

end Columns

section Headers

def startsHunk (row : Str) : Bool := row[2]? = some '@'

def startsFile (row : Str) : Bool := row.head? ≠ some ' '

theorem third_row (width : Nat) (line : ShownLine) (fits : line.Fits width) (wide : 4 ≤ width) :
    startsHunk (line.row width) = false := by
  have length := length_num _ _ fits.oldFits
  cases shown : num line.oldLine width with
  | nil =>
    rw [shown] at length
    exact absurd length (by simp; omega)
  | cons c more =>
    have third : (line.row width)[2]? = some c := by
      simp [ShownLine.row, shown]
    rw [startsHunk, third]
    rcases mem_num line.oldLine width c (by simp [shown]) with rfl | digit
    · decide
    · have other : c ≠ '@' := by
        rintro rfl
        exact absurd digit (by decide)
      simpa using other

theorem third_note (width : Nat) (note : Str) : startsHunk (noteRow width note) = false := by
  have third : (noteRow width note)[2]? = some ' ' := by
    simp [noteRow, spaces, List.replicate_succ]
  rw [startsHunk, third]
  decide

structure ShownHunk.Fits (width : Nat) (hunk : ShownHunk) : Prop where
  starts : hunk.oldStart.isSome ∧ hunk.newStart.isSome
  lines : ∀ line ∈ hunk.lines, line.Fits width

theorem mem_lines (width : Nat) (lines : List ShownLine) (row : Str)
    (listed : row ∈ laid (lines.map (·.block width))) :
    ∃ line ∈ lines, row = line.row width ∨ ∃ note ∈ line.notes, row = noteRow width note := by
  obtain ⟨block, held, inside⟩ := List.mem_flatMap.1 listed
  obtain ⟨line, among, rfl⟩ := List.mem_map.1 held
  refine ⟨line, among, ?_⟩
  rcases List.mem_cons.1 inside with first | noted
  · exact .inl first
  · obtain ⟨note, kept, rfl⟩ := List.mem_map.1 noted
    exact .inr ⟨note, kept, rfl⟩

/-- A separator starts with a space, and has its mark in the third place. -/
theorem block_row (width : Nat) (hunk : ShownHunk) :
    startsFile (hunk.block width).1 = false ∧ startsHunk (hunk.block width).1 = true := by
  have row : ∃ more, (hunk.block width).1 = ' ' :: ' ' :: '@' :: more :=
    ⟨"@ -".toList ++ decimal (hunk.oldStart.getD 0) ++ " +".toList ++
      decimal (hunk.newStart.getD 0) ++ " @@".toList, rfl⟩
  obtain ⟨more, row⟩ := row
  rw [row]
  exact ⟨rfl, rfl⟩

theorem headed_hunks (width : Nat) (hunks : List ShownHunk) (wide : 4 ≤ width)
    (fits : ∀ hunk ∈ hunks, hunk.Fits width) :
    Headed startsHunk (hunks.map (·.block width)) := by
  rintro block listed
  obtain ⟨hunk, held, rfl⟩ := List.mem_map.1 listed
  constructor
  · exact (block_row width hunk).2
  · intro row inside
    obtain ⟨line, among, rfl | ⟨note, -, rfl⟩⟩ := mem_lines width hunk.lines row inside
    · exact third_row width line ((fits hunk held).lines line among) wide
    · exact third_note width note

theorem start_unique (one two : Option Nat) (held : one.isSome) (held' : two.isSome)
    (same : one.getD 0 = two.getD 0) : one = two := by
  obtain ⟨n, rfl⟩ := Option.isSome_iff_exists.1 held
  obtain ⟨n', rfl⟩ := Option.isSome_iff_exists.1 held'
  exact congrArg some same

/-- A hunk's separator and rows tell it, whatever the width of its fields. -/
theorem hunk_unique (width width' : Nat) (one two : ShownHunk) (fits : one.Fits width)
    (fits' : two.Fits width') (same : one.block width = two.block width') : one = two := by
  obtain ⟨separator, rows⟩ := Prod.mk.inj same
  have texts : decimal (one.oldStart.getD 0) ++ ' ' ::
      ('+' :: (decimal (one.newStart.getD 0) ++ ' ' :: "@@".toList)) =
      decimal (two.oldStart.getD 0) ++ ' ' ::
      ('+' :: (decimal (two.newStart.getD 0) ++ ' ' :: "@@".toList)) := by
    simpa using separator
  obtain ⟨olds, rest⟩ := cut_unique ' ' _ _ _ _ (decimal_without _ ' ' rfl)
    (decimal_without _ ' ' rfl) texts
  obtain ⟨news, -⟩ := cut_unique ' ' _ _ _ _ (decimal_without _ ' ' rfl)
    (decimal_without _ ' ' rfl) (List.cons.inj rest).2
  have lines := lines_unique width width' one.lines two.lines fits.lines fits'.lines rows
  have old := start_unique _ _ fits.starts.1 fits'.starts.1 (decimal_injective _ _ olds)
  have new := start_unique _ _ fits.starts.2 fits'.starts.2 (decimal_injective _ _ news)
  cases one
  cases two
  cases old
  cases new
  cases lines
  rfl

theorem label_spaceless (status : FileStatus) : ' ' ∉ status.label := by
  cases status <;> decide

theorem header_unique (one two : FileStatus) (path path' : Str)
    (same : one.label ++ "  ".toList ++ path = two.label ++ "  ".toList ++ path') :
    one = two ∧ path = path' := by
  have texts : one.label ++ ' ' :: (' ' :: path) = two.label ++ ' ' :: (' ' :: path') := by
    simpa using same
  obtain ⟨labels, rest⟩ := cut_unique ' ' _ _ _ _ (label_spaceless one) (label_spaceless two) texts
  exact ⟨label_injective one two labels, (List.cons.inj rest).2⟩

/-- A file's header and rows tell it. -/
theorem file_unique (width width' : Nat) (one two : ShownFile) (wide : 4 ≤ width)
    (wide' : 4 ≤ width') (fits : ∀ hunk ∈ one.hunks, hunk.Fits width)
    (fits' : ∀ hunk ∈ two.hunks, hunk.Fits width') (same : one.block width = two.block width') :
    one = two := by
  obtain ⟨header, rows⟩ := Prod.mk.inj same
  obtain ⟨status, path⟩ := header_unique _ _ _ _ header
  have blocks := laid_injective startsHunk _ _ (headed_hunks width _ wide fits)
    (headed_hunks width' _ wide' fits') rows
  have hunks := map_unique _ _ _ _ (fun x listed y listed' =>
    hunk_unique width width' x y (fits x listed) (fits' y listed')) blocks
  cases one
  cases two
  cases status
  cases path
  cases hunks
  rfl

theorem headed_file (width : Nat) (file : ShownFile) :
    startsFile (file.block width).1 = true ∧
      ∀ row ∈ (file.block width).2, startsFile row = false := by
  constructor
  · obtain ⟨status, path, hunks⟩ := file
    cases status <;> rfl
  · intro row inside
    obtain ⟨block, held, inside⟩ := List.mem_flatMap.1 inside
    obtain ⟨hunk, -, rfl⟩ := List.mem_map.1 held
    rcases List.mem_cons.1 inside with rfl | inside
    · exact (block_row width hunk).1
    · obtain ⟨line, -, rfl | ⟨note, -, rfl⟩⟩ := mem_lines width hunk.lines row inside
      · simp [ShownLine.row, startsFile]
      · simp [noteRow, startsFile]

end Headers

end DeepDiffForge.Projection
