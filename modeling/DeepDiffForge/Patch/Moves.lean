import DeepDiffForge.Patch.Unambiguous
import Mathlib.Data.List.Forall2

/-! The names a moved file is reviewed under, beside those its move headers give. -/

namespace DeepDiffForge.Patch
open Text DeepDiffForge.Core

/-- The `rename` and `copy` headers of a section. -/
def Section.moveHeaders (part : Section) : List Str :=
  part.headers.filter (startsWithAny movePrefixes)

/-- The section's move headers are one `from` and one `to` line of one verb. -/
def Section.Moves (part : Section) (verb source target : Str) : Prop :=
  (verb = "rename ".toList ∨ verb = "copy ".toList) ∧
    (part.moveHeaders = [verb ++ "from ".toList ++ source, verb ++ "to ".toList ++ target] ∨
      part.moveHeaders = [verb ++ "to ".toList ++ target, verb ++ "from ".toList ++ source])

def readPath (path : Str) : Option Str := (decodePath path).map squashSlashes

def MovedAs (file : ReviewFile) (source target : Str) : Prop :=
  some file.path = readPath target ∧ oldPath file = readPath source

/-- The name a section's `+++` line gives, or without one its `diff --git` line. -/
def Section.givenName (part : Section) : Str :=
  match part.newName with
  | some new => pName new.name part.p0
  | none => ((part.opening.bind (·.names.2)).or (part.opening.bind (·.names.1))).getD []

/-- The name a section without a `rename to` header is given is the one its headers copy to. -/
def Section.namesTarget (part : Section) (verb target : Str) : Prop :=
  verb = "rename ".toList ∨ some part.givenName = readPath target

theorem findSome?_filter {α β : Type} (f : α → Option β) (p : α → Bool) (l : List α)
    (only : ∀ x ∈ l, p x = false → f x = none) : (l.filter p).findSome? f = l.findSome? f := by
  induction l with
  | nil => rfl
  | cons x l ih =>
    have rest := ih (fun y member => only y (by simp [member]))
    by_cases kept : p x = true
    · rw [List.filter_cons_of_pos kept, List.findSome?_cons, List.findSome?_cons, rest]
    · rw [List.filter_cons_of_neg kept, rest, List.findSome?_cons,
        only x (by simp) (eq_false_of_ne_true kept)]

theorem filterMap_filter {α β : Type} (f : α → Option β) (p : α → Bool) (l : List α)
    (only : ∀ x ∈ l, p x = false → f x = none) : (l.filter p).filterMap f = l.filterMap f := by
  rw [List.filterMap_filter]
  refine List.filterMap_congr fun x member => ?_
  split
  · rfl
  · rename_i unkept
    exact (only x member (eq_false_of_ne_true unkept)).symm

theorem unmoved (line start : Str) (listed : start ∈ movePrefixes)
    (plain : startsWithAny movePrefixes line = false) : startsWith start line = false := by
  simp only [startsWithAny, List.any_eq_false] at plain
  exact eq_false_of_ne_true (plain start listed)

/-- Only move headers are looked for among a buffer's metadata by a move's start. -/
theorem has_buf (part : Section) (shaped : part.Shaped) (start : Str)
    (listed : start ∈ movePrefixes) :
    part.buf.has start = part.moveHeaders.any (startsWith start) := by
  have markers : part.markers.any (fun marker => startsWith start marker.text) = false := by
    rw [List.any_eq_false]
    intro marker member
    rw [shaped.markers marker member, Bool.not_eq_true]
    revert start
    decide
  have headers : part.headers.any (startsWith start) =
      part.moveHeaders.any (startsWith start) := by
    rw [Section.moveHeaders, List.any_filter]
    refine congrArg part.headers.any (funext fun line => ?_)
    cases moves : startsWithAny movePrefixes line with
    | true => simp
    | false => rw [unmoved line start listed moves, Bool.false_and]
  rw [FileBuf.has, Section.buf, List.any_append, List.any_map, ← headers]
  simp only [Function.comp_def, markers, Bool.or_false]

theorem moved_moveHeaders (part : Section) (start : Str) (listed : start ∈ movePrefixes) :
    part.moved start =
      ((part.moveHeaders.filterMap (stripPrefix start)).getLast?).bind movedPath := by
  rw [Section.moved, Section.moveHeaders, filterMap_filter]
  intro line _ plain
  rw [stripPrefix_eq_none]
  exact unmoved line start listed plain

theorem complete_named (file : FileBuf) (verb : Str)
    (source : file.has (verb ++ "from ".toList) = true)
    (target : file.has (verb ++ "to ".toList) = true) :
    ((if (!file.has (verb ++ "from ".toList)) = true then
        file.completeSide verb "from ".toList file.oldRaw else some file).bind fun file' =>
      if (!file.has (verb ++ "to ".toList)) = true then
        file'.completeSide verb "to ".toList file.newRaw else some file') = some file := by
  rw [source, target]
  rfl

/-- Headers that name both sides need no completing. -/
theorem completeMoveHeaders_moves (part : Section) (verb source target : Str)
    (shaped : part.Shaped) (moves : part.Moves verb source target) :
    part.buf.completeMoveHeaders = some part.buf ∧ part.buf.hasMove = true := by
  have has (start : Str) (listed : start ∈ movePrefixes) := has_buf part shaped start listed
  have renameFrom := has "rename from ".toList (by decide)
  have renameTo := has "rename to ".toList (by decide)
  have copyFrom := has "copy from ".toList (by decide)
  have copyTo := has "copy to ".toList (by decide)
  obtain ⟨rfl | rfl, lines⟩ := moves
  · have one : part.buf.has "rename from ".toList = true := by
      rw [renameFrom]
      rcases lines with lines | lines <;> rw [lines] <;> rfl
    have other : part.buf.has "rename to ".toList = true := by
      rw [renameTo]
      rcases lines with lines | lines <;> rw [lines] <;> rfl
    constructor
    · simp only [FileBuf.completeMoveHeaders, one, Bool.true_or, if_true]
      exact complete_named part.buf "rename ".toList one other
    · simp only [FileBuf.hasMove, movePrefixes, List.any_cons, one, Bool.true_or]
  · have absent : (part.buf.has "rename from ".toList || part.buf.has "rename to ".toList) =
        false := by
      rw [renameFrom, renameTo]
      rcases lines with lines | lines <;> rw [lines] <;> rfl
    have one : part.buf.has "copy from ".toList = true := by
      rw [copyFrom]
      rcases lines with lines | lines <;> rw [lines] <;> rfl
    have other : part.buf.has "copy to ".toList = true := by
      rw [copyTo]
      rcases lines with lines | lines <;> rw [lines] <;> rfl
    constructor
    · simp only [FileBuf.completeMoveHeaders, absent, one, Bool.true_or, Bool.false_eq_true,
        if_false, if_true]
      exact complete_named part.buf "copy ".toList one other
    · simp only [FileBuf.hasMove, movePrefixes, List.any_cons, one, Bool.true_or, Bool.or_true]

theorem checkMoveSources_mem (file : FileBuf) (lines : List Str) (declared : Option Str)
    (ok : file.checkMoveSources lines declared = true) (line source : Str) (member : line ∈ lines)
    (moves : moveSource line = some source) :
    (readPath source).isSome ∧ file.newRaw ≠ some devNull := by
  induction lines generalizing declared with
  | nil => cases member
  | cons head lines ih =>
    rw [FileBuf.checkMoveSources] at ok
    rcases List.mem_cons.1 member with rfl | later
    · rw [moves] at ok
      cases read : (decodePath source).map squashSlashes with
      | none => simp [read] at ok
      | some path =>
        simp only [read, Bool.and_eq_true, Bool.not_eq_true', Bool.or_eq_false_iff,
          decide_eq_false_iff_not] at ok
        exact ⟨by simp [readPath, read], ok.1.2.1.1.2⟩
    · cases found : moveSource head with
      | none =>
        rw [found] at ok
        exact ih _ ok later
      | some other =>
        rw [found] at ok
        cases read : (decodePath other).map squashSlashes with
        | none => simp [read] at ok
        | some path =>
          simp only [read, Bool.and_eq_true] at ok
          exact ih _ ok.2 later

theorem movedPath_eq (path moved : Str) (read : movedPath path = some moved) :
    readPath path = some moved := by
  simp only [movedPath, Option.map_eq_some_iff, Option.filter_eq_some_iff] at read
  obtain ⟨decoded, ⟨found, _⟩, same⟩ := read
  simp [readPath, found, same]

theorem mem_moveHeaders (part : Section) (verb source target : Str)
    (moves : part.Moves verb source target) :
    verb ++ "from ".toList ++ source ∈ part.headers ∧
      verb ++ "to ".toList ++ target ∈ part.headers := by
  have listed (line : Str) (member : line ∈ part.moveHeaders) : line ∈ part.headers :=
    (List.mem_filter.1 member).1
  rcases moves.2 with lines | lines
  · exact ⟨listed _ (by simp [lines]), listed _ (by simp [lines])⟩
  · exact ⟨listed _ (by simp [lines]), listed _ (by simp [lines])⟩

theorem movedPath_of_header (part : Section) (shaped : part.Shaped) (start path : Str)
    (listed : start ∈ movePrefixes) (member : start ++ path ∈ part.headers) :
    (movedPath path).isSome := by
  obtain ⟨line, present, same⟩ := List.mem_map.1 member
  have read := shaped.extended line present
  rw [same] at read
  simp only [readsExtended, Bool.and_eq_true, List.all_eq_true] at read
  have paths := read.1.2 start listed
  rwa [stripPrefix_append] at paths

theorem resolvePath_moves (part : Section) (verb source target : Str) (shaped : part.Shaped)
    (moves : part.Moves verb source target) (present : part.buf.newRaw ≠ some devNull)
    (settled : part.awaiting = false) :
    (some part.buf.resolvePath = readPath target ↔ part.namesTarget verb target) := by
  obtain ⟨_, toLine⟩ := mem_moveHeaders part verb source target moves
  have git : part.git = true := by
    by_contra traditional
    have bare := (shaped.traditional (eq_false_of_ne_true traditional)).2
    simp [Section.headers, bare] at toLine
  obtain ⟨opening, opened⟩ := Option.isSome_iff_exists.1 git
  have target' : part.buf.renameTo = part.moved "rename to ".toList := rfl
  rw [moved_moveHeaders part _ (by decide)] at target'
  obtain ⟨rfl | rfl, lines⟩ := moves
  · obtain ⟨path, read⟩ := Option.isSome_iff_exists.1
      (movedPath_of_header part shaped "rename to ".toList target (by decide) toLine)
    have listed : part.moveHeaders.filterMap (stripPrefix "rename to ".toList) = [target] := by
      rcases lines with lines | lines <;> rw [lines] <;> rfl
    rw [listed] at target'
    have found : part.buf.renameTo = some path := target'.trans read
    refine ⟨fun _ => .inl rfl, fun _ => ?_⟩
    rw [movedPath_eq target path read, FileBuf.resolvePath, found]
  · have listed : part.moveHeaders.filterMap (stripPrefix "rename to ".toList) = [] := by
      rcases lines with lines | lines <;> rw [lines] <;> rfl
    rw [listed] at target'
    have unnamed : part.buf.renameTo = none := target'
    have names : part.names = (part.oldName.map (·.name), part.newName.map (·.name), none) := by
      simp [Section.names, opened]
    have untraditional : part.buf.traditionalPath = none := by
      simp [Section.buf, names]
    have oldRaw : part.buf.oldRaw = part.oldName.map (·.name) := by simp [Section.buf, names]
    have newRaw : part.buf.newRaw = part.newName.map (·.name) := by simp [Section.buf, names]
    have bare : part.buf.p0 = part.p0 := by simp [Section.buf, Section.bare, git]
    have path : part.buf.resolvePath = part.givenName := by
      simp only [FileBuf.resolvePath, unnamed, untraditional, bare, Section.givenName]
      rcases nameLines_cases part shaped settled with ⟨old, new⟩ | ⟨old, new, oldNamed, newNamed⟩
      · simp only [oldRaw, newRaw, old, new]
        rfl
      · rw [newRaw, newNamed] at present
        have kept : new.name ≠ devNull := fun null => present (by rw [← null]; rfl)
        simp only [newRaw, newNamed, Option.map_some, namedSide, Option.filter_some]
        simp [kept]
    rw [path]
    have verbs : ("copy ".toList : Str) ≠ "rename ".toList := by decide
    exact ⟨fun same => .inr same, fun given => given.resolve_left verbs⟩

/-- The old path shown is the source as decoded, its repeated slashes kept. -/
theorem oldPath_moves (part : Section) (verb source target : Str) (shaped : part.Shaped)
    (moves : part.Moves verb source target) :
    (part.buf.metadata.findSome? fun line =>
      (moveSource line).map fun path => (decodePath path).getD path) = decodePath source := by
  obtain ⟨fromLine, _⟩ := mem_moveHeaders part verb source target moves
  have isSource (verb : Str) (known : verb = "rename ".toList ∨ verb = "copy ".toList)
      (path : Str) : moveSource (verb ++ "from ".toList ++ path) = some path := by
    rcases known with rfl | rfl <;> rfl
  have isTarget (verb : Str) (known : verb = "rename ".toList ∨ verb = "copy ".toList)
      (path : Str) : moveSource (verb ++ "to ".toList ++ path) = none := by
    rcases known with rfl | rfl <;> rfl
  obtain ⟨path, read⟩ := Option.isSome_iff_exists.1
    (movedPath_of_header part shaped (verb ++ "from ".toList) source (by
      rcases moves.1 with rfl | rfl <;> decide) fromLine)
  have decoded := movedPath_eq source path read
  simp only [readPath, Option.map_eq_some_iff] at decoded
  obtain ⟨shown, decodes, _⟩ := decoded
  have among : (part.headers.findSome? fun line =>
      (moveSource line).map fun path => (decodePath path).getD path) = some shown := by
    rw [← findSome?_filter _ (startsWithAny movePrefixes)]
    · change part.moveHeaders.findSome? _ = _
      rcases moves.2 with lines | lines <;>
        simp only [lines, List.findSome?_cons, isSource verb moves.1, isTarget verb moves.1, decodes,
          Option.map_some, Option.map_none, Option.getD_some]
    · intro line _ plain
      have renames := unmoved line "rename from ".toList (by decide) plain
      have copies := unmoved line "copy from ".toList (by decide) plain
      rw [← stripPrefix_eq_none] at renames copies
      simp only [moveSource, renames, copies, Option.or_none, Option.map_none]
  have metadata : part.buf.metadata = part.headers ++ part.markers.map (·.text) := rfl
  rw [metadata, List.findSome?_append, among, decodes]
  rfl

theorem squash_decoded (source : Str) (decodes : (decodePath source).isSome) :
    decodePath source = readPath source ↔
      ∀ path ∈ decodePath source, squashSlashes path = path := by
  obtain ⟨path, same⟩ := Option.isSome_iff_exists.1 decodes
  simp [readPath, same, eq_comm]

theorem movedAs_iff (part : Section) (reviewed : ReviewFile) (verb source target : Str)
    (shaped : part.Shaped) (ok : part.review = some reviewed)
    (moves : part.Moves verb source target) :
    MovedAs reviewed source target ↔
      part.namesTarget verb target ∧ ∀ path ∈ decodePath source, squashSlashes path = path := by
  obtain ⟨_, finished⟩ := review_cases part reviewed ok
  obtain ⟨settled, _, _, completed, named, completes, moved, sources, _, _, _, rfl⟩ :=
    finished_cases _ _ finished
  obtain ⟨complete, hasMove⟩ := completeMoveHeaders_moves part verb source target shaped moves
  rw [complete] at completes
  cases completes
  rw [if_pos hasMove] at moved
  cases moved
  obtain ⟨fromLine, _⟩ := mem_moveHeaders part verb source target moves
  have isSource : moveSource (verb ++ "from ".toList ++ source) = some source := by
    rcases moves.1 with rfl | rfl <;> rfl
  obtain ⟨readable, present⟩ := checkMoveSources_mem part.buf part.buf.metadata none sources _ source
    (List.mem_append_left _ fromLine) isSource
  have path := resolvePath_moves part verb source target shaped moves present settled
  have old : oldPath part.buf.intoReviewFile = decodePath source :=
    oldPath_moves part verb source target shaped moves
  rw [MovedAs, old, squash_decoded source (by simpa [readPath] using readable)]
  exact and_congr path Iff.rfl

/-- A section whose headers move a file is reviewed under their names just when the name it is
given is the target's and its source has no repeated slash. -/
theorem parse_moves (text : Str) (files : List ReviewFile) (doc : Document)
    (accepted : parse text = .ok files) (grown : Document.Grown (textLines text) doc) :
    List.Forall₂ (fun part file => ∀ verb source target, part.Moves verb source target →
      (MovedAs file source target ↔ part.namesTarget verb target ∧
        ∀ path ∈ decodePath source, squashSlashes path = path)) doc.sections files := by
  obtain ⟨shaped, _⟩ := shaped_grown _ _ grown
  have reviewed := files_of_grown text files doc accepted grown
  have pairs := (List.forall₂_and_left _ _).2
    ⟨shaped.parts, reviewFrom_forall₂ 0 doc.sections files reviewed⟩
  refine pairs.imp ?_
  rintro part _ ⟨shape, base, review, ok, rfl⟩ verb source target moves
  exact movedAs_iff part review verb source target shape ok moves

/-- A copy with another name in its `diff --git` line than in its `copy to`. -/
def strayCopy : Section where
  p0 := false
  opening := some { rest := "a/x b/y".toList, names := (some "x".toList, some "y".toList) }
  extended := ["similarity index 100%".toList, "copy from x".toList, "copy to z".toList]

theorem strayCopy_built : strayCopy.Built false strayCopy.lines := by
  have opened : Section.Built false _ _ := .opens
    (.git { rest := "a/x b/y".toList, names := (some "x".toList, some "y".toList) }
      (by decide +kernel))
  have index := opened.grows (.extended _ "similarity index 100%".toList rfl rfl rfl rfl
    (by decide +kernel))
  have copyFrom := index.grows (.extended _ "copy from x".toList rfl rfl rfl rfl
    (by decide +kernel))
  exact copyFrom.grows (.extended _ "copy to z".toList rfl rfl rfl rfl (by decide +kernel))

theorem parse_moves_stray :
    ¬∀ files doc, parse (unlines (strayCopy.lines.map (·.text))) = .ok files →
      Document.Grown (textLines (unlines (strayCopy.lines.map (·.text)))) doc →
      List.Forall₂ (fun part file => ∀ verb source target, part.Moves verb source target →
        MovedAs file source target) doc.sections files := by
  intro names
  have grown := grown_of_chained [] [strayCopy] (by simp)
    ⟨strayCopy_built, by simp [Section.Follows], trivial⟩
  have lines : textLines (unlines (strayCopy.lines.map (·.text))) =
      [] ++ [strayCopy].flatMap Section.lines := by
    decide +kernel
  have files := names
    [{ path := "y".toList
       status := .copied
       patchTwin :=
         { binaryBody := []
           hunks := []
           metadata := ["similarity index 100%".toList, "copy from x".toList, "copy to z".toList]
           lossyLines := 0 }
       semanticTwin := none
       planner := { strategy := .line, fallback := none, notes := [] } }] _
    (by decide +kernel) (lines ▸ grown)
  cases files with
  | cons moved _ =>
    have shown := (moved "copy ".toList "x".toList "z".toList ⟨.inr rfl, .inl (by decide)⟩).1
    revert shown
    decide

/-- A rename of `x` to `y` as Git writes it. -/
def renamed : ReviewFile where
  path := "y".toList
  status := .renamed
  patchTwin :=
    { binaryBody := []
      hunks := []
      metadata := ["similarity index 100%".toList, "rename from x".toList, "rename to y".toList]
      lossyLines := 0 }
  semanticTwin := none
  planner := { strategy := .line, fallback := none, notes := [] }

theorem parse_moves_rename :
    ∃ doc, Document.Grown (textLines (renderUnified [renamed])) doc ∧
      List.Forall₂ (fun part file => ∀ verb source target, part.Moves verb source target →
        (MovedAs file source target ↔ part.namesTarget verb target ∧
          ∀ path ∈ decodePath source, squashSlashes path = path)) doc.sections [renamed] := by
  have accepted : parse (renderUnified [renamed]) = .ok [renamed] := by decide +kernel
  obtain ⟨_, doc, grown, _⟩ := (parse_eq_ok _ _).1 accepted
  exact ⟨doc, grown, parse_moves _ _ doc accepted grown⟩

end DeepDiffForge.Patch
