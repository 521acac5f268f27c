import DeepDiffForge.Core.Address
import DeepDiffForge.Patch.Extent

/-! A hunk's address within a parsed review: no path there holds a NUL and no line a line feed, so
hunks that share an address are one place and one body. -/

namespace DeepDiffForge.Patch
open Text DeepDiffForge.Core

def NulFree (name : Option Str) : Prop := ∀ path ∈ name, '\x00' ∉ path

theorem squashSlashes_clean (path : Str) (clean : '\x00' ∉ path) : '\x00' ∉ squashSlashes path := by
  have inside (last : Bool) : ∀ c ∈ squashAfter last path, c ∈ path := by
    clear clean
    induction path generalizing last with
    | nil => exact fun c mem => mem
    | cons d path ih =>
      intro c mem
      rw [squashAfter] at mem
      split_ifs at mem
      · exact .tail _ (ih true c mem)
      · rcases List.mem_cons.1 mem with rfl | later
        · exact List.mem_cons_self
        · exact .tail _ (ih _ c later)
  exact fun mem => clean (inside false _ mem)

theorem splitOnce_clean (sep : Char) (path before after : Str) (clean : '\x00' ∉ path)
    (split : splitOnce sep path = some (before, after)) : '\x00' ∉ after := by
  obtain ⟨rfl, -⟩ := (splitOnce_eq_some sep path before after).1 split
  exact fun mem => clean (List.mem_append_right _ (.tail _ mem))

theorem headerHalf_clean (path : Str) (p0 : Bool) (clean : '\x00' ∉ path) :
    '\x00' ∉ headerHalf path p0 := by
  unfold headerHalf
  split_ifs
  · exact clean
  · cases split : splitOnce '/' path with
    | none => exact clean
    | some parts => exact splitOnce_clean '/' path _ _ clean split

theorem pName_clean (path : Str) (p0 : Bool) (clean : '\x00' ∉ path) : '\x00' ∉ pName path p0 :=
  squashSlashes_clean _ (headerHalf_clean path p0 clean)

theorem stripP_clean (path : Str) (p0 : Bool) (clean : '\x00' ∉ path) : NulFree (stripP path p0) := by
  intro rest found
  unfold stripP at found
  cases whole : (if p0 then some path else (splitOnce '/' path).map Prod.snd) with
  | none =>
    rw [whole] at found
    cases found
  | some own =>
    rw [whole, Option.mem_def] at found
    dsimp only at found
    split_ifs at found
    obtain rfl := Option.some.inj found
    split_ifs at whole
    · rwa [← Option.some.inj whole]
    · obtain ⟨parts, cut, rfl⟩ := Option.map_eq_some_iff.1 whole
      exact splitOnce_clean '/' path parts.1 parts.2 clean cut

theorem squashed_clean (name : Option Str) (clean : NulFree name) :
    NulFree (name.map squashSlashes) := by
  intro path found
  obtain ⟨own, held, rfl⟩ := Option.map_eq_some_iff.1 found
  exact squashSlashes_clean own (clean own held)

theorem decodePath_clean (path : Str) : NulFree (decodePath path) :=
  fun name found => decodePath_noNul path name found

theorem ite_clean (choice : Prop) [Decidable choice] (one two : Option Str) (first : NulFree one)
    (second : NulFree two) : NulFree (if choice then one else two) := by
  split_ifs
  · exact first
  · exact second

theorem headerName_clean (rest : Str) (dated : Bool) : NulFree (headerName rest dated) := by
  have null : NulFree (some devNull) := by
    rintro path ⟨⟩
    decide
  have stamped (front : Option Str) : NulFree (front.bind decodePath) := by
    intro path found
    obtain ⟨own, -, read⟩ := Option.bind_eq_some_iff.1 found
    exact decodePath_noNul own path read
  unfold headerName
  exact ite_clean _ _ _ null (ite_clean _ _ _ (decodePath_clean _)
    (ite_clean _ _ _ (stamped _) (decodePath_clean _)))

theorem movedPath_clean (path : Str) : NulFree (movedPath path) := by
  refine squashed_clean _ fun own found => ?_
  exact decodePath_noNul path own (Option.filter_eq_some_iff.1 found).1

/-- The new name of a `diff --git` line holds no NUL, and comes with the old one. -/
theorem gitNames_clean (rest : Str) (p0 : Bool) (names : Option Str × Option Str)
    (read : gitNames rest p0 = some names) :
    NulFree names.2 ∧ (names.2 = none → names.1 = none) := by
  unfold gitNames at read
  split_ifs at read
  · split at read
    · cases read
    · split at read
      · cases read
      · rename_i new found
        cases read
        refine ⟨?_, by rintro ⟨⟩⟩
        rintro path ⟨⟩
        exact headerHalf_clean new p0 (decodePath_noNul _ new found)
  · split at read
    · obtain ⟨name, found, rfl⟩ := Option.map_eq_some_iff.1 read
      refine ⟨?_, by rintro ⟨⟩⟩
      rintro path ⟨⟩
      exact decodePath_noNul _ name found
    · split at read
      · cases read
        refine ⟨?_, fun _ => rfl⟩
        rintro path ⟨⟩
      · split at read
        · rename_i old new _ found
          cases read
          refine ⟨?_, by rintro ⟨⟩⟩
          rintro path ⟨⟩
          exact pName_clean new p0 (decodePath_noNul _ new found)
        · cases read

structure FileBuf.Clean (file : FileBuf) : Prop where
  oldRaw : NulFree file.oldRaw
  newRaw : NulFree file.newRaw
  renameTo : NulFree file.renameTo
  traditional : NulFree file.traditionalPath
  git : NulFree file.gitNew ∧ (file.gitNew = none → file.gitOld = none)

theorem namedSide_clean (raw : Option Str) (p0 : Bool) (clean : NulFree raw) :
    NulFree (namedSide raw p0) := by
  intro path found
  obtain ⟨own, held, rfl⟩ := Option.map_eq_some_iff.1 found
  exact pName_clean own p0 (clean own (Option.filter_eq_some_iff.1 held).1)

theorem resolvePath_clean (file : FileBuf) (clean : file.Clean) : '\x00' ∉ file.resolvePath := by
  unfold FileBuf.resolvePath
  split
  · rename_i moved found
    exact clean.renameTo moved found
  split
  · rename_i path found
    exact clean.traditional path found
  · have sides := namedSide_clean file.oldRaw file.p0 clean.oldRaw
    have sides' := namedSide_clean file.newRaw file.p0 clean.newRaw
    cases new : namedSide file.newRaw file.p0 with
    | some path => exact sides' path new
    | none =>
      cases old : namedSide file.oldRaw file.p0 with
      | some path => exact sides path old
      | none =>
        cases git : file.gitNew with
        | some path => exact clean.git.1 path git
        | none =>
          rw [clean.git.2 git]
          exact List.not_mem_nil

theorem completeSide_clean (file completed : FileBuf) (verb side : Str) (raw : Option Str)
    (named : NulFree raw) (clean : file.Clean)
    (ok : file.completeSide verb side raw = some completed) : completed.Clean := by
  have names := namedSide_clean raw file.p0 named
  unfold FileBuf.completeSide at ok
  split at ok
  · cases ok
  · rename_i name found
    have own := names name (Option.filter_eq_some_iff.1 found).1
    split_ifs at ok <;> cases ok
    · exact ⟨clean.oldRaw, clean.newRaw, clean.renameTo, clean.traditional, clean.git⟩
    · refine ⟨clean.oldRaw, clean.newRaw, ?_, clean.traditional, clean.git⟩
      rintro path ⟨⟩
      exact own
    · exact ⟨clean.oldRaw, clean.newRaw, clean.renameTo, clean.traditional, clean.git⟩

theorem completeMoveHeaders_clean (file completed : FileBuf) (clean : file.Clean)
    (ok : file.completeMoveHeaders = some completed) : completed.Clean := by
  have sides (verb : Str)
      (ok : ((if (!file.has (verb ++ "from ".toList)) = true then
          file.completeSide verb "from ".toList file.oldRaw else some file).bind fun file' =>
        if (!file.has (verb ++ "to ".toList)) = true then
          file'.completeSide verb "to ".toList file.newRaw else some file') = some completed) :
      completed.Clean := by
    obtain ⟨middle, first, second⟩ := Option.bind_eq_some_iff.1 ok
    have between : middle.Clean := by
      split_ifs at first
      · exact completeSide_clean _ _ _ _ _ clean.oldRaw clean first
      · rwa [← Option.some.inj first]
    split_ifs at second
    · exact completeSide_clean _ _ _ _ _ clean.newRaw between second
    · rwa [← Option.some.inj second]
  simp only [FileBuf.completeMoveHeaders] at ok
  split at ok
  · exact sides _ ok
  split at ok
  · exact sides _ ok
  · rwa [← Option.some.inj ok]

theorem recordImpliedRename_clean (file named : FileBuf) (clean : file.Clean)
    (ok : file.recordImpliedRename = some named) : named.Clean := by
  have sides := namedSide_clean file.newRaw file.p0 clean.newRaw
  unfold FileBuf.recordImpliedRename at ok
  split_ifs at ok
  · rwa [← Option.some.inj ok]
  · split at ok
    · rename_i old new _ found
      split_ifs at ok
      · rw [← Option.some.inj ok]
        refine ⟨clean.oldRaw, clean.newRaw, ?_, clean.traditional, clean.git⟩
        rintro path ⟨⟩
        exact sides new found
      · rwa [← Option.some.inj ok]
    · rwa [← Option.some.inj ok]

/-- A finished file's path holds no NUL when the buffer's paths hold none. -/
theorem finished_clean (file : FileBuf) (reviewed : ReviewFile) (clean : file.Clean)
    (ok : file.finished = some reviewed) : '\x00' ∉ reviewed.path := by
  obtain ⟨_, _, _, completed, named, completes, moved, _, _, _, _, rfl⟩ := finished_cases _ _ ok
  have complete := completeMoveHeaders_clean file completed clean completes
  apply resolvePath_clean
  split_ifs at moved
  · rwa [← Option.some.inj moved]
  · exact recordImpliedRename_clean completed named complete moved

theorem traditionalNames_clean (old new : Str) (p0 oldEpoch newEpoch newQuoted : Bool)
    (cleanOld : '\x00' ∉ old) (cleanNew : '\x00' ∉ new) :
    NulFree (traditionalNames old new p0 oldEpoch newEpoch newQuoted).1 ∧
      NulFree (traditionalNames old new p0 oldEpoch newEpoch newQuoted).2.1 ∧
      NulFree (traditionalNames old new p0 oldEpoch newEpoch newQuoted).2.2 := by
  have one : NulFree (some old) := by
    rintro path ⟨⟩
    exact cleanOld
  have two : NulFree (some new) := by
    rintro path ⟨⟩
    exact cleanNew
  have null : NulFree (some devNull) := by
    rintro path ⟨⟩
    decide
  have first := squashed_clean _ (stripP_clean old p0 cleanOld)
  have second := stripP_clean new p0 cleanNew
  have second' := squashed_clean _ second
  have name : NulFree (traditionalName old new p0 newQuoted) := by
    unfold traditionalName
    split
    · rename_i front back held kept
      split_ifs
      · rw [← held]
        exact first
      · rintro path ⟨⟩
        exact squashSlashes_clean back (second back kept)
    · rename_i back held kept
      rintro path ⟨⟩
      exact squashSlashes_clean back (second back kept)
    · exact first
  unfold traditionalNames
  split_ifs
  · exact ⟨one, two, second'⟩
  · exact ⟨one, two, first⟩
  · exact ⟨null, two, name⟩
  · exact ⟨one, null, name⟩
  · exact ⟨one, two, name⟩

theorem buf_clean (part : Section) (shaped : part.Shaped) : part.buf.Clean := by
  have old : ∀ line ∈ part.oldName, '\x00' ∉ line.name := fun line held =>
    headerName_clean _ _ line.name (shaped.old line held).2
  have new : ∀ line ∈ part.newName, '\x00' ∉ line.name := fun line held =>
    headerName_clean _ _ line.name (shaped.new line held).2
  have plain (name : Option NameLine) (clean : ∀ line ∈ name, '\x00' ∉ line.name) :
      NulFree (name.map (·.name)) := by
    intro path found
    obtain ⟨line, held, rfl⟩ := Option.map_eq_some_iff.1 found
    exact clean line held
  have names : NulFree part.names.1 ∧ NulFree part.names.2.1 ∧ NulFree part.names.2.2 := by
    unfold Section.names
    split
    · rename_i oldLine newLine _ oldHeld newHeld
      exact traditionalNames_clean _ _ _ _ _ _ (old oldLine oldHeld) (new newLine newHeld)
    · exact ⟨plain _ old, plain _ new, nofun⟩
  have git : NulFree (part.opening.bind (·.names.2)) ∧
      (part.opening.bind (·.names.2) = none → part.opening.bind (·.names.1) = none) := by
    cases opened : part.opening with
    | none => exact ⟨nofun, fun _ => rfl⟩
    | some line => exact gitNames_clean line.rest part.p0 line.names (shaped.named line opened)
  refine ⟨names.1, names.2.1, ?_, names.2.2, git⟩
  intro path found
  obtain ⟨header, -, read⟩ := Option.bind_eq_some_iff.1 found
  exact movedPath_clean header path read

theorem parsed_clean (input : Str) (byteLen : Nat) (lossy : List Nat) (options : ParseOptions)
    (files : List ReviewFile) (read : parseLines input byteLen lossy options = .ok files) :
    ∀ file ∈ files, '\x00' ∉ file.path ∧
      ∀ hunk ∈ file.patchTwin.hunks, ∀ line ∈ hunk.lines, '\n' ∉ line.text := by
  obtain ⟨-, -, doc, grown, reviewed⟩ := (parseLines_eq_ok _ _ _ _ _).1 read
  obtain ⟨shaped, lines⟩ := shaped_grown _ _ grown
  intro file member
  obtain ⟨part, listed, base, review, ok, rfl⟩ := reviewFrom_origin 0 doc.sections files reviewed
    file member
  obtain ⟨unopened, finished⟩ := review_cases part review ok
  refine ⟨finished_clean part.buf review (buf_clean part (shaped.parts part listed)) finished, ?_⟩
  intro hunk held line inside
  rw [shiftFile_hunks base part review ok] at held
  obtain ⟨text, here, own, rfl⟩ := mem_numberHunks base part.hunks hunk held
  obtain ⟨body, present, old, new, rfl⟩ := mem_numberBody _ _ _ line inside
  have input' : { text := body.text, lossy := body.lossy } ∈ doc.lines := by
    refine List.mem_append_right _ (List.mem_flatMap.2 ⟨part, listed, ?_⟩)
    have inner : { text := body.text, lossy := body.lossy } ∈ text.lines :=
      List.mem_cons_of_mem _ (List.mem_flatMap.2 ⟨body, present, List.mem_cons_self⟩)
    have hunks := List.mem_flatMap.2 ⟨text, here, inner⟩
    simp [Section.lines, hunks]
  have split : body.text ∈ splitLines input := by
    rw [← inputLines_text (splitLines input) 0 lossy
      (if unterminated input then some (splitLines input).length else none)]
    refine List.mem_map.2 ⟨{ text := body.text, lossy := body.lossy }, ?_, rfl⟩
    rw [lines] at input'
    exact input'
  exact fun mem => splitLines_plain input body.text split (List.mem_of_mem_tail mem)

/-- Two inputs of the digest that it does not tell apart. -/
def Collide (one two : List UInt8) : Prop := one ≠ two ∧ sha256Hex one = sha256Hex two

/-- An address is the digest of bytes that only one place and body give. -/
theorem addresses_identify :
    (∀ one two : PatchHunk, ∀ pathOne pathTwo : Str, '\x00' ∉ pathOne → '\x00' ∉ pathTwo →
      (∀ line ∈ one.lines, '\n' ∉ line.text) → (∀ line ∈ two.lines, '\n' ∉ line.text) →
      Utf8.encode (one.preimage pathOne) = Utf8.encode (two.preimage pathTwo) →
      SameHunk one two pathOne pathTwo) ∧
    ∀ input byteLen lossy options files, parseLines input byteLen lossy options = .ok files →
      ∀ fileOne ∈ files, ∀ one ∈ fileOne.patchTwin.hunks,
      ∀ fileTwo ∈ files, ∀ two ∈ fileTwo.patchTwin.hunks,
      one.address fileOne.path = two.address fileTwo.path →
      SameHunk one two fileOne.path fileTwo.path ∨
        Collide (Utf8.encode (one.preimage fileOne.path))
          (Utf8.encode (two.preimage fileTwo.path)) := by
  have unique (one two : PatchHunk) (pathOne pathTwo : Str) (cleanOne : '\x00' ∉ pathOne)
      (cleanTwo : '\x00' ∉ pathTwo) (plainOne : ∀ line ∈ one.lines, '\n' ∉ line.text)
      (plainTwo : ∀ line ∈ two.lines, '\n' ∉ line.text)
      (same : Utf8.encode (one.preimage pathOne) = Utf8.encode (two.preimage pathTwo)) :
      SameHunk one two pathOne pathTwo :=
    preimage_unique one two pathOne pathTwo cleanOne cleanTwo plainOne plainTwo
      (Utf8.encode_injective _ _ same)
  refine ⟨unique, ?_⟩
  intro input byteLen lossy options files read fileOne memOne one heldOne fileTwo memTwo two heldTwo
    same
  obtain ⟨cleanOne, plainOne⟩ := parsed_clean _ _ _ _ _ read fileOne memOne
  obtain ⟨cleanTwo, plainTwo⟩ := parsed_clean _ _ _ _ _ read fileTwo memTwo
  rw [address_eq, address_eq] at same
  by_cases equal : Utf8.encode (one.preimage fileOne.path) = Utf8.encode (two.preimage fileTwo.path)
  · exact .inl (unique one two _ _ cleanOne cleanTwo (plainOne one heldOne) (plainTwo two heldTwo)
      equal)
  · exact .inr ⟨equal, same⟩

/-- A hunk whose lines look like the marker, a separator and a number. -/
def trickyHunk : PatchHunk where
  id := 0
  oldStart := some 1
  newStart := none
  sectionHeading := none
  lines :=
    [{ noNewline := true, lossy := false, kind := .removed, oldLine := some 1, newLine := none,
       text := "\\ No newline at end of file".toList },
     { noNewline := false, lossy := false, kind := .added, oldLine := none, newLine := some 1,
       text := ['\x00', '1', ',', '1'] }]

def retoldHunk : PatchHunk :=
  { trickyHunk with id := 7, newStart := some 0, sectionHeading := some "fn main()".toList }

theorem addresses_identify_tricky : SameHunk trickyHunk retoldHunk ['x'] ['x'] :=
  addresses_identify.1 trickyHunk retoldHunk ['x'] ['x'] (by decide) (by decide)
    (by simp [trickyHunk]) (by simp [retoldHunk, trickyHunk]) rfl

end DeepDiffForge.Patch
