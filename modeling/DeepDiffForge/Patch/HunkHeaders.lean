import DeepDiffForge.Patch.Headers

/-! The `@@` lines the parser takes are exactly those of Git's grammar. -/

namespace DeepDiffForge.Patch
open Text DeepDiffForge.Core

/-- One or more digits that say a `u32`. -/
structure Number (text : Str) (value : Nat) : Prop where
  nonempty : text ≠ []
  digits : ∀ c ∈ text, digit c = true
  reads : Nat.ofDigitChars 10 text 0 = value
  fits : value ≤ u32Max

inductive RangeText : Str → Nat → Nat → Prop
  | lone (text : Str) (start : Nat) (number : Number text start) : RangeText text start 1
  | counted (text more : Str) (start count : Nat) (number : Number text start)
      (counts : Number more count) : RangeText (text ++ ',' :: more) start count

/-- What may stand behind the closing `@@`: nothing, or a space and any heading. -/
inductive HeadingText : Str → Str → Prop
  | bare : HeadingText [] []
  | spaced (heading : Str) : HeadingText (' ' :: heading) heading

def shownHeading (heading : Str) : Option Str := if heading = [] then none else some heading

/-- `@@ -` R ` +` R ` @@` and a heading. -/
inductive HunkLine : Str → HunkHeader → Prop
  | line (old new tail heading : Str) (header : HunkHeader)
      (oldRange : RangeText old header.oldStart header.oldCount)
      (newRange : RangeText new header.newStart header.newCount)
      (headed : HeadingText tail heading) (shown : header.sectionHeading = shownHeading heading) :
      HunkLine ("@@ -".toList ++ old ++ " +".toList ++ new ++ " @@".toList ++ tail) header

def notDigit (rest : Str) : Prop := ∀ c ∈ rest.head?, digit c = false

theorem takeDigits_iff (text rest : Str) (value : Nat) :
    takeDigits text = some (value, rest) ↔
      ∃ run, Number run value ∧ text = run ++ rest ∧ notDigit rest := by
  constructor
  · intro read
    have stops : notDigit (text.dropWhile digit) := dropWhile_stops digit text
    simp only [takeDigits] at read
    split_ifs at read with empty fits
    cases read
    refine ⟨text.takeWhile digit, ?_, List.takeWhile_append_dropWhile.symm, stops⟩
    exact ⟨empty, fun c listed => List.mem_takeWhile_imp listed, rfl, fits⟩
  · intro read
    obtain ⟨run, number, same, stops⟩ := read
    obtain ⟨taken, dropped⟩ := takeWhile_run digit run rest number.digits stops
    rw [← same] at taken dropped
    unfold takeDigits
    rw [taken, dropped, if_neg number.nonempty, number.reads, if_pos number.fits]

theorem notDigit_comma (rest : Str) : notDigit (',' :: rest) := by
  intro c head
  cases head
  decide

theorem notDigit_space (rest : Str) : notDigit (' ' :: rest) := by
  intro c head
  cases head
  decide

theorem notComma_space (rest more : Str) : ' ' :: rest ≠ ',' :: more := by
  intro same
  exact absurd (List.cons.inj same).1 (by decide)

theorem takeRange_sound (text rest : Str) (start count : Nat)
    (read : takeRange text = some (start, count, rest)) :
    ∃ range, RangeText range start count ∧ text = range ++ rest := by
  unfold takeRange at read
  split at read
  · cases read
  · rename_i value afterComma digits
    obtain ⟨run, number, same, -⟩ := (takeDigits_iff _ _ _).1 digits
    rw [Option.map_eq_some_iff] at read
    obtain ⟨⟨counted, after⟩, second, made⟩ := read
    cases made
    obtain ⟨more, counts, same', -⟩ := (takeDigits_iff _ _ _).1 second
    refine ⟨run ++ ',' :: more, .counted run more _ _ number counts, ?_⟩
    rw [same, same', List.append_assoc, List.cons_append]
  · rename_i value after apart digits
    obtain ⟨run, number, same, -⟩ := (takeDigits_iff _ _ _).1 digits
    cases read
    exact ⟨run, .lone run _ number, same⟩

theorem takeRange_lone (text rest : Str) (start : Nat) (read : takeDigits text = some (start, rest))
    (apart : ∀ more, rest ≠ ',' :: more) : takeRange text = some (start, 1, rest) := by
  unfold takeRange
  rw [read]
  split
  · rename_i missing
    cases missing
  · rename_i same
    cases same
    exact absurd rfl (apart _)
  · rename_i same
    cases same
    rfl

theorem takeRange_complete (range rest : Str) (start count : Nat)
    (written : RangeText range start count) :
    takeRange (range ++ ' ' :: rest) = some (start, count, ' ' :: rest) := by
  cases written with
  | lone text start number =>
    have first := (takeDigits_iff (range ++ ' ' :: rest) (' ' :: rest) start).2
      ⟨range, number, rfl, notDigit_space rest⟩
    exact takeRange_lone _ _ start first (notComma_space rest)
  | counted text more start count number counts =>
    have first := (takeDigits_iff ((text ++ ',' :: more) ++ ' ' :: rest)
      (',' :: (more ++ ' ' :: rest)) start).2
      ⟨text, number, by rw [List.append_assoc, List.cons_append], notDigit_comma _⟩
    have second := (takeDigits_iff (more ++ ' ' :: rest) (' ' :: rest) count).2
      ⟨more, counts, rfl, notDigit_space rest⟩
    simp only [takeRange, first, second, Option.map_some]

def headingOf (after : Str) : Option Str :=
  if after = [] then some [] else stripPrefix [' '] after

theorem headingOf_iff (after heading : Str) :
    headingOf after = some heading ↔ HeadingText after heading := by
  unfold headingOf
  constructor
  · intro read
    split_ifs at read with empty
    · cases read
      rw [empty]
      exact .bare
    · have same := (stripPrefix_eq_some _ _ _).1 read
      rw [same]
      exact .spaced heading
  · intro written
    cases written with
    | bare => exact if_pos rfl
    | spaced => exact if_neg (List.cons_ne_nil _ _)

theorem parseHunkHeader_eq (line : Str) :
    parseHunkHeader line =
      (stripPrefix "@@ -".toList line).bind fun rest =>
        (takeRange rest).bind fun old =>
          (stripPrefix " +".toList old.2.2).bind fun rest =>
            (takeRange rest).bind fun new =>
              (stripPrefix " @@".toList new.2.2).bind fun after =>
                (headingOf after).map fun heading =>
                  ⟨old.1, old.2.1, new.1, new.2.1, shownHeading heading⟩ := by
  unfold parseHunkHeader
  simp only [Option.bind_eq_bind]
  congr 1
  funext rest
  congr 1
  funext old
  congr 1
  funext rest
  congr 1
  funext new
  congr 1
  funext after
  unfold headingOf
  split_ifs <;> simp only [Option.map_eq_bind, shownHeading, Function.comp_def]

theorem parseHunkHeader_sound (line : Str) (header : HunkHeader)
    (read : parseHunkHeader line = some header) : HunkLine line header := by
  rw [parseHunkHeader_eq] at read
  simp only [Option.bind_eq_some_iff, Option.map_eq_some_iff, stripPrefix_eq_some] at read
  obtain ⟨rest, begins, ⟨oldStart, oldCount, rest'⟩, old, middle, plus,
    ⟨newStart, newCount, rest''⟩, new, after, closes, heading, headed, made⟩ := read
  obtain ⟨oldText, oldRange, oldSame⟩ := takeRange_sound _ _ _ _ old
  obtain ⟨newText, newRange, newSame⟩ := takeRange_sound _ _ _ _ new
  have whole : line = "@@ -".toList ++ oldText ++ " +".toList ++ newText ++ " @@".toList ++ after := by
    simp only at plus closes
    rw [begins, oldSame, plus, newSame, closes]
    simp only [List.append_assoc]
  rw [whole, ← made]
  exact .line oldText newText after heading _ oldRange newRange ((headingOf_iff _ _).1 headed) rfl

theorem parseHunkHeader_complete (line : Str) (header : HunkHeader)
    (written : HunkLine line header) : parseHunkHeader line = some header := by
  obtain ⟨old, new, tail, heading, header, oldRange, newRange, headed, shown⟩ := written
  have first : takeRange (old ++ (" +".toList ++ (new ++ (" @@".toList ++ tail)))) =
      some (header.oldStart, header.oldCount, " +".toList ++ (new ++ (" @@".toList ++ tail))) :=
    takeRange_complete old ('+' :: (new ++ (" @@".toList ++ tail))) _ _ oldRange
  have second : takeRange (new ++ (" @@".toList ++ tail)) =
      some (header.newStart, header.newCount, " @@".toList ++ tail) :=
    takeRange_complete new ('@' :: '@' :: tail) _ _ newRange
  rw [parseHunkHeader_eq]
  simp only [List.append_assoc, stripPrefix_append, Option.bind_some, first, second,
    (headingOf_iff _ _).2 headed, Option.map_some, ← shown]

/-- The parser takes a `@@` line just when Git's grammar has it, and reads just its numbers and
its heading. -/
theorem parseHunkHeader_iff (line : Str) (header : HunkHeader) :
    parseHunkHeader line = some header ↔ HunkLine line header :=
  ⟨parseHunkHeader_sound line header, parseHunkHeader_complete line header⟩

end DeepDiffForge.Patch
