import DeepDiffForge.Core.Display
import DeepDiffForge.Lib.Slices

/-! What a projected row's text cannot show, as note rows, the cells a layout prints, and the width
of its number fields. -/

namespace DeepDiffForge.Projection
open Text Slices DeepDiffForge.Core

/-- How a terminal shows text: its graphemes, and how many cells a text and a character take. -/
structure Terminal where
  graphemes : Str → List Str
  cellWidth : Str → Nat
  charWidth : Char → Option Nat

def lossyNote : Str := "\\ non-UTF-8 line, shown lossily".toList

def noNewlineNote : Str := "\\ No newline at end of file".toList

def rendersAlikeNote : Str := "\\ differs from its pair only in bytes shown alike".toList

def lineNotes (lossy noNewline : Bool) : List Str :=
  (if lossy then [lossyNote] else []) ++ (if noNewline then [noNewlineNote] else [])

def tabStop : Nat := 8

def isSpaceSeparator (c : Char) : Bool :=
  c = ' ' || c.toNat = 0xA0 || c.toNat = 0x1680 || inRange 0x2000 0x200A c || c.toNat = 0x202F ||
    c.toNat = 0x205F || c.toNat = 0x3000

def spaces (count : Nat) : Str := List.replicate count ' '

def seen (terminal : Terminal) (cells : Str) : Str :=
  trimEnd ' ' (cells.flatMap fun c =>
    if isSpaceSeparator c then spaces ((terminal.charWidth c).getD 1) else [c])

/-- Whether two lines with different bytes look the same once each is turned into cells. -/
def rendersAlike {m : Type → Type} [Monad m] (terminal : Terminal) (old new : Str)
    (cells : Str → m Str) : m Bool :=
  if old = new then pure false
  else do
    let one ← cells old
    let two ← cells new
    pure (seen terminal one = seen terminal two)

def inlineCells (terminal : Terminal) : Nat → List Str → Str
  | _, [] => []
  | column, grapheme :: rest =>
      if grapheme = ['\t'] then
        let advance := tabStop - column % tabStop
        spaces advance ++ inlineCells terminal (column + advance) rest
      else grapheme ++ inlineCells terminal (column + terminal.cellWidth grapheme) rest

def inlineShown (terminal : Terminal) (text : Str) (column : Nat) : Str :=
  inlineCells terminal column (terminal.graphemes (displaySafe text))

def expandTabs (text : Str) : Str := text.flatMap fun c => if c = '\t' then spaces 4 else [c]

def clipFrom (terminal : Terminal) (width : Nat) : Nat → List Str → Str
  | _, [] => []
  | used, grapheme :: rest =>
      if width < used + terminal.cellWidth grapheme then []
      else grapheme ++ clipFrom terminal width (used + terminal.cellWidth grapheme) rest

/-- The longest start of a safe text that fits in `width` cells, without splitting a grapheme. -/
def clipCells (terminal : Terminal) (text : Str) (width : Nat) : Str :=
  clipFrom terminal width 0 (terminal.graphemes (expandTabs text))

/-- A safe text fitted to `width` cells. -/
def fitCells (terminal : Terminal) (text : Str) (width : Nat) : Except Fault Str := do
  let out := clipCells terminal text width
  let padding ← lessBy width (terminal.cellWidth out)
  pure (out ++ spaces padding)

def sideShown (terminal : Terminal) (text : Str) (width : Nat) : Except Fault Str :=
  fitCells terminal (displaySafe text) width

def gutterWidth (file : ReviewFile) : Nat :=
  let numbers := (file.patchTwin.hunks.flatMap (·.lines)).flatMap fun line =>
    line.oldLine.toList ++ line.newLine.toList
  (numbers.max?).elim 4 fun largest => max (decimal largest).length 4

def rightAligned (text : Str) (width : Nat) : Str := spaces (width - text.length) ++ text

theorem length_rightAligned (text : Str) (width : Nat) (fits : text.length ≤ width) :
    (rightAligned text width).length = width := by
  rw [rightAligned, List.length_append, spaces, List.length_replicate]
  omega

theorem length_decimal_mono (less more : Nat) (within : less ≤ more) :
    (decimal less).length ≤ (decimal more).length := by
  have filled := List.length_pos_iff.2 (decimal_ne_nil more)
  have large := (Nat.length_toDigits_le_iff (n := more) (by decide : 1 < 10) filled).1 (le_refl _)
  exact (Nat.length_toDigits_le_iff (by decide) filled).2 (within.trans_lt large)

theorem length_le_gutterWidth (file : ReviewFile) (hunk : PatchHunk) (line : PatchLine)
    (listed : hunk ∈ file.patchTwin.hunks) (held : line ∈ hunk.lines) (n : Nat)
    (number : line.oldLine = some n ∨ line.newLine = some n) :
    (decimal n).length ≤ gutterWidth file := by
  have among : n ∈ (file.patchTwin.hunks.flatMap (·.lines)).flatMap fun line =>
      line.oldLine.toList ++ line.newLine.toList := by
    refine List.mem_flatMap.2 ⟨line, List.mem_flatMap.2 ⟨hunk, listed, held⟩, ?_⟩
    rcases number with number | number
    · simp [number]
    · simp [number]
  rw [gutterWidth]
  cases largest : ((file.patchTwin.hunks.flatMap (·.lines)).flatMap fun line =>
      line.oldLine.toList ++ line.newLine.toList).max? with
  | none =>
    rw [List.max?_eq_none_iff] at largest
    rw [largest] at among
    cases among
  | some top =>
    have most := (List.max?_eq_some_iff.1 largest).2 n among
    exact (length_decimal_mono n top most).trans (le_max_left ..)

theorem four_le_gutterWidth (file : ReviewFile) : 4 ≤ gutterWidth file := by
  rw [gutterWidth]
  cases ((file.patchTwin.hunks.flatMap (·.lines)).flatMap fun line =>
      line.oldLine.toList ++ line.newLine.toList).max? with
  | none => exact le_refl 4
  | some top => exact le_max_right ..

end DeepDiffForge.Projection
