import DeepDiffForge.Core.Review
import DeepDiffForge.Lib.Decimal
import DeepDiffForge.Lib.Markers
import DeepDiffForge.Lib.Regions
import DeepDiffForge.Lib.Subsequence
import DeepDiffForge.Lib.Utf8

/-! The zero-context diff a diff-scoped mutation gate reads: which lines of a file changed, widened
to code where the change holds none. -/

namespace DeepDiffForge.Review.MutationScope
open Text Markers Regions Subsequence Tiling
open DeepDiffForge.Core (usizeMax)

abbrev Line := List UInt8

def ascii (c : Char) : UInt8 := c.toNat.toUInt8

def lineCellBudget : Nat := 16 * 2 ^ 20

def totalCellBudget : Nat := 64 * 2 ^ 20

def lineCap : Nat := 2 ^ 20

def lines (bytes : List UInt8) : Except Str (List Line) :=
  if ((pieces 0x0A bytes).take lineCap).length < lineCap then .ok (pieces 0x0A bytes)
  else .error "a changed file has too many lines for the mutation scope".toList

def intern (seen : List Line) : List Line → List Nat × List Line
  | [] => ([], seen)
  | line :: rest =>
      let seen' := if line ∈ seen then seen else seen ++ [line]
      let later := intern seen' rest
      (seen'.idxOf line :: later.1, later.2)

/-- The next place of `new` where `old[i]` is matched, or where skipping it loses nothing. -/
def nextNew (table : List (List Nat)) (new : List Nat) (x i j : Nat) : Nat :=
  ((List.range' j (new.length - j)).find? fun next =>
    new[next]? = some x || cell table (i + 1) next = cell table i next).getD new.length

/-- The pairs from `i` and `j` on, read off the table. -/
def pairsFrom (table : List (List Nat)) (new : List Nat) : List Nat → Nat → Nat → List (Nat × Nat)
  | [], _, _ => []
  | x :: old, i, j =>
      let next := nextNew table new x i j
      if next < new.length ∧ new[next]? = some x then
        (i, next) :: pairsFrom table new old (i + 1) (next + 1)
      else pairsFrom table new old (i + 1) next

/-- Index pairs of one longest common subsequence, ascending. -/
def lcsPairs (old new : List Nat) : List (Nat × Nat) := pairsFrom (table old new) new old 0 0

/-- Lengths of the longest common prefix and, of what remains, the longest common suffix. -/
def affixes (old new : List Nat) : Nat × Nat :=
  let front := ((old.zip new).takeWhile fun pair => pair.1 = pair.2).length
  (front, (((old.drop front).reverse.zip (new.drop front).reverse).takeWhile fun pair =>
    pair.1 = pair.2).length)

/-- The regions between anchors, from `i` and `j` on. -/
def between (front : Nat) : Nat → Nat → List (Nat × Nat) → List Region
  | _, _, [] => []
  | i, j, anchor :: anchors =>
      if i < anchor.1 ∨ j < anchor.2 then
        ⟨(front + i, front + anchor.1), (front + j, front + anchor.2)⟩ ::
          between front (anchor.1 + 1) (anchor.2 + 1) anchors
      else between front (anchor.1 + 1) (anchor.2 + 1) anchors

def cells (old new : List Nat) : Nat :=
  let (front, back) := affixes old new
  min ((old.length - back - front) * (new.length - back - front)) usizeMax

def withinBudget (old new : List Nat) (spent : Nat) : Bool :=
  cells old new ≤ lineCellBudget && min (spent + cells old new) usizeMax ≤ totalCellBudget

def anchors (old new : List Nat) (spent : Nat) : List (Nat × Nat) :=
  let (front, back) := affixes old new
  if withinBudget old new spent then
    lcsPairs (slice old (front, old.length - back)) (slice new (front, new.length - back))
  else []

def regions (old new : List Nat) (spent : Nat) : List Region × Nat :=
  let (front, back) := affixes old new
  let last := (old.length - back - front, new.length - back - front)
  (between front 0 0 (anchors old new spent ++ [last]),
    if withinBudget old new spent then spent + cells old new else spent)

/-- How deep in comments and attribute brackets a line starts, and in which string: `some none` is
plain, `some (some n)` raw and closed by a quote and `n` number signs. -/
structure Lexed where
  comment : Nat
  bracket : Nat
  string : Option (Option Nat)
  deriving DecidableEq, Repr

def charLiteral (rest : List UInt8) : Option Nat :=
  if rest.head? ≠ some (ascii '\'') then none
  else if rest[1]? = some (ascii '\\') then
    (((rest.zipIdx.drop 3).take 10).find? fun entry => entry.1 = ascii '\'').map (·.2 + 1)
  else
    match rest[1]? with
    | none => none
    | some lead =>
        let width := if lead < 0x80 then 1 else if 0xF0 ≤ lead then 4 else if 0xE0 ≤ lead then 3 else 2
        if rest[1 + width]? = some (ascii '\'') then some (width + 2) else none

def asciiWhitespace (byte : UInt8) : Bool :=
  byte = 0x20 || byte = 0x09 || byte = 0x0A || byte = 0x0C || byte = 0x0D

/-- One line read on from where the last left off: whether it holds code. -/
def codeLine (lexed : Lexed) (skip : Nat) (code : Bool) : List UInt8 → Bool × Lexed
  | [] => (code, lexed)
  | byte :: rest =>
      if 0 < skip then codeLine lexed (skip - 1) code rest
      else
        let starts (one two : Char) := byte = ascii one && rest.head? = some (ascii two)
        let hashes := (rest.takeWhile (· = ascii '#')).length
        match lexed.string with
        | some none =>
            if byte = ascii '\\' then codeLine lexed 1 code rest
            else if byte = ascii '"' then codeLine { lexed with string := none } 0 code rest
            else codeLine lexed 0 code rest
        | some (some n) =>
            if byte = ascii '"' ∧ n ≤ hashes then codeLine { lexed with string := none } n code rest
            else codeLine lexed 0 code rest
        | none =>
            if 0 < lexed.comment then
              if starts '/' '*' then
                codeLine { lexed with comment := lexed.comment + 1 } 1 code rest
              else if starts '*' '/' then
                codeLine { lexed with comment := lexed.comment - 1 } 1 code rest
              else codeLine lexed 0 code rest
            else if starts '/' '/' then (code, lexed)
            else if starts '/' '*' then codeLine { lexed with comment := 1 } 1 code rest
            else
              let outside := code || lexed.bracket = 0
              match charLiteral (byte :: rest) with
              | some length => codeLine lexed (length - 1) outside rest
              | none =>
                  if byte = ascii '"' then
                    codeLine { lexed with string := some none } 0 outside rest
                  else if byte = ascii 'r' ∧ rest[hashes]? = some (ascii '"') then
                    codeLine { lexed with string := some (some hashes) } (hashes + 1) outside rest
                  else if 0 < lexed.bracket then
                    if byte = ascii '[' then
                      codeLine { lexed with bracket := lexed.bracket + 1 } 0 code rest
                    else if byte = ascii ']' then
                      codeLine { lexed with bracket := lexed.bracket - 1 } 0 code rest
                    else codeLine lexed 0 code rest
                  else if starts '#' '[' then codeLine { lexed with bracket := 1 } 1 code rest
                  else codeLine lexed 0 (code || !asciiWhitespace byte) rest

def codeLines (lexed : Lexed) : List Line → List Bool
  | [] => []
  | line :: rest =>
      let read := codeLine lexed 0 false line
      read.1 :: codeLines read.2 rest

def isCode (new : List Line) (line : Nat) : Bool := (codeLines ⟨0, 0, none⟩ new).getD line false

def within (range : Nat × Nat) : List Nat := List.range' range.1 (range.2 - range.1)

def widen (code : Nat → Bool) (newLength floor ceiling : Nat) (region : Region) : Region :=
  if (within region.new).all (fun line => !code line) && newLength ≠ 0 then
    let before := ((within (floor, region.new.1)).reverse.find? code).getD floor
    let after := (((within (region.new.2, ceiling)).find? code).map (· + 1)).getD ceiling
    ⟨(region.old.1 - (region.new.1 - before), region.old.2 + (after - region.new.2)), (before, after)⟩
  else region

/-- Every region widened, `floor` being where the region before ends. -/
def widenAll (code : Nat → Bool) (newLength : Nat) : Nat → List Region → List Region
  | _, [] => []
  | floor, region :: rest =>
      let ceiling := match rest with
        | [] => newLength
        | next :: _ => next.new.1
      widen code newLength floor ceiling region :: widenAll code newLength region.new.2 rest

/-- Whether a region merges with the last: it overlaps it, or touches it and is empty on a side. -/
def merges (last region : Region) : Bool :=
  region.old.1 < last.old.2 ||
    (last.old.2 = region.old.1 && (region.old.2 ≤ region.old.1 || region.new.2 ≤ region.new.1))

/-- The regions after `last`, each merged with the last or pushed after it. -/
def mergeFrom (last : Region) : List Region → List Region
  | [] => [last]
  | region :: rest =>
      if merges last region then
        mergeFrom ⟨(last.old.1, max last.old.2 region.old.2),
          (last.new.1, max last.new.2 region.new.2)⟩ rest
      else last :: mergeFrom region rest

def widenDeletions (found : List Region) (new : List Line) : List Region :=
  match widenAll (isCode new) new.length 0 found with
  | [] => []
  | region :: rest => mergeFrom region rest

structure WrittenHunk where
  oldStart : Nat
  oldCount : Nat
  newStart : Nat
  newCount : Nat
  removed : List Line
  added : List Line
  deriving DecidableEq, Repr

/-- An empty side names the line it follows; a non-empty side names its first line. -/
def startOf (before : Nat) (lines : List Line) : Nat := before + if lines = [] then 0 else 1

def hunk (old new : Nat × List Line) : WrittenHunk where
  oldStart := startOf old.1 old.2
  oldCount := old.2.length
  newStart := startOf new.1 new.2
  newCount := new.2.length
  removed := old.2
  added := new.2

def bytesOf (text : String) : List UInt8 := Utf8.encode text.toList

def bodyLine (sign : Char) (line : Line) : List UInt8 :=
  ascii sign :: line ++
    if line.getLast? = some 0x0A then [] else bytesOf "\n\\ No newline at end of file\n"

def WrittenHunk.text (hunk : WrittenHunk) : List UInt8 :=
  bytesOf "@@ -" ++ Utf8.encode (decimal hunk.oldStart) ++ bytesOf "," ++
    Utf8.encode (decimal hunk.oldCount) ++ bytesOf " +" ++ Utf8.encode (decimal hunk.newStart) ++
    bytesOf "," ++ Utf8.encode (decimal hunk.newCount) ++ bytesOf " @@\n" ++
    hunk.removed.flatMap (bodyLine '-') ++ hunk.added.flatMap (bodyLine '+')

def idsOf (old new : List Line) : List Nat × List Nat :=
  let first := intern [] old
  (first.1, (intern first.2 new).1)

def hunks (old new : List Line) (spent : Nat) : List WrittenHunk × Nat :=
  let found := regions (idsOf old new).1 (idsOf old new).2 spent
  ((widenDeletions found.1 new).map fun region =>
    hunk (region.old.1, slice old region.old) (region.new.1, slice new region.new), found.2)

def unified (path : Str) (old new : List UInt8) (spent : Nat) :
    Except Str (List UInt8 × Nat) := do
  let old ← lines old
  let new ← lines new
  let written := hunks old new spent
  return (bytesOf "--- a/" ++ Utf8.encode path ++ bytesOf "\n+++ b/" ++ Utf8.encode path ++
    bytesOf "\n" ++ written.1.flatMap WrittenHunk.text, written.2)

end DeepDiffForge.Review.MutationScope
