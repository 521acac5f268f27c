import DeepDiffForge.Core.Review

/-! Objective hazards in patch text and in the paths a patch names. -/

namespace DeepDiffForge.Core
open Text

/-- Whether `low ≤ c ≤ high`. -/
def inRange (low high : Nat) (c : Char) : Bool := low ≤ c.toNat && c.toNat ≤ high

def isControl (c : Char) : Bool := c.toNat < 0x20 || inRange 0x7F 0x9F c

def isTerminalUnsafe (c : Char) : Bool := isControl c && c ≠ '\t'

def isBidi (c : Char) : Bool :=
  inRange 0x202A 0x202E c || inRange 0x2066 0x2069 c || inRange 0x200E 0x200F c ||
  c.toNat = 0x061C

def isInvisible (c : Char) : Bool :=
  inRange 0x200B 0x200D c || c.toNat = 0xFEFF || inRange 0x2060 0x2065 c ||
  inRange 0x206A 0x206F c || c.toNat = 0x00AD || c.toNat = 0x034F || inRange 0x17B4 0x17B5 c ||
  inRange 0x180B 0x180F c || inRange 0x115F 0x1160 c || c.toNat = 0x3164 || c.toNat = 0xFFA0 ||
  inRange 0xFE00 0xFE0F c || inRange 0xFFF0 0xFFF8 c || inRange 0xFFF9 0xFFFB c ||
  inRange 0x1BCA0 0x1BCA3 c || inRange 0x1D173 0x1D17A c || inRange 0xE0000 0xE0FFF c

def isLineSeparator (c : Char) : Bool := inRange 0x2028 0x2029 c

def charHazards (text : Str) : List Str :=
  (if text.any isBidi then ["bidi_control".toList] else []) ++
  (if text.any isInvisible then ["invisible".toList] else []) ++
  (if text.any (fun c => isTerminalUnsafe c || isLineSeparator c) then ["control".toList] else [])

/-- Hazards of a line; the carriage return of a CRLF line is none. -/
def textHazards (text : Str) : List Str :=
  charHazards (if text.getLast? = some '\r' then text.dropLast else text)

def asciiLower (c : Char) : Char :=
  if inRange 65 90 c then Char.ofNat (c.toNat + 32) else c

def pathHazards (path : Str) : List Str :=
  let components := path.splitOn '/'
  charHazards path ++
  (if startsWith ['/'] path || components.any (· = "..".toList) then ["path_traversal".toList]
    else []) ++
  (if components.any (fun c => c.map asciiLower = ".git".toList) then ["git_internal".toList]
    else [])

example : pathHazards "a/../.GIT/x".toList = ["path_traversal".toList, "git_internal".toList] := by
  decide +kernel

def FileStatus.label : FileStatus → Str
  | .added => "added".toList
  | .modified => "modified".toList
  | .deleted => "deleted".toList
  | .renamed => "renamed".toList
  | .copied => "copied".toList
  | .typeChanged => "type_changed".toList
  | .modeChanged => "mode_changed".toList
  | .binaryChanged => "binary_changed".toList
  | .unknown => "unknown".toList

theorem label_injective (one two : FileStatus) (same : one.label = two.label) : one = two := by
  cases one <;> cases two <;> first | rfl | exact absurd same (by decide)

def hazardNames : List Str :=
  ["bidi_control".toList, "invisible".toList, "control".toList, "path_traversal".toList,
    "git_internal".toList]

theorem named_when (shown : Bool) (name : Str) :
    (if shown then [name] else []).Sublist [name] := by
  cases shown with
  | false => exact List.nil_sublist _
  | true => exact List.Sublist.refl _

theorem pathHazards_sublist (path : Str) : (pathHazards path).Sublist hazardNames := by
  unfold pathHazards charHazards
  exact ((((named_when _ _).append (named_when _ _)).append (named_when _ _)).append
    (named_when _ _)).append (named_when _ _)

theorem pathHazards_once (path : Str) : (pathHazards path).Nodup := by
  have names : hazardNames.Nodup := by decide
  exact names.sublist (pathHazards_sublist path)

end DeepDiffForge.Core
