import DeepDiffForge.Core.Review
import DeepDiffForge.Lib.Script
import DeepDiffForge.Lib.Subsequence
import DeepDiffForge.Lib.Tiling

/-! The structural diff of two token streams: the common ends, an exact script or one anchored on
unchanged lines, moved blocks, and the coarse fallback. -/

namespace DeepDiffForge.Syntax
open Text DeepDiffForge.Core Script Subsequence Tiling

/-- Above this token-pair product the quadratic table is skipped. -/
def lcsCellBudget : Nat := 4000000

/-- The shortest run of tokens that counts as a moved block. -/
def minMoveRun : Nat := 3

/-- `usize::saturating_mul`. -/
def saturatingMul (one two : Nat) : Nat := min (one * two) (2 ^ 64 - 1)

inductive Language where
  | rust | unsupported
  deriving DecidableEq, Repr

structure Token where
  text : Str
  line : Nat
  deriving DecidableEq, Repr

inductive ChangeKind where
  | unchanged | added | removed | moved
  deriving DecidableEq, Repr

structure TokenChange where
  kind : ChangeKind
  text : Str
  oldLine : Option Nat
  newLine : Option Nat
  deriving DecidableEq, Repr

inductive StructuralState where
  | unavailable (reason : FallbackReason)
  | degraded
  | lineAnchored
  | minimal (reformatOnly : Bool)
  deriving DecidableEq, Repr

structure StructuralDiff where
  language : Language
  changes : List TokenChange
  unchanged : Nat
  added : Nat
  removed : Nat
  moved : Nat
  state : StructuralState
  deriving DecidableEq, Repr

def StructuralDiff.reformatOnly (diff : StructuralDiff) : Bool := diff.state = .minimal true

def texts (tokens : List Token) : List Str := tokens.map (·.text)

/-- The token at a position; a script names no position past the end. -/
def tokenAt (tokens : List Token) (k : Nat) : Token := tokens.getD k ⟨[], 0⟩

def matching (pair : Token × Token) : Bool := pair.1.text = pair.2.text

/-- Lengths of the longest common prefix and, of what remains, the longest common suffix. -/
def commonAffixes (old new : List Token) : Nat × Nat :=
  let pre := ((old.zip new).takeWhile matching).length
  (pre, (((old.drop pre).reverse.zip (new.drop pre).reverse).takeWhile matching).length)

/-- `table[i][j]` is the length of the longest common subsequence from `i` and `j` on. -/
def lcsTable {α : Type} [DecidableEq α] (old new : List α) : List (List Nat) := table old new

def equals (old new count : Nat) : List Op :=
  (List.range count).map fun k => .equal (old + k) (new + k)

def deletes (old count : Nat) : List Op := (List.range count).map fun k => .delete (old + k)

def inserts (new count : Nat) : List Op := (List.range count).map fun k => .insert (new + k)

/-- The walk through the table of the two middles, from `i` and `j` on. -/
def lcsWalk (table : List (List Nat)) (pre i j : Nat) : List Token → List Token → List Op
  | [], ys => inserts (pre + j) ys.length
  | x :: xs, [] => deletes (pre + i) (x :: xs).length
  | x :: xs, y :: ys =>
      if x.text = y.text then .equal (pre + i) (pre + j) :: lcsWalk table pre (i + 1) (j + 1) xs ys
      else if cell table i (j + 1) ≤ cell table (i + 1) j then
        .delete (pre + i) :: lcsWalk table pre (i + 1) j xs (y :: ys)
      else .insert (pre + j) :: lcsWalk table pre i (j + 1) (x :: xs) ys
  termination_by xs ys => xs.length + ys.length

def lcsOps (old new : List Token) : List Op :=
  let (pre, suffix) := commonAffixes old new
  let n := old.length - pre - suffix
  let m := new.length - pre - suffix
  let oldMid := slice old (pre, pre + n)
  let newMid := slice new (pre, pre + m)
  let table := lcsTable (texts oldMid) (texts newMid)
  equals 0 0 pre ++ lcsWalk table pre 0 0 oldMid newMid ++ equals (pre + n) (pre + m) suffix

def extendRuns (tokens : List Token) (runs : List (Nat × Nat)) (next : Token × Nat) :
    List (Nat × Nat) :=
  match runs.getLast? with
  | some run =>
      if (tokenAt tokens run.1).line = next.1.line then runs.dropLast ++ [(run.1, next.2 + 1)]
      else runs ++ [(next.2, next.2 + 1)]
  | none => runs ++ [(next.2, next.2 + 1)]

def lineRuns (tokens : List Token) : List (Nat × Nat) :=
  tokens.zipIdx.foldl (extendRuns tokens) []

def internLine (ids : List (List Str × Nat)) (key : List Str) : List (List Str × Nat) × Nat :=
  match ids.find? (·.1 = key) with
  | some entry => (ids, entry.2)
  | none => (ids ++ [(key, ids.length)], ids.length)

def internLines (side : List Token) (ids : List (List Str × Nat)) :
    List (Nat × Nat) → List (List Str × Nat) × List Nat
  | [] => (ids, [])
  | run :: runs =>
      let (ids, id) := internLine ids (texts (slice side run))
      let (ids, rest) := internLines side ids runs
      (ids, id :: rest)

def gapOps (old new : List Token) (start stop : Nat × Nat) (spent : Nat) (ops : List Op) :
    Option (Nat × List Op) :=
  let spent := saturatingAdd64 spent (saturatingMul (stop.1 - start.1) (stop.2 - start.2))
  if lcsCellBudget < spent then none
  else
    some (spent, ops ++ (lcsOps (slice old (start.1, stop.1)) (slice new (start.2, stop.2))).map
      (Op.shift start.1 start.2))

/-- A line by its id, with the range of its tokens in the middle. -/
abbrev Line := Nat × Nat × Nat

/-- Positions up to which operations are emitted, cells spent, and the operations. -/
structure Anchoring where
  place : Nat × Nat
  spent : Nat
  ops : List Op

/-- The walk through the table of lines, from `i` and `j` on. -/
def anchorWalk (old new : List Token) (table : List (List Nat)) (pre i j : Nat) :
    List Line → List Line → Anchoring → Option Anchoring
  | x :: xs, y :: ys, anchoring =>
      if x.1 = y.1 then do
        let (oldLine, newLine) := (pre + x.2.1, pre + y.2.1)
        let (spent, ops) ← gapOps old new anchoring.place (oldLine, newLine) anchoring.spent
          anchoring.ops
        let len := x.2.2 - x.2.1
        anchorWalk old new table pre (i + 1) (j + 1) xs ys
          ⟨(oldLine + len, newLine + len), spent, ops ++ equals oldLine newLine len⟩
      else if cell table i (j + 1) ≤ cell table (i + 1) j then
        anchorWalk old new table pre (i + 1) j xs (y :: ys) anchoring
      else anchorWalk old new table pre i (j + 1) (x :: xs) ys anchoring
  | [], _, anchoring => some anchoring
  | _ :: _, [], anchoring => some anchoring
  termination_by xs ys => xs.length + ys.length

/-- Two-level diff: whole unchanged lines as anchors, then a token diff of each gap. -/
def lineAnchoredOps (old new : List Token) : Option (List Op) :=
  let (pre, suffix) := commonAffixes old new
  let (oldEnd, newEnd) := (old.length - suffix, new.length - suffix)
  let (oldMid, newMid) := (slice old (pre, oldEnd), slice new (pre, newEnd))
  let (oldLines, newLines) := (lineRuns oldMid, lineRuns newMid)
  if lcsCellBudget < saturatingMul oldLines.length newLines.length then none
  else do
    let (ids, oldIds) := internLines oldMid [] oldLines
    let (_, newIds) := internLines newMid ids newLines
    let anchoring ← anchorWalk old new (lcsTable oldIds newIds) pre 0 0 (oldIds.zip oldLines)
      (newIds.zip newLines) ⟨(pre, pre), 0, equals 0 0 pre⟩
    let (_, ops) ← gapOps old new anchoring.place (oldEnd, newEnd) anchoring.spent anchoring.ops
    return ops ++ equals oldEnd newEnd suffix

def isDelete : Op → Bool
  | .delete _ => true
  | _ => false

def isInsert : Op → Bool
  | .insert _ => true
  | _ => false

/-- Contiguous runs of deletions and of insertions, as ranges of operations from `k` on. -/
def opRuns (k : Nat) : List Op → List (Nat × Nat) × List (Nat × Nat)
  | [] => ([], [])
  | op :: rest =>
      if isDelete op then
        let len := (rest.takeWhile isDelete).length + 1
        let (deleted, inserted) := opRuns (k + len) (rest.drop (len - 1))
        ((k, k + len) :: deleted, inserted)
      else if isInsert op then
        let len := (rest.takeWhile isInsert).length + 1
        let (deleted, inserted) := opRuns (k + len) (rest.drop (len - 1))
        (deleted, (k, k + len) :: inserted)
      else opRuns (k + 1) rest
  termination_by ops => ops.length
  decreasing_by all_goals simp only [List.length_drop, List.length_cons]; omega

def runText (ops : List Op) (old new : List Token) (run : Nat × Nat) : List Str :=
  (slice ops run).filterMap fun
    | .delete i => some (tokenAt old i).text
    | .insert j => some (tokenAt new j).text
    | .equal _ _ => none

abbrev Queues := List (List Str × List (Nat × Nat))

def pushBack (queues : Queues) (text : List Str) (run : Nat × Nat) : Queues :=
  if queues.any (·.1 = text) then
    queues.map fun queue => if queue.1 = text then (queue.1, queue.2 ++ [run]) else queue
  else queues ++ [(text, [run])]

def popFront (queues : Queues) (text : List Str) : Option ((Nat × Nat) × Queues) :=
  match queues.find? (·.1 = text) with
  | some (_, run :: _) =>
      some (run, queues.map fun queue => if queue.1 = text then (queue.1, queue.2.tail) else queue)
  | _ => none

def movedOps (ops : List Op) (old new : List Token) : List Nat :=
  let (deleteRuns, insertRuns) := opRuns 0 ops
  let unused := insertRuns.foldl (fun queues run =>
    let text := runText ops old new run
    if minMoveRun ≤ text.length then pushBack queues text run else queues) []
  (deleteRuns.foldl (fun state run =>
    match popFront state.1 (runText ops old new run) with
    | some (inserted, queues) =>
        (queues, state.2 ++ List.range' run.1 (run.2 - run.1) ++
          List.range' inserted.1 (inserted.2 - inserted.1))
    | none => state) (unused, [])).2

def change (old new : List Token) (isMoved : Bool) : Op → TokenChange
  | .equal i j =>
      { kind := .unchanged, text := (tokenAt old i).text, oldLine := some (tokenAt old i).line,
        newLine := some (tokenAt new j).line }
  | .delete i =>
      { kind := if isMoved then .moved else .removed, text := (tokenAt old i).text,
        oldLine := some (tokenAt old i).line, newLine := none }
  | .insert j =>
      { kind := if isMoved then .moved else .added, text := (tokenAt new j).text, oldLine := none,
        newLine := some (tokenAt new j).line }

def markMoves (ops : List Op) (old new : List Token) : List TokenChange :=
  let moved := movedOps ops old new
  ops.zipIdx.map fun step => change old new (step.2 ∈ moved) step.1

def coarseDiff (language : Language) (old new : List Token) : StructuralDiff where
  language := language
  changes :=
    (old.map fun t =>
      { kind := .removed, text := t.text, oldLine := some t.line, newLine := none }) ++
    new.map fun t => { kind := .added, text := t.text, oldLine := none, newLine := some t.line }
  unchanged := 0
  added := new.length
  removed := old.length
  moved := 0
  state := .degraded

def scriptDiff (language : Language) (old new : List Token) (ops : List Op) (minimal : Bool) :
    StructuralDiff :=
  let changes := markMoves ops old new
  let count (kind : ChangeKind) : Nat := changes.countP (·.kind = kind)
  let reformatOnly := count .added = 0 && count .removed = 0 && count .moved = 0
  { language
    changes := if reformatOnly then [] else changes
    unchanged := count .unchanged
    added := count .added
    removed := count .removed
    moved := count .moved
    state :=
      if reformatOnly then .minimal true else if minimal then .minimal false else .lineAnchored }

def diffTokens (language : Language) (old new : List Token) : StructuralDiff :=
  let (pre, suffix) := commonAffixes old new
  let middle := saturatingMul (old.length - pre - suffix) (new.length - pre - suffix)
  if middle ≤ lcsCellBudget then scriptDiff language old new (lcsOps old new) true
  else
    match lineAnchoredOps old new with
    | some ops => scriptDiff language old new ops false
    | none => coarseDiff language old new

end DeepDiffForge.Syntax
