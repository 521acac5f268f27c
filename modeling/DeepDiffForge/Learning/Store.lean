import DeepDiffForge.Learning.Receipt
import DeepDiffForge.Lib.Fallible
import DeepDiffForge.Lib.Json
import DeepDiffForge.Lib.Lossy
import DeepDiffForge.Lib.Reads
import DeepDiffForge.Lib.Utf8
import Mathlib.Algebra.GroupWithZero.Nat
import Mathlib.Data.List.ReduceOption

/-! The local store of receipts: one JSON line each, appended, loaded and counted. -/

namespace DeepDiffForge.Learning
open Text Reads Markers Fallible

def maxReceiptsBytes : Nat := 64 * 1024 * 1024

def maxReceiptLineBytes : Nat := 1024 * 1024

def maxReceipts : Nat := 100000

/-- The reading of JSON: a receipt from a line, and the keys of an object. -/
structure Serde where
  receipt : Str → Except Str StrategyReceipt
  keys : Str → Except Str (List Str)

namespace StrategyReceipt

def members (receipt : StrategyReceipt) : List (Str × Str) :=
  [("file_hash".toList, Json.string receipt.fileHash.text),
    ("language".toList, Json.string receipt.language),
    ("parser_version".toList, Json.string receipt.parserVersion),
    ("strategy".toList, Json.string receipt.strategy.label),
    ("fallback".toList, Json.optional (fun reason => Json.string reason.label) receipt.fallback),
    ("elapsed_ms".toList, Json.number receipt.elapsedMs),
    ("bytes".toList, Json.number receipt.bytes),
    ("nodes".toList, Json.number receipt.nodes),
    ("cache".toList, Json.string receipt.cache.label),
    ("outcome".toList, Json.string receipt.outcome.label),
    ("revisited".toList, Json.bool receipt.revisited)]

def toJson (receipt : StrategyReceipt) : Str := Json.object receipt.members

def fromStoredJson (serde : Serde) (line : Str) : Except Str StrategyReceipt := do
  let receipt ← serde.receipt line
  let stored ← serde.keys line
  if stored.any (· ∉ receipt.members.map (·.1)) then
    .error "invalid receipt: a stored receipt holds a key that is not a receipt field".toList
  else .ok receipt

end StrategyReceipt

def tokenChar (c : Char) : Bool :=
  c.isAlphanum || c = '.' || c = '_' || c = '-' || c = '+' || c = '@'

def tokenValid (value : Str) (maximum : Nat) : Bool :=
  !value.isEmpty && byteLength value ≤ maximum && value.all tokenChar

def validateReceiptForStorage (receipt : StrategyReceipt) : Except Str Unit :=
  if !tokenValid receipt.language 64 then
    .error "invalid receipt: language must be a bounded identifier token".toList
  else if !tokenValid receipt.parserVersion 128 then
    .error "invalid receipt: parser_version must be a bounded identifier token".toList
  else if receipt.outcome = .revisited ∧ !receipt.revisited then
    .error "invalid receipt: outcome revisited contradicts revisited = false".toList
  else .ok ()

def openReceipts (store : List UInt8) : Except Str Unit :=
  if maxReceiptsBytes < store.length then
    .error "receipt store exceeds the on-disk size budget".toList
  else .ok ()

/-- One more receipt at the end of a store, which is left as it was where that is refused; a last
line without its end is ended first. A missing store has no bytes. -/
def appendReceipt (store : List UInt8) (receipt : StrategyReceipt) : Except Str Unit × List UInt8 :=
  let checked : Except Str (List UInt8) := do
    validateReceiptForStorage receipt
    let line := Utf8.encode receipt.toJson ++ [10]
    if maxReceiptLineBytes < line.length then
      throw "serialized receipt exceeds the per-record budget".toList
    openReceipts store
    let line := if store.getLast?.any (· ≠ 10) then 10 :: line else line
    if maxReceiptsBytes < store.length + line.length then
      throw "receipt store exceeds the on-disk size budget".toList
    return line
  match checked with
  | .error error => (.error error, store)
  | .ok line => (.ok (), store ++ line)

/-- The next line with its end, cut after one byte more than a record may have. -/
def readCappedLine (bytes : List UInt8) : Except Str (List UInt8) :=
  let line := upTo 10 (bytes.take (maxReceiptLineBytes + 1))
  if maxReceiptLineBytes < line.length then
    .error "receipt record exceeds the per-record budget".toList
  else .ok line

/-- A loop over the lines of a store, each read before it is used; a line is never empty, so the
rest is shorter. -/
def forLines {σ : Type} (step : σ → List UInt8 → Except Str σ) (bytes : List UInt8) (state : σ) :
    Except Str σ :=
  match readCappedLine bytes with
  | .error error => .error error
  | .ok line =>
      if line = [] then .ok state
      else if _ : bytes.length - line.length < bytes.length then do
        let state ← step state line
        forLines step (bytes.drop line.length) state
      else .ok state
termination_by bytes.length
decreasing_by rw [List.length_drop]; assumption

/-- The receipts loaded so far, the bytes read, and the number of the last line. -/
structure Loading where
  receipts : List StrategyReceipt
  totalRead : Nat
  number : Nat

def readWithin (totalRead : Nat) (line : List UInt8) : Except Str Nat :=
  if maxReceiptsBytes < totalRead + line.length then
    .error "receipt store grew beyond the on-disk size budget while reading".toList
  else .ok (totalRead + line.length)

def trimmedLine (line : List UInt8) : Except Str Str :=
  match Utf8.decode line with
  | none => .error "receipt store contains invalid UTF-8".toList
  | some text => .ok (trim text)

def storedReceipt (serde : Serde) (trimmed : Str) : Except Str StrategyReceipt := do
  let receipt ← StrategyReceipt.fromStoredJson serde trimmed
  validateReceiptForStorage receipt
  return receipt

def loadLine (serde : Serde) (state : Loading) (line : List UInt8) : Except Str Loading := do
  let number := state.number + 1
  let totalRead ← readWithin state.totalRead line
  let trimmed ← trimmedLine line
  if trimmed = [] then return { state with totalRead, number }
  else if maxReceipts ≤ state.receipts.length then
    throw "receipt store exceeds the record-count budget".toList
  else
    match storedReceipt serde trimmed with
    | .error error => throw ("receipt store line ".toList ++ decimal number ++ ": ".toList ++ error)
    | .ok receipt => return { receipts := state.receipts ++ [receipt], totalRead, number }

def loadReceipts (serde : Serde) (store : List UInt8) : Except Str (List StrategyReceipt) := do
  openReceipts store
  let loaded ← forLines (loadLine serde) store ⟨[], 0, 0⟩
  return loaded.receipts

def countLine (state : Nat × Nat) (line : List UInt8) : Except Str (Nat × Nat) := do
  let totalRead ← readWithin state.2 line
  let trimmed ← trimmedLine line
  if trimmed = [] then return (state.1, totalRead)
  else if maxReceipts < state.1 + 1 then
    throw "receipt store exceeds the record-count budget".toList
  else return (state.1 + 1, totalRead)

/-- How many receipts a store has, without reading them. -/
def countReceipts (store : List UInt8) : Except Str Nat := do
  openReceipts store
  let counted ← forLines countLine store (0, 0)
  return counted.1

theorem readCappedLine_eq (bytes : List UInt8) :
    readCappedLine bytes = if maxReceiptLineBytes < (upTo 10 bytes).length then
      .error "receipt record exceeds the per-record budget".toList else .ok (upTo 10 bytes) := by
  rw [readCappedLine, upTo_take]
  by_cases long : maxReceiptLineBytes < (upTo 10 bytes).length
  · rw [if_pos long, if_pos (by rw [List.length_take]; omega)]
  · rw [if_neg long, List.take_of_length_le (by omega), if_neg long]

/-- The loop takes the lines one after another, and stops at the first that is too long. -/
theorem forLines_eq {σ : Type} (step : σ → List UInt8 → Except Str σ) (bytes : List UInt8)
    (state : σ) :
    forLines step bytes state = (pieces 10 bytes).foldlM (fun state line =>
      if maxReceiptLineBytes < line.length then
        .error "receipt record exceeds the per-record budget".toList
      else step state line) state := by
  induction size : bytes.length using Nat.strong_induction_on generalizing bytes state with
  | _ size ih =>
    rw [forLines, readCappedLine_eq]
    by_cases absent : bytes = []
    · subst absent
      rfl
    · have line := pieces_upTo (10 : UInt8) bytes absent
      have filled : upTo 10 bytes ≠ [] := fun empty => absent ((upTo_eq_nil 10 bytes).1 empty)
      have present := List.length_pos_iff.2 filled
      have within := length_upTo (10 : UInt8) bytes
      rw [line, List.foldlM_cons]
      by_cases long : maxReceiptLineBytes < (upTo 10 bytes).length
      · rw [if_pos long, if_pos long]
        rfl
      · rw [if_neg long, if_neg long]
        dsimp only
        rw [if_neg filled, dif_pos (by omega)]
        refine bind_congr fun next => ?_
        exact ih _ (by rw [List.length_drop]; omega) _ next rfl

/-! What a line gives, apart from the lines before it. -/

inductive LineReads (serde : Serde) (line : List UInt8) : Option StrategyReceipt → Prop where
  | blank (short : line.length ≤ maxReceiptLineBytes) (trimmed : trimmedLine line = .ok []) :
      LineReads serde line none
  | receipt (short : line.length ≤ maxReceiptLineBytes) (text : Str) (receipt : StrategyReceipt)
      (trimmed : trimmedLine line = .ok text) (nonempty : text ≠ [])
      (stored : storedReceipt serde text = .ok receipt) : LineReads serde line (some receipt)

theorem LineReads.short (serde : Serde) (line : List UInt8) (found : Option StrategyReceipt)
    (reads : LineReads serde line found) : line.length ≤ maxReceiptLineBytes := by
  cases reads <;> assumption

theorem readWithin_eq_ok (totalRead after : Nat) (line : List UInt8) :
    readWithin totalRead line = .ok after ↔
      totalRead + line.length ≤ maxReceiptsBytes ∧ after = totalRead + line.length := by
  unfold readWithin
  split
  · rename_i large
    refine ⟨fun failed => ?_, fun within => ?_⟩
    · cases failed
    · omega
  · rename_i small
    rw [Except.ok.injEq, eq_comm]
    exact ⟨fun same => ⟨Nat.le_of_not_lt small, same⟩, And.right⟩

theorem loadLine_ok (serde : Serde) (state after : Loading) (line : List UInt8)
    (short : line.length ≤ maxReceiptLineBytes)
    (loaded : loadLine serde state line = .ok after) :
    ∃ found, LineReads serde line found ∧
      state.totalRead + line.length ≤ maxReceiptsBytes ∧
      (found.isSome → state.receipts.length < maxReceipts) ∧
      after = ⟨state.receipts ++ found.toList, state.totalRead + line.length,
        state.number + 1⟩ := by
  unfold loadLine at loaded
  obtain ⟨total, read, loaded⟩ := (bind_eq_ok ..).1 loaded
  obtain ⟨within, rfl⟩ := (readWithin_eq_ok ..).1 read
  obtain ⟨text, trimmed, loaded⟩ := (bind_eq_ok ..).1 loaded
  split at loaded
  · rename_i empty
    obtain rfl := Except.ok.inj loaded
    exact ⟨none, .blank short (empty ▸ trimmed), within, fun present => Bool.noConfusion present,
      by rw [Option.toList_none, List.append_nil]⟩
  · rename_i present
    split at loaded
    · cases loaded
    · rename_i room
      cases stored : storedReceipt serde text with
      | error error => rw [stored] at loaded; cases loaded
      | ok receipt =>
        rw [stored] at loaded
        obtain rfl := Except.ok.inj loaded
        exact ⟨some receipt, .receipt short text receipt trimmed present stored, within,
          fun _ => Nat.lt_of_not_le room, rfl⟩

theorem loadLine_reads (serde : Serde) (state : Loading) (line : List UInt8)
    (found : Option StrategyReceipt) (reads : LineReads serde line found)
    (within : state.totalRead + line.length ≤ maxReceiptsBytes)
    (room : found.isSome → state.receipts.length < maxReceipts) :
    loadLine serde state line = .ok ⟨state.receipts ++ found.toList,
      state.totalRead + line.length, state.number + 1⟩ := by
  have read := (readWithin_eq_ok state.totalRead _ line).2 ⟨within, rfl⟩
  unfold loadLine
  rw [read]
  cases reads with
  | blank short trimmed =>
    rw [trimmed, Option.toList_none, List.append_nil]
    rfl
  | receipt short text receipt trimmed present stored =>
    rw [trimmed]
    change (if text = [] then _ else if maxReceipts ≤ state.receipts.length then _ else
      match storedReceipt serde text with
      | .error error => _
      | .ok receipt => _) = _
    rw [if_neg present, if_neg (Nat.not_le_of_lt (room rfl)), stored]
    rfl

abbrev LinesRead (serde : Serde) (lines : List (List UInt8))
    (found : List (Option StrategyReceipt)) : Prop :=
  List.Forall₂ (LineReads serde) lines found

def sizes (lines : List (List UInt8)) : Nat := (lines.map List.length).sum

def loadStep (serde : Serde) (state : Loading) (line : List UInt8) : Except Str Loading :=
  if maxReceiptLineBytes < line.length then
    .error "receipt record exceeds the per-record budget".toList
  else loadLine serde state line

theorem loadLines_ok (serde : Serde) (lines : List (List UInt8)) (state after : Loading)
    (within : state.totalRead ≤ maxReceiptsBytes) (room : state.receipts.length ≤ maxReceipts)
    (loaded : lines.foldlM (loadStep serde) state = .ok after) :
    ∃ found, LinesRead serde lines found ∧
      state.totalRead + sizes lines ≤ maxReceiptsBytes ∧
      (state.receipts ++ found.reduceOption).length ≤ maxReceipts ∧
      after.receipts = state.receipts ++ found.reduceOption := by
  induction lines generalizing state with
  | nil =>
    obtain rfl := Except.ok.inj loaded
    exact ⟨[], .nil, within, by rwa [List.reduceOption_nil, List.append_nil],
      by rw [List.reduceOption_nil, List.append_nil]⟩
  | cons line lines ih =>
    rw [List.foldlM_cons] at loaded
    obtain ⟨middle, first, loaded⟩ := (bind_eq_ok ..).1 loaded
    unfold loadStep at first
    split at first
    · cases first
    · rename_i short
      obtain ⟨one, reads, total, space, rfl⟩ :=
        loadLine_ok serde state middle line (Nat.le_of_not_lt short) first
      have room' : (state.receipts ++ one.toList).length ≤ maxReceipts := by
        cases one with
        | none => rwa [Option.toList_none, List.append_nil]
        | some receipt =>
          rw [List.length_append]
          exact space rfl
      obtain ⟨found, rest, total', space', same⟩ := ih _ total room' loaded
      have joined : one.toList ++ found.reduceOption = (one :: found).reduceOption := by
        cases one <;> rfl
      refine ⟨one :: found, .cons reads rest, ?_, ?_, ?_⟩
      · rwa [sizes, List.map_cons, List.sum_cons, ← Nat.add_assoc]
      · rwa [← joined, ← List.append_assoc]
      · rw [same, ← joined, ← List.append_assoc]

theorem loadLines_reads (serde : Serde) (lines : List (List UInt8)) (state : Loading)
    (found : List (Option StrategyReceipt)) (reads : LinesRead serde lines found)
    (within : state.totalRead + sizes lines ≤ maxReceiptsBytes)
    (room : (state.receipts ++ found.reduceOption).length ≤ maxReceipts) :
    ∃ after, lines.foldlM (loadStep serde) state = .ok after ∧
      after.receipts = state.receipts ++ found.reduceOption := by
  induction reads generalizing state with
  | nil => exact ⟨state, rfl, by rw [List.reduceOption_nil, List.append_nil]⟩
  | cons first rest ih =>
    rename_i line one lines found
    have joined : one.toList ++ found.reduceOption = (one :: found).reduceOption := by
      cases one <;> rfl
    rw [sizes, List.map_cons, List.sum_cons, ← Nat.add_assoc] at within
    rw [← joined, ← List.append_assoc] at room
    have own : one.isSome → state.receipts.length < maxReceipts := by
      intro present
      obtain ⟨receipt, rfl⟩ := Option.isSome_iff_exists.1 present
      rw [List.length_append, List.length_append, Option.toList_some, List.length_singleton] at room
      omega
    obtain ⟨after, loaded, same⟩ := ih ⟨state.receipts ++ one.toList,
      state.totalRead + line.length, state.number + 1⟩ within room
    refine ⟨after, ?_, by rw [same, ← joined, List.append_assoc]⟩
    have step : loadStep serde state line = .ok ⟨state.receipts ++ one.toList,
        state.totalRead + line.length, state.number + 1⟩ := by
      rw [loadStep, if_neg (Nat.not_lt_of_le first.short)]
      exact loadLine_reads serde state line one first (by omega) own
    rw [List.foldlM_cons, step]
    exact loaded

theorem sizes_pieces (store : List UInt8) : sizes (pieces 10 store) = store.length := by
  conv_rhs => rw [← flatten_pieces 10 store]
  rw [List.length_flatten, sizes]

/-- A store loads when it is no larger than its budget, each line reads, and there are not too
many receipts. -/
theorem loadReceipts_eq_ok (serde : Serde) (store : List UInt8) (receipts : List StrategyReceipt) :
    loadReceipts serde store = .ok receipts ↔ store.length ≤ maxReceiptsBytes ∧
      receipts.length ≤ maxReceipts ∧ ∃ found, LinesRead serde (pieces 10 store) found ∧
        found.reduceOption = receipts := by
  have unended : openReceipts store = .ok () ↔ store.length ≤ maxReceiptsBytes := by
    unfold openReceipts
    split
    · rename_i large
      refine ⟨fun failed => ?_, fun within => ?_⟩
      · cases failed
      · omega
    · rename_i small
      exact ⟨fun _ => Nat.le_of_not_lt small, fun _ => rfl⟩
  have loop : forLines (loadLine serde) store ⟨[], 0, 0⟩ =
      (pieces 10 store).foldlM (loadStep serde) ⟨[], 0, 0⟩ := forLines_eq ..
  unfold loadReceipts
  constructor
  · intro loaded
    obtain ⟨_, opened, walked⟩ := (bind_eq_ok ..).1 loaded
    obtain ⟨last, lines, same⟩ := (bind_eq_ok ..).1 walked
    obtain rfl := Except.ok.inj same
    rw [loop] at lines
    obtain ⟨found, reads, -, room, whole⟩ := loadLines_ok serde (pieces 10 store) ⟨[], 0, 0⟩ last
      (Nat.zero_le _) (Nat.zero_le _) lines
    rw [List.nil_append] at room whole
    exact ⟨unended.1 opened, whole ▸ room, found, reads, whole.symm⟩
  · rintro ⟨within, room, found, reads, rfl⟩
    obtain ⟨last, loaded, whole⟩ := loadLines_reads serde _ ⟨[], 0, 0⟩ found reads
      (by rw [sizes_pieces, Nat.zero_add]; exact within) room
    rw [unended.2 within, loop, loaded]
    exact congrArg Except.ok whole

def countStep (state : Nat × Nat) (line : List UInt8) : Except Str (Nat × Nat) :=
  if maxReceiptLineBytes < line.length then
    .error "receipt record exceeds the per-record budget".toList
  else countLine state line

theorem countLines_reads (serde : Serde) (lines : List (List UInt8)) (count total : Nat)
    (found : List (Option StrategyReceipt)) (reads : LinesRead serde lines found)
    (within : total + sizes lines ≤ maxReceiptsBytes)
    (room : count + found.reduceOption.length ≤ maxReceipts) :
    ∃ after, lines.foldlM countStep (count, total) =
      .ok (count + found.reduceOption.length, after) := by
  induction reads generalizing count total with
  | nil => exact ⟨total, rfl⟩
  | cons first rest ih =>
    rename_i line one lines found
    rw [sizes, List.map_cons, List.sum_cons, ← Nat.add_assoc] at within
    have read := (readWithin_eq_ok total _ line).2 ⟨by omega, rfl⟩
    have short : ¬ maxReceiptLineBytes < line.length := Nat.not_lt_of_le first.short
    rw [List.foldlM_cons, countStep, if_neg short, countLine, read]
    cases first with
    | blank _ trimmed =>
      rw [trimmed]
      exact ih count (total + line.length) within room
    | receipt _ text receipt trimmed present stored =>
      rw [List.reduceOption_cons_of_some, List.length_cons] at room ⊢
      obtain ⟨after, counted⟩ := ih (count + 1) (total + line.length) within (by omega)
      refine ⟨after, ?_⟩
      rw [trimmed]
      change (if text = [] then _ else if maxReceipts < count + 1 then _ else _) >>= _ = _
      have more : count + (found.reduceOption.length + 1) =
          count + 1 + found.reduceOption.length := by omega
      rw [if_neg present, if_neg (by omega), more]
      exact counted

theorem countReceipts_loaded (serde : Serde) (store : List UInt8) (receipts : List StrategyReceipt)
    (loaded : loadReceipts serde store = .ok receipts) :
    countReceipts store = .ok receipts.length := by
  obtain ⟨within, room, found, reads, rfl⟩ := (loadReceipts_eq_ok ..).1 loaded
  have loop : forLines countLine store (0, 0) = (pieces 10 store).foldlM countStep (0, 0) :=
    forLines_eq ..
  obtain ⟨after, counted⟩ := countLines_reads serde (pieces 10 store) 0 0 found reads
    (by rw [sizes_pieces, Nat.zero_add]; exact within) (by omega)
  rw [Nat.zero_add] at counted
  rw [countReceipts, openReceipts, if_neg (Nat.not_lt_of_le within), loop, counted]
  rfl

/-! What an append adds. -/

theorem trim_newline (text : Str) : trim (text ++ ['\n']) = trim text := by
  have blank : isWhitespace '\n' = true := by decide
  unfold trim
  rw [List.dropWhile_append]
  split
  · rename_i empty
    rw [List.isEmpty_iff.1 empty]
    rfl
  · exact List.rdropWhile_concat_pos _ _ _ blank

theorem trim_framed (first last : Char) (middle : Str) (left : isWhitespace first = false)
    (right : isWhitespace last = false) :
    trim (first :: (middle ++ [last])) = first :: (middle ++ [last]) := by
  rw [trim, List.dropWhile_cons_of_neg (by rw [left]; exact Bool.false_ne_true),
    ← List.cons_append]
  exact List.rdropWhile_concat_neg _ _ _ (by rw [right]; exact Bool.false_ne_true)

theorem trimmedLine_ended (line : List UInt8) : trimmedLine (line ++ [10]) = trimmedLine line := by
  unfold trimmedLine
  cases read : Utf8.decode line with
  | none =>
    have unread := Utf8.decode_append_lf line []
    rw [read] at unread
    have absent : Utf8.decode (line ++ [10]) = none :=
      Option.not_isSome_iff_eq_none.1 (by rw [unread]; exact Bool.false_ne_true)
    rw [absent]
  | some text =>
    have whole : line ++ [10] = Utf8.encode (text ++ ['\n']) := by
      rw [Utf8.encode_append, Utf8.encode_decode line text read]
      rfl
    rw [whole, Utf8.decode_encode]
    exact congrArg Except.ok (trim_newline text)

theorem lineReads_ended (serde : Serde) (line : List UInt8) (found : Option StrategyReceipt) :
    LineReads serde (line ++ [10]) found ↔
      LineReads serde line found ∧ line.length < maxReceiptLineBytes := by
  have size : (line ++ [10]).length = line.length + 1 := List.length_append
  constructor
  · intro reads
    have short := reads.short
    rw [size] at short
    refine ⟨?_, short⟩
    cases reads with
    | blank _ trimmed => exact .blank (by omega) (trimmedLine_ended line ▸ trimmed)
    | receipt _ text receipt trimmed present stored =>
      exact .receipt (by omega) text receipt (trimmedLine_ended line ▸ trimmed) present stored
  · rintro ⟨reads, short⟩
    cases reads with
    | blank _ trimmed => exact .blank (by omega) ((trimmedLine_ended line).trans trimmed)
    | receipt _ text receipt trimmed present stored =>
      exact .receipt (by omega) text receipt ((trimmedLine_ended line).trans trimmed) present stored

def StrategyReceipt.line (receipt : StrategyReceipt) : List UInt8 :=
  Utf8.encode receipt.toJson ++ [10]

theorem unbroken_toJson (receipt : StrategyReceipt) : Json.Unbroken receipt.toJson := by
  refine Json.unbroken_object _ ?_
  have fallback : Json.Unbroken
      (Json.optional (fun reason => Json.string reason.label) receipt.fallback) :=
    Json.unbroken_optional _ (fun reason => Json.unbroken_string _) _
  unfold StrategyReceipt.members
  simp only [List.forall_mem_cons, List.not_mem_nil, false_implies, implies_true, and_true,
    Json.unbroken_string, Json.unbroken_number, Json.unbroken_bool, fallback]

theorem plain_line (receipt : StrategyReceipt) : 10 ∉ Utf8.encode receipt.toJson := by
  intro listed
  have char := (Utf8.mem_decode _ _ (Utf8.decode_encode receipt.toJson) 10 (by decide)).1 listed
  exact absurd (unbroken_toJson receipt _ char) (by decide)

theorem trimmedLine_toJson (receipt : StrategyReceipt) :
    trimmedLine receipt.line = .ok receipt.toJson := by
  have framed : trim receipt.toJson = receipt.toJson :=
    trim_framed '\x7b' '\x7d' _ (by decide) (by decide)
  rw [StrategyReceipt.line, trimmedLine_ended, trimmedLine, Utf8.decode_encode]
  exact congrArg Except.ok framed

structure ReadsBack (serde : Serde) (receipt : StrategyReceipt) : Prop where
  own : serde.receipt receipt.toJson = .ok receipt
  keys : serde.keys receipt.toJson = .ok (receipt.members.map (·.1))

theorem storedReceipt_own (serde : Serde) (receipt : StrategyReceipt)
    (back : ReadsBack serde receipt) (valid : validateReceiptForStorage receipt = .ok ()) :
    storedReceipt serde receipt.toJson = .ok receipt := by
  have known : ¬ (receipt.members.map (·.1)).any (· ∉ receipt.members.map (·.1)) = true := by
    rw [List.any_eq_true]
    rintro ⟨key, listed, unknown⟩
    exact of_decide_eq_true unknown listed
  have stored : StrategyReceipt.fromStoredJson serde receipt.toJson = .ok receipt := by
    rw [StrategyReceipt.fromStoredJson, back.own, back.keys]
    dsimp only [bind, Except.bind]
    rw [if_neg known]
  rw [storedReceipt, stored]
  change (validateReceiptForStorage receipt >>= fun _ => .ok receipt) = _
  rw [valid]
  rfl

theorem lineReads_own (serde : Serde) (receipt : StrategyReceipt)
    (back : ReadsBack serde receipt) (valid : validateReceiptForStorage receipt = .ok ())
    (short : receipt.line.length ≤ maxReceiptLineBytes) :
    LineReads serde receipt.line (some receipt) :=
  .receipt short _ receipt (trimmedLine_toJson receipt) (List.cons_ne_nil _ _)
    (storedReceipt_own serde receipt back valid)

def repaired (store : List UInt8) : List UInt8 :=
  if store.getLast?.any (· ≠ 10) then store ++ [10] else store

theorem repaired_ends (store : List UInt8) : EndsLine 10 (repaired store) := by
  unfold repaired
  split
  · exact .inr List.getLast?_concat
  · rename_i ended
    cases last : store.getLast? with
    | none => exact .inl (List.getLast?_eq_none_iff.1 last)
    | some byte =>
      rw [last, Option.any_some, decide_eq_true_eq, not_not] at ended
      exact .inr (ended ▸ last)

theorem repaired_of_ends (store : List UInt8) (ends : EndsLine 10 store) :
    repaired store = store := by
  refine if_neg ?_
  rcases ends with rfl | last
  · exact Bool.false_ne_true
  · rw [last]
    exact Bool.false_ne_true

theorem append_repaired (store line : List UInt8) :
    store ++ (if store.getLast?.any (· ≠ 10) then 10 :: line else line) =
      repaired store ++ line := by
  unfold repaired
  split
  · rw [List.append_assoc]
    rfl
  · rfl

/-- An accepted append: the receipt is valid and its line short, and nothing is too large. -/
theorem appendReceipt_ok (store after : List UInt8) (receipt : StrategyReceipt)
    (accepted : appendReceipt store receipt = (.ok (), after)) :
    validateReceiptForStorage receipt = .ok () ∧ receipt.line.length ≤ maxReceiptLineBytes ∧
      after = repaired store ++ receipt.line ∧ after.length ≤ maxReceiptsBytes := by
  unfold appendReceipt at accepted
  dsimp only at accepted
  split at accepted
  · cases accepted
  · rename_i line checked
    obtain rfl := congrArg Prod.snd accepted
    obtain ⟨_, valid, checked⟩ := (bind_eq_ok ..).1 checked
    split at checked
    · cases checked
    · rename_i short
      obtain ⟨_, -, checked⟩ := (bind_eq_ok ..).1 checked
      have ended := append_repaired store (Utf8.encode receipt.toJson ++ [10])
      generalize (if store.getLast?.any (· ≠ 10) then
        10 :: (Utf8.encode receipt.toJson ++ [10]) else Utf8.encode receipt.toJson ++ [10]) =
          whole at checked ended
      split at checked
      · cases checked
      · rename_i small
        have size : (store ++ whole).length = store.length + whole.length := List.length_append
        obtain rfl := Except.ok.inj checked
        exact ⟨valid, Nat.le_of_not_lt short, ended, size ▸ Nat.le_of_not_lt small⟩

theorem appendReceipt_accepts (store : List UInt8) (receipt : StrategyReceipt)
    (valid : validateReceiptForStorage receipt = .ok ())
    (short : receipt.line.length ≤ maxReceiptLineBytes)
    (small : (repaired store ++ receipt.line).length ≤ maxReceiptsBytes) :
    appendReceipt store receipt = (.ok (), repaired store ++ receipt.line) := by
  have within : store.length ≤ (repaired store ++ receipt.line).length := by
    unfold repaired
    split <;> simp only [List.length_append] <;> omega
  have opened : openReceipts store = .ok () := if_neg (by omega)
  have short' : ¬ maxReceiptLineBytes < (Utf8.encode receipt.toJson ++ [10]).length :=
    Nat.not_lt_of_le short
  have ended := append_repaired store (Utf8.encode receipt.toJson ++ [10])
  unfold appendReceipt
  rw [valid, opened]
  dsimp only [bind, Except.bind]
  rw [if_neg short']
  generalize (if store.getLast?.any (· ≠ 10) then
    10 :: (Utf8.encode receipt.toJson ++ [10]) else Utf8.encode receipt.toJson ++ [10]) =
      whole at ended ⊢
  have fits : ¬ maxReceiptsBytes < store.length + whole.length := by
    rw [← List.length_append, ended]
    exact Nat.not_lt_of_le small
  rw [if_neg fits]
  exact congrArg (Prod.mk (Except.ok ())) ended

theorem appendReceipt_refused (store after : List UInt8) (receipt : StrategyReceipt) (error : Str)
    (refused : appendReceipt store receipt = (.error error, after)) : after = store := by
  unfold appendReceipt at refused
  dsimp only at refused
  split at refused
  · exact (congrArg Prod.snd refused).symm
  · cases refused

def FullLastLine (store : List UInt8) : Prop :=
  ∃ line, (pieces 10 store).getLast? = some line ∧ line.getLast? ≠ some 10 ∧
    line.length = maxReceiptLineBytes

theorem split_last (store : List UInt8) :
    EndsLine 10 store ∨ ∃ first last, store = first ++ last ∧ EndsLine 10 first ∧
      10 ∉ last ∧ last ≠ [] := by
  induction store using by_lines (10 : UInt8) with
  | empty => exact .inl (.inl rfl)
  | last line plain present => exact .inr ⟨[], line, rfl, .inl rfl, plain, present⟩
  | line line rest plain ih =>
    have ended : EndsLine 10 (line ++ [10]) := .inr List.getLast?_concat
    have joined (more : List UInt8) (ends : EndsLine 10 more) :
        EndsLine 10 (line ++ 10 :: more) := by
      rcases ends with rfl | last
      · exact ended
      · right
        rw [List.getLast?_append, List.getLast?_cons, last]
        rfl
    rcases ih with ends | ⟨first, last, rfl, ends, plain', present⟩
    · exact .inl (joined rest ends)
    · exact .inr ⟨line ++ 10 :: first, last, by rw [List.append_assoc]; rfl, joined first ends,
        plain', present⟩

theorem not_full_of_ends (store : List UInt8) (ends : EndsLine 10 store) :
    ¬ FullLastLine store := by
  rintro ⟨line, last, unended, size⟩
  have filled : line ≠ [] := by
    rintro rfl
    cases size
  obtain ⟨front, whole⟩ := List.getLast?_eq_some_iff.1 last
  have joined := flatten_pieces (10 : UInt8) store
  rw [whole, List.flatten_append, List.flatten_cons, List.flatten_nil, List.append_nil] at joined
  rcases ends with rfl | ended
  · exact filled (List.append_eq_nil_iff.1 joined).2
  · rw [← joined, List.getLast?_append_of_ne_nil _ filled] at ended
    exact unended ended

theorem lineReads_unique (serde : Serde) (line : List UInt8)
    (one two : Option StrategyReceipt) (first : LineReads serde line one)
    (second : LineReads serde line two) : one = two := by
  cases first with
  | blank _ trimmed =>
    cases second with
    | blank => rfl
    | receipt _ text receipt trimmed' present =>
      exact absurd (Except.ok.inj (trimmed'.symm.trans trimmed)) present
  | receipt _ text receipt trimmed present stored =>
    cases second with
    | blank _ trimmed' => exact absurd (Except.ok.inj (trimmed.symm.trans trimmed')) present
    | receipt _ text' receipt' trimmed' _ stored' =>
      obtain rfl := Except.ok.inj (trimmed.symm.trans trimmed')
      exact congrArg some (Except.ok.inj (stored.symm.trans stored'))

theorem linesRead_unique (serde : Serde) (lines : List (List UInt8))
    (one two : List (Option StrategyReceipt)) (first : LinesRead serde lines one)
    (second : LinesRead serde lines two) : one = two :=
  List.right_unique_forall₂' (R := LineReads serde)
    (fun line found other => lineReads_unique serde line found other) first second

/-- Ending a store's last line leaves it readable unless that line is as long as a line may be. -/
theorem linesRead_repaired (serde : Serde) (store : List UInt8)
    (found after : List (Option StrategyReceipt)) (reads : LinesRead serde (pieces 10 store) found) :
    LinesRead serde (pieces 10 (repaired store)) after ↔ ¬ FullLastLine store ∧ after = found := by
  rcases split_last store with ends | ⟨first, last, rfl, ends, plain, present⟩
  · rw [repaired_of_ends store ends]
    refine ⟨fun again => ⟨not_full_of_ends store ends, ?_⟩, ?_⟩
    · exact linesRead_unique serde _ _ _ again reads
    · rintro ⟨-, rfl⟩
      exact reads
  · have unended : last.getLast? ≠ some 10 := fun ended => plain (List.mem_of_getLast? ended)
    have whole : repaired (first ++ last) = first ++ (last ++ 10 :: []) := by
      have byte := List.getLast?_eq_some_getLast present
      rw [repaired, List.getLast?_append_of_ne_nil _ present, if_pos, List.append_assoc]
      rw [byte, Option.any_some, decide_eq_true_eq]
      exact fun same => unended (byte.trans (congrArg some same))
    have cut : pieces 10 (first ++ last) = pieces 10 first ++ [last] := by
      rw [pieces_append 10 first last ends, pieces_last 10 last plain present]
    rw [whole, pieces_append 10 first _ ends, pieces_line 10 last [] plain]
    rw [cut] at reads
    obtain ⟨others, one, rfl, front, back⟩ := (forall₂_concat ..).1 reads
    have full : FullLastLine (first ++ last) ↔ last.length = maxReceiptLineBytes := by
      unfold FullLastLine
      rw [cut, List.getLast?_concat]
      refine ⟨?_, fun size => ⟨last, rfl, unended, size⟩⟩
      rintro ⟨line, same, -, size⟩
      rwa [Option.some.inj same]
    have short := back.short
    rw [full]
    constructor
    · intro ended
      obtain ⟨others', one', rfl, front', back'⟩ := (forall₂_concat ..).1 ended
      obtain ⟨back', room⟩ := (lineReads_ended ..).1 back'
      refine ⟨by omega, ?_⟩
      rw [linesRead_unique serde _ _ _ front' front, lineReads_unique serde _ _ _ back' back]
    · rintro ⟨room, rfl⟩
      exact (forall₂_concat ..).2 ⟨others, one, rfl, front,
        (lineReads_ended ..).2 ⟨back, by omega⟩⟩

/-! Appends one after another. -/

def appendAll (store : List UInt8) : List StrategyReceipt → Option (List UInt8)
  | [] => some store
  | receipt :: receipts =>
      match appendReceipt store receipt with
      | (.ok (), after) => appendAll after receipts
      | (.error _, _) => none

theorem appendAll_singleton (store after : List UInt8) (receipt : StrategyReceipt)
    (accepted : appendReceipt store receipt = (.ok (), after)) :
    appendAll store [receipt] = some after := by
  rw [appendAll, accepted]
  rfl

theorem ends_line (receipt : StrategyReceipt) (store : List UInt8) :
    EndsLine 10 (store ++ receipt.line) := by
  right
  rw [StrategyReceipt.line, ← List.append_assoc, List.getLast?_concat]

theorem appendAll_ok (store after : List UInt8) (receipts : List StrategyReceipt)
    (accepted : appendAll store receipts = some after) (nonempty : receipts ≠ []) :
    after = repaired store ++ receipts.flatMap StrategyReceipt.line ∧
      after.length ≤ maxReceiptsBytes ∧
      ∀ receipt ∈ receipts, validateReceiptForStorage receipt = .ok () ∧
        receipt.line.length ≤ maxReceiptLineBytes := by
  induction receipts generalizing store with
  | nil => exact absurd rfl nonempty
  | cons receipt receipts ih =>
    rw [appendAll] at accepted
    split at accepted
    · rename_i middle first
      obtain ⟨valid, short, rfl, small⟩ := appendReceipt_ok store middle receipt first
      rw [List.flatMap_cons]
      cases receipts with
      | nil =>
        obtain rfl := Option.some.inj accepted
        rw [List.flatMap_nil, List.append_nil]
        exact ⟨rfl, small, List.forall_mem_singleton.2 ⟨valid, short⟩⟩
      | cons next receipts =>
        obtain ⟨whole, small', each⟩ := ih _ accepted (List.cons_ne_nil _ _)
        rw [repaired_of_ends _ (ends_line receipt _), List.append_assoc] at whole
        exact ⟨whole, small', List.forall_mem_cons.2 ⟨⟨valid, short⟩, each⟩⟩
    · cases accepted

theorem pieces_lines (receipts : List StrategyReceipt) :
    pieces 10 (receipts.flatMap StrategyReceipt.line) = receipts.map StrategyReceipt.line := by
  induction receipts with
  | nil => rfl
  | cons receipt receipts ih =>
    have line : receipt.line ++ receipts.flatMap StrategyReceipt.line =
        Utf8.encode receipt.toJson ++ 10 :: receipts.flatMap StrategyReceipt.line := by
      rw [StrategyReceipt.line, List.append_assoc]
      rfl
    rw [List.flatMap_cons, line, pieces_line 10 _ _ (plain_line receipt), ih, List.map_cons]
    rfl

theorem linesRead_own (serde : Serde) (receipts : List StrategyReceipt)
    (back : ∀ receipt ∈ receipts, ReadsBack serde receipt)
    (valid : ∀ receipt ∈ receipts, validateReceiptForStorage receipt = .ok () ∧
      receipt.line.length ≤ maxReceiptLineBytes) :
    LinesRead serde (receipts.map StrategyReceipt.line) (receipts.map some) := by
  induction receipts with
  | nil => exact .nil
  | cons receipt receipts ih =>
    rw [List.forall_mem_cons] at back valid
    exact .cons (lineReads_own serde receipt back.1 valid.1.1 valid.1.2) (ih back.2 valid.2)

theorem loadReceipts_appendAll (serde : Serde) (store after : List UInt8)
    (receipts more found : List StrategyReceipt) (loaded : loadReceipts serde store = .ok receipts)
    (back : ∀ receipt ∈ more, ReadsBack serde receipt)
    (accepted : appendAll store more = some after) (nonempty : more ≠ []) :
    loadReceipts serde after = .ok found ↔
      found = receipts ++ more ∧ receipts.length + more.length ≤ maxReceipts ∧
        ¬ FullLastLine store := by
  obtain ⟨rfl, small, valid⟩ := appendAll_ok store after more accepted nonempty
  obtain ⟨-, -, before, reads, rfl⟩ := (loadReceipts_eq_ok ..).1 loaded
  have own := linesRead_own serde more back valid
  have joined (front : List (Option StrategyReceipt)) :
      (front ++ more.map some).reduceOption = front.reduceOption ++ more := by
    have kept : (more.map some).reduceOption = more := by
      rw [List.reduceOption, List.filterMap_map]
      exact List.filterMap_some
    rw [List.reduceOption_append, kept]
  rw [loadReceipts_eq_ok, pieces_append 10 _ _ (repaired_ends store), pieces_lines]
  constructor
  · rintro ⟨-, room, both, again, rfl⟩
    obtain ⟨front, last, rfl, first, second⟩ := (forall₂_append ..).1 again
    obtain ⟨opened, rfl⟩ := (linesRead_repaired serde store before front reads).1 first
    obtain rfl := linesRead_unique serde _ _ _ second own
    rw [joined] at room ⊢
    exact ⟨rfl, List.length_append ▸ room, opened⟩
  · rintro ⟨rfl, room, opened⟩
    have first := (linesRead_repaired serde store before before reads).2 ⟨opened, rfl⟩
    exact ⟨small, List.length_append ▸ room, before ++ more.map some,
      (forall₂_append ..).2 ⟨before, more.map some, rfl, first, own⟩, joined before⟩

/-- An appended receipt reads back after those before it, and is counted, exactly where the store
holds fewer receipts than it may and does not end in a full line without its end; a refused append
changes nothing; and appends leave the store readable exactly where the first of them does. -/
theorem append_reads_back (serde : Serde) (store : List UInt8) (receipts : List StrategyReceipt)
    (loaded : loadReceipts serde store = .ok receipts) :
    (∀ receipt after, ReadsBack serde receipt → appendReceipt store receipt = (.ok (), after) →
      (loadReceipts serde after = .ok (receipts ++ [receipt]) ∧
        countReceipts after = .ok (receipts.length + 1) ↔
          receipts.length < maxReceipts ∧ ¬ FullLastLine store)) ∧
    (∀ receipt after error, appendReceipt store receipt = (.error error, after) →
      after = store) ∧
    ∀ more after, (∀ receipt ∈ more, ReadsBack serde receipt) →
      appendAll store more = some after → more ≠ [] →
      ((∃ found, loadReceipts serde after = .ok found) ↔
        receipts.length + more.length ≤ maxReceipts ∧ ¬ FullLastLine store) := by
  refine ⟨fun receipt after back accepted => ?_, fun receipt after error refused =>
    appendReceipt_refused store after receipt error refused,
    fun more after back accepted present => ?_⟩
  · have run := appendAll_singleton store after receipt accepted
    have reads := loadReceipts_appendAll serde store after receipts [receipt]
      (receipts ++ [receipt]) loaded (List.forall_mem_singleton.2 back) run (List.cons_ne_nil _ _)
    rw [reads]
    constructor
    · rintro ⟨⟨-, held⟩, -⟩
      exact held
    · intro held
      have whole := countReceipts_loaded serde after _ (reads.2 ⟨rfl, held⟩)
      rw [List.length_append] at whole
      exact ⟨⟨rfl, held⟩, whole⟩
  · constructor
    · rintro ⟨found, reads⟩
      exact ((loadReceipts_appendAll serde store after receipts more found loaded back accepted
        present).1 reads).2
    · intro held
      exact ⟨receipts ++ more, (loadReceipts_appendAll serde store after receipts more _ loaded back
        accepted present).2 ⟨rfl, held⟩⟩

def oneReceipt (receipt : StrategyReceipt) : Serde where
  receipt := fun text => if text = receipt.toJson then .ok receipt else .error []
  keys := fun text => if text = receipt.toJson then .ok (receipt.members.map (·.1)) else .error []

theorem readsBack_oneReceipt (receipt : StrategyReceipt) :
    ReadsBack (oneReceipt receipt) receipt where
  own := if_pos rfl
  keys := if_pos rfl

def sampleReceipt : StrategyReceipt :=
  { fileHash := ⟨"0123456789abcdef".toList, by decide⟩
    language := "rust".toList
    parserVersion := "1.0".toList
    strategy := .syntaxTree
    fallback := none
    elapsedMs := 3
    bytes := 40
    nodes := 7
    cache := .miss
    outcome := .accepted
    revisited := false }

theorem validate_sampleReceipt : validateReceiptForStorage sampleReceipt = .ok () := by
  decide +kernel

theorem length_sampleReceipt : sampleReceipt.line.length < 300 := by
  decide +kernel

/-- A store of one receipt, its line without its end. -/
def unendedStore : List UInt8 := Utf8.encode sampleReceipt.toJson

theorem repaired_unendedStore : repaired unendedStore = sampleReceipt.line := by
  decide +kernel

theorem pieces_unendedStore : pieces 10 unendedStore = [unendedStore] := by
  refine pieces_last 10 unendedStore (plain_line sampleReceipt) fun empty => ?_
  have filled := repaired_unendedStore
  rw [empty] at filled
  exact absurd filled (by decide +kernel)

theorem length_unendedStore : unendedStore.length < 300 := by
  decide +kernel

theorem unendedStore_loads :
    loadReceipts (oneReceipt sampleReceipt) unendedStore = .ok [sampleReceipt] := by
  have short := length_unendedStore
  have trimmed : trimmedLine unendedStore = .ok sampleReceipt.toJson := by
    rw [unendedStore, ← trimmedLine_ended]
    exact trimmedLine_toJson sampleReceipt
  refine (loadReceipts_eq_ok ..).2
    ⟨by rw [maxReceiptsBytes]; omega, by decide, [some sampleReceipt], ?_, rfl⟩
  rw [pieces_unendedStore]
  exact .cons (.receipt (by rw [maxReceiptLineBytes]; omega) _ _ trimmed (List.cons_ne_nil _ _)
    (storedReceipt_own _ _ (readsBack_oneReceipt _) validate_sampleReceipt)) .nil

/-- A receipt added after a last line without its end reads back, and so does that line. -/
theorem append_reads_back_first :
    appendReceipt unendedStore sampleReceipt =
        (.ok (), sampleReceipt.line ++ sampleReceipt.line) ∧
      loadReceipts (oneReceipt sampleReceipt) (sampleReceipt.line ++ sampleReceipt.line) =
        .ok [sampleReceipt, sampleReceipt] ∧
      countReceipts (sampleReceipt.line ++ sampleReceipt.line) = .ok 2 := by
  have short := length_sampleReceipt
  have accepted := appendReceipt_accepts unendedStore sampleReceipt validate_sampleReceipt
    (by rw [maxReceiptLineBytes]; omega)
    (by rw [repaired_unendedStore, List.length_append, maxReceiptsBytes]; omega)
  rw [repaired_unendedStore] at accepted
  have room : ¬FullLastLine unendedStore := by
    rintro ⟨line, last, -, full⟩
    rw [pieces_unendedStore, List.getLast?_singleton] at last
    obtain rfl := Option.some.inj last
    have fewer := length_unendedStore
    rw [full] at fewer
    exact absurd fewer (by decide)
  have both := append_reads_back (oneReceipt sampleReceipt) unendedStore [sampleReceipt]
    unendedStore_loads
  exact ⟨accepted, (both.1 sampleReceipt _ (readsBack_oneReceipt _) accepted).2
    ⟨by decide, room⟩⟩

/-- A mebibyte of blanks without its end. -/
def blankStore : List UInt8 := List.replicate maxReceiptLineBytes 32

theorem trimmedLine_blanks (count : Nat) :
    trimmedLine (List.replicate count 32) = .ok [] := by
  have blanks : List.replicate count 32 = Utf8.encode (List.replicate count ' ') := by
    induction count with
    | zero => rfl
    | succ count ih => rw [List.replicate_succ, ih, List.replicate_succ, Utf8.encode_cons]; rfl
  have empty : (List.replicate count ' ').dropWhile isWhitespace = [] := by
    rw [List.dropWhile_eq_nil_iff]
    intro c listed
    rw [List.eq_of_mem_replicate listed]
    decide
  rw [trimmedLine, blanks, Utf8.decode_encode]
  change Except.ok (trim _) = _
  rw [trim, empty]
  rfl

/-- A store that loads, takes a receipt, and never loads again. -/
theorem appendReceipt_blankStore :
    loadReceipts (oneReceipt sampleReceipt) blankStore = .ok [] ∧
      ∃ after, appendReceipt blankStore sampleReceipt = (.ok (), after) ∧
        ¬ ∃ found, loadReceipts (oneReceipt sampleReceipt) after = .ok found := by
  have size : blankStore.length = maxReceiptLineBytes := List.length_replicate
  have nonempty : blankStore ≠ [] := List.ne_nil_of_length_pos (by rw [size]; decide)
  have plain : 10 ∉ blankStore := fun listed =>
    absurd (List.eq_of_mem_replicate listed) (by decide)
  have cut := pieces_last 10 blankStore plain nonempty
  have loaded : loadReceipts (oneReceipt sampleReceipt) blankStore = .ok [] := by
    refine (loadReceipts_eq_ok ..).2 ⟨by rw [size]; decide, Nat.zero_le _, [none], ?_, rfl⟩
    rw [cut]
    exact .cons (.blank (Nat.le_of_eq size) (trimmedLine_blanks _)) .nil
  have full : FullLastLine blankStore :=
    ⟨blankStore, by rw [cut]; rfl, fun ended => plain (List.mem_of_getLast? ended), size⟩
  have short := length_sampleReceipt
  have torn : (repaired blankStore).length ≤ maxReceiptLineBytes + 1 := by
    unfold repaired
    split
    · rw [List.length_append, size, List.length_singleton]
    · exact Nat.le_succ_of_le (Nat.le_of_eq size)
  have small : (repaired blankStore ++ sampleReceipt.line).length ≤ maxReceiptsBytes := by
    rw [maxReceiptLineBytes] at torn
    rw [List.length_append, maxReceiptsBytes]
    omega
  have accepted := appendReceipt_accepts blankStore sampleReceipt validate_sampleReceipt
    (by rw [maxReceiptLineBytes]; omega) small
  refine ⟨loaded, _, accepted, ?_⟩
  rintro ⟨found, reads⟩
  have run := appendAll_singleton _ _ _ accepted
  have held := (loadReceipts_appendAll _ _ _ _ _ found loaded
    (List.forall_mem_singleton.2 (readsBack_oneReceipt _)) run (List.cons_ne_nil _ _)).1 reads
  exact held.2.2 full

end DeepDiffForge.Learning
