import DeepDiffForge.Core.Seal
import DeepDiffForge.Lib.Fallible
import DeepDiffForge.Lib.Lossy
import DeepDiffForge.Lib.Markers
import DeepDiffForge.Patch.Grammar

/-! A patch captured from its bytes: every line read on its own, those that are not UTF-8 lossily
and marked, and the seal over the exact bytes. -/

namespace DeepDiffForge.Patch
open Text DeepDiffForge.Core Markers Fallible

structure DecodedPatch where
  text : Str
  byteLen : Nat
  lossyLines : List Nat
  deriving DecidableEq

/-- The numbers of the lines that are not UTF-8, the first line's number being `index + 1`. -/
def badLines (index : Nat) (lines : List (List UInt8)) : List Nat :=
  (lines.zipIdx index).filterMap fun line =>
    if (Utf8.decode line.1).isSome then none else some (line.2 + 1)

def decodePatch (bytes : List UInt8) : DecodedPatch :=
  match Utf8.decode bytes with
  | some text => ⟨text, bytes.length, []⟩
  | none =>
      { text := (pieces 0x0A bytes).flatMap fun line => (Utf8.decode line).getD (Utf8.lossy line)
        byteLen := bytes.length
        lossyLines := badLines 0 (pieces 0x0A bytes) }

def parseDecoded (decoded : DecodedPatch) (options : ParseOptions) :
    Except PatchParseError (List ReviewFile) :=
  parseLines decoded.text decoded.byteLen decoded.lossyLines options

structure CapturedPatch where
  raw : Str
  bytes : Option (List UInt8)
  digest : Str
  files : List ReviewFile
  deriving DecidableEq

def capture (raw : Str) : Except PatchParseError CapturedPatch := do
  let files ← parse raw
  return { raw, bytes := none, digest := sha256Hex (Utf8.encode raw), files }

def captureBytes (bytes : List UInt8) : Except PatchParseError CapturedPatch :=
  match Utf8.decode bytes with
  | some raw => capture raw
  | none => do
      let decoded := decodePatch bytes
      let files ← parseDecoded decoded {}
      return { raw := decoded.text, bytes := some bytes, digest := sha256Hex bytes, files }

def pieceLine (piece : List UInt8) : InputLine where
  text := (Utf8.lossy piece).takeWhile (· ≠ '\n')
  lossy := (Utf8.decode piece).isNone
  terminated := piece.getLast? = some 0x0A

theorem lossy_ne_nil (bytes : List UInt8) (nonempty : bytes ≠ []) : Utf8.lossy bytes ≠ [] := by
  cases bytes with
  | nil => exact absurd rfl nonempty
  | cons a rest =>
    rw [Utf8.lossy, Utf8.chunks_cons]
    exact List.cons_ne_nil _ _

theorem flatMap_lossy (bytes : List UInt8) :
    (pieces 0x0A bytes).flatMap Utf8.lossy = Utf8.lossy bytes := by
  induction bytes using by_lines (0x0A : UInt8) with
  | empty => rfl
  | last line plain present => rw [pieces_last _ line plain present, List.flatMap_singleton]
  | line line rest plain ih =>
    rw [pieces_line _ line rest plain, List.flatMap_cons, ih, Utf8.lossy_append_lf,
      Utf8.lossy_append_lf, List.append_assoc, List.cons_append]
    rfl

theorem badLines_exact (bytes : List UInt8) (index : Nat)
    (given : (Utf8.decode bytes).isSome = true) : badLines index (pieces 0x0A bytes) = [] := by
  induction bytes using by_lines (0x0A : UInt8) generalizing index with
  | empty => rfl
  | last line plain present =>
    rw [pieces_last _ line plain present, badLines, List.zipIdx_singleton, List.filterMap_cons,
      if_pos given, List.filterMap_nil]
  | line line rest plain ih =>
    rw [Utf8.decode_append_lf, Bool.and_eq_true] at given
    have own : (Utf8.decode (line ++ [0x0A])).isSome = true := by
      rw [Utf8.decode_append_lf, given.1]
      rfl
    rw [pieces_line _ line rest plain, badLines, List.zipIdx_cons, List.filterMap_cons,
      if_pos own]
    exact ih (index + 1) given.2

/-- However the bytes are decoded, each line is read on its own. -/
theorem decodePatch_eq (bytes : List UInt8) :
    decodePatch bytes = ⟨Utf8.lossy bytes, bytes.length, badLines 0 (pieces 0x0A bytes)⟩ := by
  unfold decodePatch
  cases read : Utf8.decode bytes with
  | some text =>
    rw [Utf8.lossy_decode bytes text read, badLines_exact bytes 0 (by rw [read]; rfl)]
  | none =>
    have each : (fun line => (Utf8.decode line).getD (Utf8.lossy line)) = Utf8.lossy := by
      funext line
      cases own : Utf8.decode line with
      | none => rfl
      | some text => exact (Utf8.lossy_decode line text own).symm
    rw [each, flatMap_lossy]

def byteLines (bytes : List UInt8) : List InputLine := (pieces 0x0A bytes).map pieceLine

theorem badLines_above (lines : List (List UInt8)) (index : Nat) :
    ∀ number ∈ badLines index lines, index < number := by
  induction lines generalizing index with
  | nil => simp [badLines]
  | cons line lines ih =>
    intro number listed
    rw [badLines, List.zipIdx_cons, List.filterMap_cons] at listed
    split at listed
    · exact Nat.lt_of_succ_lt (ih (index + 1) number listed)
    · rename_i found
      rcases List.mem_cons.1 listed with rfl | later
      · split_ifs at found
        obtain rfl := Option.some.inj found
        exact Nat.lt_succ_self index
      · exact Nat.lt_of_succ_lt (ih (index + 1) number later)

/-- The number of the last line of a text, when that line has no line feed. -/
def lastOpen (index : Nat) (text : Str) : Option Nat :=
  if unterminated text then some (index + (splitLines text).length) else none

theorem lossy_line (line : List UInt8) :
    Utf8.lossy (line ++ [0x0A]) = Utf8.lossy line ++ ['\n'] :=
  Utf8.lossy_append_lf line []

theorem pieceLine_line (line : List UInt8) (plain : 0x0A ∉ line) :
    pieceLine (line ++ [0x0A]) =
      { text := Utf8.lossy line, lossy := (Utf8.decode (line ++ [0x0A])).isNone } := by
  have text : (Utf8.lossy (line ++ [0x0A])).takeWhile (· ≠ '\n') = Utf8.lossy line := by
    rw [lossy_line line, List.takeWhile_append_of_pos, List.takeWhile_cons_of_neg,
      List.append_nil]
    · simp
    · intro c listed
      exact decide_eq_true fun same => Utf8.plain_lossy line plain (same ▸ listed)
  rw [pieceLine, text]
  simp

theorem pieceLine_last (line : List UInt8) (plain : 0x0A ∉ line) :
    pieceLine line =
      { text := Utf8.lossy line, lossy := (Utf8.decode line).isNone, terminated := false } := by
  have text : (Utf8.lossy line).takeWhile (· ≠ '\n') = Utf8.lossy line :=
    List.takeWhile_eq_self_iff.2 fun c listed =>
      decide_eq_true fun same => Utf8.plain_lossy line plain (same ▸ listed)
  have unended : line.getLast? ≠ some 0x0A := fun last => plain (List.mem_of_getLast? last)
  rw [pieceLine, text]
  simp [unended]

theorem badLines_cons (line : List UInt8) (lines : List (List UInt8)) (index : Nat) :
    badLines index (line :: lines) =
      (if (Utf8.decode line).isSome then [] else [index + 1]) ++ badLines (index + 1) lines := by
  rw [badLines, List.zipIdx_cons, List.filterMap_cons]
  split_ifs <;> rfl

theorem inputLines_step (text : Str) (lines : List Str) (index : Nat) (valid : Bool)
    (later : List Nat) (above : ∀ number ∈ later, index + 1 < number) (last : Option Nat) :
    inputLines (text :: lines) index ((if valid then [] else [index + 1]) ++ later) last =
      { text, lossy := !valid, terminated := last ≠ some (index + 1) } ::
        inputLines lines (index + 1) later last := by
  cases valid with
  | false => simp [inputLines]
  | true =>
    have other : later.head? ≠ some (index + 1) := fun head =>
      Nat.lt_irrefl _ (above _ (List.mem_of_head? head))
    simp [inputLines, other]

theorem lastOpen_line (text rest : Str) (index : Nat) (plain : '\n' ∉ text) :
    lastOpen index (text ++ '\n' :: rest) = lastOpen (index + 1) rest ∧
      lastOpen (index + 1) rest ≠ some (index + 1) := by
  have ends : unterminated (text ++ '\n' :: rest) = unterminated rest := by
    cases rest with
    | nil => simp [unterminated]
    | cons c rest =>
      rw [unterminated, unterminated, List.append_cons,
        List.getLast?_append_of_ne_nil _ (List.cons_ne_nil _ _)]
      simp
  constructor
  · rw [lastOpen, lastOpen, ends, splitLines_line text rest plain, List.length_cons]
    simp only [Nat.add_assoc, Nat.add_comm 1]
  · rw [lastOpen]
    split_ifs with opened
    · intro same
      have hollow := Option.some.inj same
      have empty : splitLines rest = [] := List.length_eq_zero_iff.1 (by omega)
      have whole := unlines_splitLines rest
      rw [empty, if_pos opened] at whole
      exact absurd whole.symm (by simp [unlines])
    · intro same
      cases same

theorem inputLines_bytes (bytes : List UInt8) (index : Nat) :
    inputLines (splitLines (Utf8.lossy bytes)) index (badLines index (pieces 0x0A bytes))
      (lastOpen index (Utf8.lossy bytes)) = byteLines bytes := by
  have negated (line : List UInt8) : (!(Utf8.decode line).isSome) = (Utf8.decode line).isNone := by
    cases Utf8.decode line <;> rfl
  induction bytes using by_lines (0x0A : UInt8) generalizing index with
  | empty => rfl
  | last line plain present =>
    have text := Utf8.plain_lossy line plain
    have filled := lossy_ne_nil line present
    have unended : unterminated (Utf8.lossy line) = true := by
      have absent : (Utf8.lossy line).getLast? ≠ some '\n' := fun last =>
        text (List.mem_of_getLast? last)
      simp [unterminated, filled, absent]
    rw [splitLines_last _ text filled, pieces_last _ line plain present, badLines_cons,
      inputLines_step _ _ _ _ _ (by simp [badLines]), lastOpen, unended,
      splitLines_last _ text filled, byteLines, pieces_last _ line plain present, List.map_singleton,
      pieceLine_last line plain, negated]
    simp [inputLines]
  | line line rest plain ih =>
    have text := Utf8.plain_lossy line plain
    obtain ⟨same, apart⟩ := lastOpen_line (Utf8.lossy line) (Utf8.lossy rest) index text
    rw [Utf8.lossy_append_lf, splitLines_line _ _ text, pieces_line _ line rest plain, badLines_cons,
      inputLines_step _ _ _ _ _ (badLines_above _ _), same, ih (index + 1), byteLines, byteLines,
      pieces_line _ line rest plain, List.map_cons, pieceLine_line line plain, negated]
    simp [apart]

/-- The parser reads captured bytes line by line. -/
theorem captured_lines (bytes : List UInt8) :
    documentLines (decodePatch bytes).text (decodePatch bytes).lossyLines = byteLines bytes := by
  rw [decodePatch_eq, ← inputLines_bytes bytes 0, documentLines, lastOpen, Nat.zero_add]

theorem length_documentLines (input : Str) (lossy : List Nat) :
    (documentLines input lossy).length = (splitLines input).length := by
  rw [← inputLines_text (splitLines input) 0 lossy, List.length_map]
  rfl

theorem retained_files (parsed : Except PatchParseError (List ReviewFile))
    (retain : List ReviewFile → CapturedPatch) (kept : ∀ files, (retain files).files = files)
    (files : List ReviewFile) :
    (∃ captured, (parsed >>= fun files => .ok (retain files)) = .ok captured ∧
      captured.files = files) ↔ parsed = .ok files := by
  constructor
  · rintro ⟨captured, taken, rfl⟩
    obtain ⟨found, read, taken⟩ := (bind_eq_ok _ _ _).1 taken
    rw [← Except.ok.inj taken, kept]
    exact read
  · rintro rfl
    exact ⟨retain files, rfl, kept files⟩

/-- What a capture of some bytes accepts, whether they are UTF-8 or not. -/
theorem captureBytes_files (bytes : List UInt8) (files : List ReviewFile) :
    (∃ captured, captureBytes bytes = .ok captured ∧ captured.files = files) ↔
      bytes.length ≤ defaultByteBudget ∧ (byteLines bytes).length ≤ defaultLineBudget ∧
        ∃ doc, Document.Grown (byteLines bytes) doc ∧ doc.files = some files := by
  have parsed : (∃ captured, captureBytes bytes = .ok captured ∧ captured.files = files) ↔
      parseLines (decodePatch bytes).text bytes.length (decodePatch bytes).lossyLines {} =
        .ok files := by
    unfold captureBytes
    cases read : Utf8.decode bytes with
    | none =>
      have length : (decodePatch bytes).byteLen = bytes.length := by rw [decodePatch_eq]
      rw [← length]
      exact retained_files _ _ (fun _ => rfl) files
    | some raw =>
      have whole : decodePatch bytes = ⟨raw, bytes.length, []⟩ := by
        unfold decodePatch
        rw [read]
      rw [whole, ← Utf8.encode_decode bytes raw read]
      exact retained_files _ _ (fun _ => rfl) files
  rw [parsed, parseLines_eq_ok, ← captured_lines bytes, length_documentLines]

end DeepDiffForge.Patch
