import DeepDiffForge.Core.Review
import DeepDiffForge.Lib.Json

/-! Input sealing: SHA-256, the seal of a document, and the address of a hunk. -/

namespace DeepDiffForge.Core
open Text

def roundConstants : List UInt32 := [
  0x428a2f98, 0x71374491, 0xb5c0fbcf, 0xe9b5dba5, 0x3956c25b, 0x59f111f1, 0x923f82a4, 0xab1c5ed5,
  0xd807aa98, 0x12835b01, 0x243185be, 0x550c7dc3, 0x72be5d74, 0x80deb1fe, 0x9bdc06a7, 0xc19bf174,
  0xe49b69c1, 0xefbe4786, 0x0fc19dc6, 0x240ca1cc, 0x2de92c6f, 0x4a7484aa, 0x5cb0a9dc, 0x76f988da,
  0x983e5152, 0xa831c66d, 0xb00327c8, 0xbf597fc7, 0xc6e00bf3, 0xd5a79147, 0x06ca6351, 0x14292967,
  0x27b70a85, 0x2e1b2138, 0x4d2c6dfc, 0x53380d13, 0x650a7354, 0x766a0abb, 0x81c2c92e, 0x92722c85,
  0xa2bfe8a1, 0xa81a664b, 0xc24b8b70, 0xc76c51a3, 0xd192e819, 0xd6990624, 0xf40e3585, 0x106aa070,
  0x19a4c116, 0x1e376c08, 0x2748774c, 0x34b0bcb5, 0x391c0cb3, 0x4ed8aa4a, 0x5b9cca4f, 0x682e6ff3,
  0x748f82ee, 0x78a5636f, 0x84c87814, 0x8cc70208, 0x90befffa, 0xa4506ceb, 0xbef9a3f7, 0xc67178f2]

structure HashState where
  a : UInt32
  b : UInt32
  c : UInt32
  d : UInt32
  e : UInt32
  f : UInt32
  g : UInt32
  h : UInt32

def initialHash : HashState where
  a := 0x6a09e667
  b := 0xbb67ae85
  c := 0x3c6ef372
  d := 0xa54ff53a
  e := 0x510e527f
  f := 0x9b05688c
  g := 0x1f83d9ab
  h := 0x5be0cd19

def rotateRight (word count : UInt32) : UInt32 := (word >>> count) ||| (word <<< (32 - count))

def beWord (bytes : List UInt8) : UInt32 :=
  bytes.foldl (fun word byte => (word <<< 8) ||| byte.toUInt32) 0

def beBytes (word : UInt32) : List UInt8 :=
  [(word >>> 24).toUInt8, (word >>> 16).toUInt8, (word >>> 8).toUInt8, word.toUInt8]

/-- The pieces of `size` bytes the input begins with, `count` of them. -/
def chunks (size : Nat) : Nat → List UInt8 → List (List UInt8)
  | 0, _ => []
  | count + 1, bytes => bytes.take size :: chunks size count (bytes.drop size)

theorem chunks_range (size count : Nat) (bytes : List UInt8) :
    chunks size count bytes =
      (List.range count).map fun i => (bytes.drop (i * size)).take size := by
  induction count generalizing bytes with
  | zero => rfl
  | succ count ih =>
    rw [chunks, ih, List.range_succ_eq_map, List.map_cons, List.map_map, Nat.zero_mul,
      List.drop_zero]
    congr 1
    apply List.map_congr_left
    intro i _
    rw [Function.comp_apply, List.drop_drop, Nat.succ_mul, Nat.add_comm]

theorem length_chunks (size count : Nat) (bytes : List UInt8) :
    (chunks size count bytes).length = count := by
  rw [chunks_range, List.length_map, List.length_range]

/-- The message schedule from its first words on, `count` words longer. -/
def schedule : Nat → List UInt32 → List UInt32
  | 0, w => w
  | count + 1, w =>
      let back (n : Nat) : UInt32 := w.getD (w.length - n) 0
      let s0 := rotateRight (back 15) 7 ^^^ rotateRight (back 15) 18 ^^^ (back 15 >>> 3)
      let s1 := rotateRight (back 2) 17 ^^^ rotateRight (back 2) 19 ^^^ (back 2 >>> 10)
      schedule count (w ++ [back 16 + s0 + back 7 + s1])

def HashState.round (v : HashState) (roundK roundW : UInt32) : HashState :=
  let bigS1 := rotateRight v.e 6 ^^^ rotateRight v.e 11 ^^^ rotateRight v.e 25
  let ch := (v.e &&& v.f) ^^^ (~~~v.e &&& v.g)
  let t1 := v.h + bigS1 + ch + roundK + roundW
  let bigS0 := rotateRight v.a 2 ^^^ rotateRight v.a 13 ^^^ rotateRight v.a 22
  let maj := (v.a &&& v.b) ^^^ (v.a &&& v.c) ^^^ (v.b &&& v.c)
  let t2 := bigS0 + maj
  ⟨t1 + t2, v.a, v.b, v.c, v.d + t1, v.e, v.f, v.g⟩

/-- One SHA-256 compression step over a 64-byte `block`. -/
def compress (state : HashState) (block : List UInt8) : HashState :=
  let w := schedule 48 ((chunks 4 16 block).map beWord)
  let v := (roundConstants.zip w).foldl (fun v step => v.round step.1 step.2) state
  ⟨state.a + v.a, state.b + v.b, state.c + v.c, state.d + v.d,
    state.e + v.e, state.f + v.f, state.g + v.g, state.h + v.h⟩

/-- SHA-256 digest of `bytes`. -/
def sha256 (bytes : List UInt8) : List UInt8 :=
  let full := bytes.length / 64
  let rem := bytes.drop (full * 64)
  let tailLen := if rem.length < 56 then 64 else 128
  let bitLen := bytes.length * 8 % 2 ^ 64
  let tail := rem ++ 0x80 :: List.replicate (tailLen - 9 - rem.length) 0 ++
    beBytes (UInt32.ofNat (bitLen / 2 ^ 32)) ++ beBytes (UInt32.ofNat bitLen)
  let state := (chunks 64 full bytes ++ chunks 64 (tailLen / 64) tail).foldl compress initialHash
  [state.a, state.b, state.c, state.d, state.e, state.f, state.g, state.h].flatMap beBytes

def hexByte (byte : UInt8) : Str :=
  [Nat.digitChar (byte.toNat / 16), Nat.digitChar (byte.toNat % 16)]

/-- Lowercase hex SHA-256 of `bytes`. -/
def sha256Hex (bytes : List UInt8) : Str := (sha256 bytes).flatMap hexByte

theorem length_sha256Hex (bytes : List UInt8) : (sha256Hex bytes).length = 64 := rfl

structure InputSeal where
  inputSha256 : Str
  toolVersion : Str
  deriving DecidableEq, Repr

def toolName : Str := "deep-diff-forge".toList

def InputSeal.of (input : List UInt8) (toolVersion : Str) : InputSeal where
  inputSha256 := sha256Hex input
  toolVersion := toolVersion

theorem mem_sha256Hex (bytes : List UInt8) (c : Char) (listed : c ∈ sha256Hex bytes) :
    ∃ n < 16, c = Nat.digitChar n := by
  obtain ⟨byte, -, hex⟩ := List.mem_flatMap.1 listed
  have small : byte.toNat < 256 := byte.toNat_lt
  rcases List.mem_cons.1 hex with first | second
  · exact ⟨_, by omega, first⟩
  · exact ⟨_, by omega, List.mem_singleton.1 second⟩

theorem plain_sha256Hex (bytes : List UInt8) : ∀ c ∈ sha256Hex bytes, Json.plain c = true := by
  have every : ∀ n < 16, Json.plain (Nat.digitChar n) = true := by decide
  intro c listed
  obtain ⟨n, digit, rfl⟩ := mem_sha256Hex bytes c listed
  exact every n digit

/-- A character that is no hexadecimal digit is in no digest. -/
theorem sha256Hex_free (bytes : List UInt8) (c : Char) (other : ∀ n < 16, Nat.digitChar n ≠ c) :
    c ∉ sha256Hex bytes := by
  intro listed
  obtain ⟨n, digit, same⟩ := mem_sha256Hex bytes c listed
  exact other n digit same.symm

theorem sha256Hex_dotless (bytes : List UInt8) : '.' ∉ sha256Hex bytes :=
  sha256Hex_free bytes '.' (by decide)

def PatchLineKind.marker : PatchLineKind → Char
  | .context => ' '
  | .removed => '-'
  | .added => '+'

def PatchHunk.bodyBytes (hunk : PatchHunk) : Str :=
  hunk.lines.flatMap fun line =>
    line.kind.marker :: line.text ++ ['\n'] ++
      (if line.noNewline then "\\ No newline at end of file\n".toList else [])

def PatchHunk.address (hunk : PatchHunk) (path : Str) : Str :=
  let (oldCount, newCount) := hunk.counts
  let header := decimal (hunk.oldStart.getD 0) ++ ',' :: decimal oldCount ++ '\x00' ::
    decimal (hunk.newStart.getD 0) ++ ',' :: decimal newCount
  sha256Hex (Utf8.encode ("ddf-hunk-v1\x00".toList ++ path ++ '\x00' :: header ++ '\x00' ::
    hunk.bodyBytes))

end DeepDiffForge.Core

/-! ### A parsed patch and the seal over the exact bytes it was parsed from -/

namespace DeepDiffForge.Patch
open DeepDiffForge.Core

def hunkItems (hunks : List PatchHunk) : Nat :=
  hunks.foldr (fun hunk items => hunk.lines.length + 1 + items) 0

def reviewItems (files : List ReviewFile) : Nat :=
  files.foldr (fun file items => hunkItems file.patchTwin.hunks + 1 + items) 0

/-- Only the constructors of a review pair files with a seal, so the seal is one of the bytes,
and everything listed fits in memory. -/
structure SealedReview where
  files : List ReviewFile
  inputSeal : InputSeal
  origin : ∃ input version, inputSeal = InputSeal.of input version
  held : reviewItems files ≤ usizeMax

end DeepDiffForge.Patch
