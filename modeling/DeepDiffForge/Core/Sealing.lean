import DeepDiffForge.Core.Seal
import DeepDiffForge.Lib.Sha256

/-! The digest as the code computes it, on fixed arrays: the working variables rotated in place, and
a tail of two blocks for the padding. -/

namespace DeepDiffForge.Core.Sealing

/-- `slice::rotate_right`. -/
def rotateSlice {α : Type} {n : Nat} (v : Vector α n) (places : Nat) : Vector α n :=
  Vector.ofFn fun i =>
    have bound := Nat.mod_lt (i.val + (n - places % n)) (Nat.lt_of_le_of_lt (Nat.zero_le _) i.isLt)
    v[(i.val + (n - places % n)) % n]

/-- `slice::as_chunks`: the whole pieces, and the rest. -/
def asChunks (size : Nat) (bytes : List UInt8) : List (List UInt8) × List UInt8 :=
  (chunks size (bytes.length / size) bytes, bytes.drop (bytes.length / size * size))

/-- `copy_from_slice` into the buffer from a place on. -/
def copyAt (buffer : List UInt8) (place : Nat) (source : List UInt8) : List UInt8 :=
  buffer.take place ++ source ++ buffer.drop (place + source.length)

/-- `u64::to_be_bytes`. -/
def toBeBytes (number : UInt64) : List UInt8 :=
  (List.range 8).map fun i => (number >>> UInt64.ofNat (8 * (7 - i))).toUInt8

def h0 : Vector UInt32 8 :=
  #v[0x6a09e667, 0xbb67ae85, 0x3c6ef372, 0xa54ff53a, 0x510e527f, 0x9b05688c, 0x1f83d9ab, 0x5be0cd19]

def firstWords (block : List UInt8) : Vector UInt32 64 :=
  (asChunks 4 block).1.zipIdx.foldl (fun w word => w.setIfInBounds word.2 (beWord word.1))
    (Vector.replicate 64 0)

def extendWord (w : Vector UInt32 64) (i : Nat) (later : 16 ≤ i) (below : i < 64) :
    Vector UInt32 64 :=
  let s0 := rotateRight w[i - 15] 7 ^^^ rotateRight w[i - 15] 18 ^^^ (w[i - 15] >>> 3)
  let s1 := rotateRight w[i - 2] 17 ^^^ rotateRight w[i - 2] 19 ^^^ (w[i - 2] >>> 10)
  w.set i (w[i - 16] + s0 + w[i - 7] + s1)

def schedule (block : List UInt8) : Vector UInt32 64 :=
  Fin.foldl 48 (fun w i => extendWord w (16 + i) (by omega) (by omega)) (firstWords block)

def roundStep (v : Vector UInt32 8) (step : UInt32 × UInt32) : Vector UInt32 8 :=
  let bigS1 := rotateRight v[4] 6 ^^^ rotateRight v[4] 11 ^^^ rotateRight v[4] 25
  let ch := (v[4] &&& v[5]) ^^^ (~~~v[4] &&& v[6])
  let t1 := v[7] + bigS1 + ch + step.1 + step.2
  let bigS0 := rotateRight v[0] 2 ^^^ rotateRight v[0] 13 ^^^ rotateRight v[0] 22
  let maj := (v[0] &&& v[1]) ^^^ (v[0] &&& v[2]) ^^^ (v[1] &&& v[2])
  let t2 := bigS0 + maj
  let v := rotateSlice v 1
  let v := v.set 4 (v[4] + t1)
  v.set 0 (t1 + t2)

/-- One SHA-256 compression step over a 64-byte `block`. -/
def compress (state : Vector UInt32 8) (block : List UInt8) : Vector UInt32 8 :=
  let v := (roundConstants.zip (schedule block).toList).foldl roundStep state
  Vector.zipWith (· + ·) state v

/-- The length in bits: `u64::try_from(len).unwrap_or(u64::MAX).wrapping_shl(3)`. -/
def bitLen (length : Nat) : UInt64 :=
  (if length < 2 ^ 64 then UInt64.ofNat length else 0xffffffffffffffff) <<< 3

/-- The padding buffer over the rest of the message, up to its length. -/
def paddedTail (rem : List UInt8) (length : Nat) : List UInt8 :=
  let tail := List.replicate 128 0
  let tail := copyAt tail 0 rem
  let tail := tail.set rem.length 0x80
  let tailLen := if rem.length < 56 then 64 else 128
  let tail := copyAt tail (tailLen - 8) (toBeBytes (bitLen length))
  tail.take tailLen

/-- SHA-256 digest of `bytes`. -/
def sha256 (bytes : List UInt8) : List UInt8 :=
  let (blocks, rem) := asChunks 64 bytes
  let state := blocks.foldl compress h0
  let state := (asChunks 64 (paddedTail rem bytes.length)).1.foldl compress state
  state.toList.flatMap beBytes

def working (v : Vector UInt32 8) : Fips.Working :=
  ⟨v[0].toBitVec, v[1].toBitVec, v[2].toBitVec, v[3].toBitVec, v[4].toBitVec, v[5].toBitVec,
    v[6].toBitVec, v[7].toBitVec⟩

end DeepDiffForge.Core.Sealing
