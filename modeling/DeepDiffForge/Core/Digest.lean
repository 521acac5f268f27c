import DeepDiffForge.Core.Seal

/-! SHA-256 on numbers, each word made before the next is begun: the same digest, evaluated in far
fewer steps. -/

namespace DeepDiffForge.Core
open Text

/-- A value at a number that is evaluated first. -/
def force {α : Type} (n : Nat) (value : Nat → α) : α :=
  match n with
  | 0 => value 0
  | m + 1 => value (m + 1)

theorem force_eq {α : Type} (n : Nat) (value : Nat → α) : force n value = value n := by
  cases n <;> rfl

def forceAll {α : Type} : List Nat → (List Nat → α) → α
  | [], value => value []
  | n :: rest, value => force n fun n => forceAll rest fun rest => value (n :: rest)

theorem forceAll_eq {α : Type} (ns : List Nat) (value : List Nat → α) :
    forceAll ns value = value ns := by
  induction ns generalizing value with
  | nil => rfl
  | cons n rest ih => rw [forceAll, force_eq, ih]

def rotateNumber (word count : Nat) : Nat := (word >>> count) ||| (word <<< (32 - count)) % 2 ^ 32

structure Numbers where
  a : Nat
  b : Nat
  c : Nat
  d : Nat
  e : Nat
  f : Nat
  g : Nat
  h : Nat

def HashState.numbers (v : HashState) : Numbers :=
  ⟨v.a.toNat, v.b.toNat, v.c.toNat, v.d.toNat, v.e.toNat, v.f.toNat, v.g.toNat, v.h.toNat⟩

def scheduleNumbers : Nat → List Nat → List Nat
  | 0, w => w
  | count + 1, w =>
      let s0 := rotateNumber (w.getD 14 0) 7 ^^^ rotateNumber (w.getD 14 0) 18 ^^^ w.getD 14 0 >>> 3
      let s1 := rotateNumber (w.getD 1 0) 17 ^^^ rotateNumber (w.getD 1 0) 19 ^^^ w.getD 1 0 >>> 10
      force ((w.getD 15 0 + s0 + w.getD 6 0 + s1) % 2 ^ 32) fun word =>
        scheduleNumbers count (word :: w)

def roundNumbers : List (Nat × Nat) → Numbers → Numbers
  | [], v => v
  | (roundK, roundW) :: rest, ⟨a, b, c, d, e, f, g, h⟩ =>
      let bigS1 := rotateNumber e 6 ^^^ rotateNumber e 11 ^^^ rotateNumber e 25
      let ch := (e &&& f) ^^^ ((2 ^ 32 - 1 - e) &&& g)
      let t1 := h + bigS1 + ch + roundK + roundW
      let bigS0 := rotateNumber a 2 ^^^ rotateNumber a 13 ^^^ rotateNumber a 22
      let maj := (a &&& b) ^^^ (a &&& c) ^^^ (b &&& c)
      force ((t1 + (bigS0 + maj)) % 2 ^ 32) fun a' => force ((d + t1) % 2 ^ 32) fun e' =>
        roundNumbers rest ⟨a', a, b, c, e', e, f, g⟩

def chunkNumbers (size : Nat) : Nat → List Nat → List (List Nat)
  | 0, _ => []
  | count + 1, bytes => bytes.take size :: chunkNumbers size count (bytes.drop size)

def numberOf (bytes : List Nat) : Nat :=
  bytes.foldl (fun word byte => (word <<< 8) % 2 ^ 32 ||| byte) 0

def constantNumbers : List Nat := roundConstants.map UInt32.toNat

def compressNumbers (s : Numbers) (block : List Nat) : Numbers :=
  forceAll ((chunkNumbers 4 16 block).map numberOf) fun block =>
  let w := (scheduleNumbers 48 block.reverse).reverse
  let v := roundNumbers (constantNumbers.zip w) s
  force ((s.a + v.a) % 2 ^ 32) fun a => force ((s.b + v.b) % 2 ^ 32) fun b =>
  force ((s.c + v.c) % 2 ^ 32) fun c => force ((s.d + v.d) % 2 ^ 32) fun d =>
  force ((s.e + v.e) % 2 ^ 32) fun e => force ((s.f + v.f) % 2 ^ 32) fun f =>
  force ((s.g + v.g) % 2 ^ 32) fun g => force ((s.h + v.h) % 2 ^ 32) fun h =>
    ⟨a, b, c, d, e, f, g, h⟩

def hexNumber (word : Nat) : Str :=
  [24, 16, 8, 0].flatMap fun place =>
    [Nat.digitChar (word >>> place % 256 / 16), Nat.digitChar (word >>> place % 256 % 16)]

def digestHex (bytes : List UInt8) : Str :=
  forceAll (bytes.map UInt8.toNat) fun bytes =>
  let full := bytes.length / 64
  let rem := bytes.drop (full * 64)
  let tailLen := if rem.length < 56 then 64 else 128
  let bitLen := bytes.length * 8 % 2 ^ 64
  let tail := rem ++ 0x80 :: List.replicate (tailLen - 9 - rem.length) 0 ++
    (beBytes (UInt32.ofNat (bitLen / 2 ^ 32)) ++ beBytes (UInt32.ofNat bitLen)).map UInt8.toNat
  let v := (chunkNumbers 64 full bytes ++ chunkNumbers 64 (tailLen / 64) tail).foldl
    compressNumbers initialHash.numbers
  [v.a, v.b, v.c, v.d, v.e, v.f, v.g, v.h].flatMap hexNumber

theorem rotateRight_toNat (word : UInt32) (count : Nat) (positive : 0 < count) (less : count < 32) :
    (rotateRight word (UInt32.ofNat count)).toNat = rotateNumber word.toNat count := by
  have small : count % 2 ^ 32 % 32 = count := by omega
  have rest : ((32 : UInt32) - UInt32.ofNat count).toNat % 32 = 32 - count := by
    rw [UInt32.toNat_sub, UInt32.toNat_ofNat']
    change (2 ^ 32 - count % 2 ^ 32 + 32) % 2 ^ 32 % 32 = _
    omega
  rw [rotateRight, UInt32.toNat_or, UInt32.toNat_shiftRight, UInt32.toNat_shiftLeft, rest,
    UInt32.toNat_ofNat', small, rotateNumber]

theorem back_toNat (w : List UInt32) (n : Nat) (within : n < w.length) :
    (w.map UInt32.toNat).reverse.getD n 0 = (w.getD (w.length - (n + 1)) 0).toNat := by
  rw [List.getD_eq_getElem?_getD, List.getD_eq_getElem?_getD,
    List.getElem?_reverse (by rw [List.length_map]; exact within), List.length_map,
    List.getElem?_map, List.getElem?_eq_getElem (by omega)]
  have place : w.length - (n + 1) = w.length - 1 - n := by omega
  rw [place, List.getElem?_eq_getElem (by omega)]
  rfl

theorem schedule_numbers (count : Nat) (w : List UInt32) (long : 16 ≤ w.length) :
    scheduleNumbers count (w.map UInt32.toNat).reverse =
      ((schedule count w).map UInt32.toNat).reverse := by
  induction count generalizing w with
  | zero => rfl
  | succ count ih =>
    rw [scheduleNumbers, schedule]
    dsimp only
    rw [force_eq, ← ih _ (by rw [List.length_append]; omega), List.map_append, List.reverse_append]
    rw [back_toNat w 14 (by omega), back_toNat w 1 (by omega), back_toNat w 15 (by omega),
      back_toNat w 6 (by omega)]
    congr 1
    change _ :: _ = _ :: _
    congr 1
    simp only [← rotateRight_toNat _ 7 (by decide) (by decide),
      ← rotateRight_toNat _ 18 (by decide) (by decide),
      ← rotateRight_toNat _ 17 (by decide) (by decide),
      ← rotateRight_toNat _ 19 (by decide) (by decide)]
    simp [UInt32.toNat_add, UInt32.toNat_xor, UInt32.toNat_shiftRight]

theorem round_numbers (steps : List (UInt32 × UInt32)) (v : HashState) :
    roundNumbers (steps.map fun step => (step.1.toNat, step.2.toNat)) v.numbers =
      (steps.foldl (fun v step => v.round step.1 step.2) v).numbers := by
  induction steps generalizing v with
  | nil => rfl
  | cons step steps ih =>
    rw [List.map_cons, List.foldl_cons, ← ih, HashState.numbers, roundNumbers]
    rw [force_eq, force_eq, HashState.round, HashState.numbers]
    simp only [← rotateRight_toNat _ 6 (by decide) (by decide),
      ← rotateRight_toNat _ 11 (by decide) (by decide),
      ← rotateRight_toNat _ 25 (by decide) (by decide),
      ← rotateRight_toNat _ 2 (by decide) (by decide),
      ← rotateRight_toNat _ 13 (by decide) (by decide),
      ← rotateRight_toNat _ 22 (by decide) (by decide)]
    congr 2
    · simp [UInt32.toNat_add, UInt32.toNat_xor]
    · simp [UInt32.toNat_add, UInt32.toNat_xor]

theorem beWord_toNat (bytes : List UInt8) :
    (beWord bytes).toNat = numberOf (bytes.map UInt8.toNat) := by
  have folded (word : UInt32) :
      (bytes.foldl (fun (word : UInt32) byte => (word <<< 8) ||| byte.toUInt32) word).toNat =
        (bytes.map UInt8.toNat).foldl (fun word byte => (word <<< 8) % 2 ^ 32 ||| byte)
          word.toNat := by
    induction bytes generalizing word with
    | nil => rfl
    | cons byte bytes ih =>
      rw [List.foldl_cons, List.map_cons, List.foldl_cons, ih]
      congr 1
  exact folded 0

theorem chunks_numbers (size count : Nat) (bytes : List UInt8) :
    chunkNumbers size count (bytes.map UInt8.toNat) =
      (chunks size count bytes).map fun chunk => chunk.map UInt8.toNat := by
  induction count generalizing bytes with
  | zero => rfl
  | succ count ih =>
    rw [chunkNumbers, chunks, List.map_cons, ← List.map_take, ← List.map_drop, ih]

theorem compress_numbers (state : HashState) (block : List UInt8) :
    compressNumbers state.numbers (block.map UInt8.toNat) = (compress state block).numbers := by
  have words : (chunkNumbers 4 16 (block.map UInt8.toNat)).map numberOf =
      ((chunks 4 16 block).map beWord).map UInt32.toNat := by
    rw [chunks_numbers, List.map_map, List.map_map]
    exact List.map_congr_left fun bytes _ => (beWord_toNat bytes).symm
  have long : 16 ≤ ((chunks 4 16 block).map beWord).length := by
    rw [List.length_map, length_chunks]
  have zipped (w : List UInt32) : constantNumbers.zip (w.map UInt32.toNat) =
      (roundConstants.zip w).map fun step => (step.1.toNat, step.2.toNat) := by
    rw [constantNumbers, List.zip_map]
    rfl
  rw [compressNumbers]
  simp only [force_eq, forceAll_eq]
  rw [words, schedule_numbers 48 _ long, List.reverse_reverse, zipped, round_numbers, compress,
    HashState.numbers, HashState.numbers]
  simp only [UInt32.toNat_add, HashState.numbers]

theorem hexNumber_toNat (word : UInt32) :
    hexNumber word.toNat = (beBytes word).flatMap hexByte := by
  simp [hexNumber, beBytes, hexByte]

theorem sha256Hex_eq (bytes : List UInt8) : sha256Hex bytes = digestHex bytes := by
  have folded (blocks : List (List UInt8)) (state : HashState) :
      (blocks.map fun block => block.map UInt8.toNat).foldl compressNumbers state.numbers =
        (blocks.foldl compress state).numbers := by
    induction blocks generalizing state with
    | nil => rfl
    | cons block blocks ih =>
      rw [List.map_cons, List.foldl_cons, List.foldl_cons, compress_numbers, ih]
  have padded (rem : List UInt8) (zeros : Nat) (length : List UInt8) :
      rem.map UInt8.toNat ++ 0x80 :: List.replicate zeros 0 ++ length.map UInt8.toNat =
        (rem ++ 0x80 :: List.replicate zeros 0 ++ length).map UInt8.toNat := by
    rw [List.map_append, List.map_append, List.map_cons, List.map_replicate]
    rfl
  rw [sha256Hex, sha256, digestHex, forceAll_eq]
  simp only [List.length_map, ← List.map_drop, padded, chunks_numbers, ← List.map_append, folded]
  simp only [HashState.numbers, List.flatMap_cons, List.flatMap_nil, hexNumber_toNat,
    List.flatMap_append, List.append_assoc]

example : (digestHex []).take 8 = "e3b0c442".toList := by decide +kernel

end DeepDiffForge.Core
