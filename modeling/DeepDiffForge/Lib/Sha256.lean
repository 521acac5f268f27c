import Mathlib.Data.List.Basic
import Mathlib.Data.Nat.NthRoot.Defs
import Mathlib.Data.Nat.Prime.Defs

/-! SHA-256 as FIPS 180-4 defines it, for messages of whole bytes. -/

namespace DeepDiffForge.Fips

abbrev Byte := BitVec 8

abbrev Word := BitVec 32

def ch (x y z : Word) : Word := (x &&& y) ^^^ (~~~x &&& z)

def maj (x y z : Word) : Word := (x &&& y) ^^^ (x &&& z) ^^^ (y &&& z)

def bigSigma0 (x : Word) : Word := x.rotateRight 2 ^^^ x.rotateRight 13 ^^^ x.rotateRight 22

def bigSigma1 (x : Word) : Word := x.rotateRight 6 ^^^ x.rotateRight 11 ^^^ x.rotateRight 25

def smallSigma0 (x : Word) : Word := x.rotateRight 7 ^^^ x.rotateRight 18 ^^^ x >>> 3

def smallSigma1 (x : Word) : Word := x.rotateRight 17 ^^^ x.rotateRight 19 ^^^ x >>> 10

def primes : List Nat := (List.range 312).filter Nat.Prime

/-- The first 32 bits of the fractional part of a root of a prime. -/
def rootBits (degree t : Nat) : Nat :=
  Nat.nthRoot degree (primes.getD t 0 * 2 ^ (32 * degree)) % 2 ^ 32

/-- The constant of round `t`: cube roots of the primes. -/
def roundConstant (t : Nat) : Word := BitVec.ofNat 32 (rootBits 3 t)

structure Working where
  a : Word
  b : Word
  c : Word
  d : Word
  e : Word
  f : Word
  g : Word
  h : Word
  deriving DecidableEq

def initial : Working :=
  let bits (t : Nat) : Word := BitVec.ofNat 32 (rootBits 2 t)
  ⟨bits 0, bits 1, bits 2, bits 3, bits 4, bits 5, bits 6, bits 7⟩

def zeros (length : Nat) : Nat := (119 - length % 64) % 64

def bigEndian (number : BitVec 64) : List Byte :=
  (List.range 8).map fun i => number.extractLsb' (8 * (7 - i)) 8

def pad (message : List Byte) : List Byte :=
  message ++ 0x80#8 :: List.replicate (zeros message.length) 0#8 ++
    bigEndian (BitVec.ofNat 64 (8 * message.length))

def wordAt (padded : List Byte) (k : Nat) : Word :=
  padded.getD k 0 ++ padded.getD (k + 1) 0 ++ padded.getD (k + 2) 0 ++ padded.getD (k + 3) 0

def schedule (block : Nat → Word) (t : Nat) : Word :=
  if t < 16 then block t
  else
    smallSigma1 (schedule block (t - 2)) + schedule block (t - 7) +
      smallSigma0 (schedule block (t - 15)) + schedule block (t - 16)

def round (k w : Word) (v : Working) : Working :=
  let t1 := v.h + bigSigma1 v.e + ch v.e v.f v.g + k + w
  let t2 := bigSigma0 v.a + maj v.a v.b v.c
  { h := v.g, g := v.f, f := v.e, e := v.d + t1, d := v.c, c := v.b, b := v.a, a := t1 + t2 }

/-- The working variables after the rounds below `t`. -/
def rounds (block : Nat → Word) (hash : Working) : Nat → Working
  | 0 => hash
  | t + 1 => round (roundConstant t) (schedule block t) (rounds block hash t)

def hashBlock (hash : Working) (block : Nat → Word) : Working :=
  let v := rounds block hash 64
  { a := v.a + hash.a, b := v.b + hash.b, c := v.c + hash.c, d := v.d + hash.d,
    e := v.e + hash.e, f := v.f + hash.f, g := v.g + hash.g, h := v.h + hash.h }

/-- The hash value after the blocks below `i` of a padded message. -/
def hashAfter (padded : List Byte) : Nat → Working
  | 0 => initial
  | i + 1 => hashBlock (hashAfter padded i) fun j => wordAt padded (64 * i + 4 * j)

def wordBytes (x : Word) : List Byte :=
  [x.extractLsb' 24 8, x.extractLsb' 16 8, x.extractLsb' 8 8, x.extractLsb' 0 8]

def sha256 (message : List Byte) : List Byte :=
  let padded := pad message
  let v := hashAfter padded (padded.length / 64)
  [v.a, v.b, v.c, v.d, v.e, v.f, v.g, v.h].flatMap wordBytes

theorem schedule_first (block : Nat → Word) (t : Nat) (first : t < 16) :
    schedule block t = block t := by
  rw [schedule, if_pos first]

theorem schedule_later (block : Nat → Word) (t : Nat) :
    schedule block (t + 16) = smallSigma1 (schedule block (t + 14)) + schedule block (t + 9) +
      smallSigma0 (schedule block (t + 1)) + schedule block t := by
  rw [schedule, if_neg (by omega)]
  rfl

theorem schedule_congr (one two : Nat → Word) (same : ∀ t < 16, one t = two t) (t : Nat) :
    schedule one t = schedule two t := by
  induction t using Nat.strong_induction_on with
  | _ t ih =>
    by_cases first : t < 16
    · rw [schedule_first one t first, schedule_first two t first, same t first]
    · obtain ⟨k, rfl⟩ := Nat.exists_eq_add_of_le' (Nat.not_lt.1 first)
      rw [schedule_later, schedule_later, ih _ (by omega), ih _ (by omega), ih _ (by omega),
        ih _ (by omega)]

theorem rounds_range (block : Nat → Word) (hash : Working) (count : Nat) :
    rounds block hash count = (List.range count).foldl
      (fun v t => round (roundConstant t) (schedule block t) v) hash := by
  induction count with
  | zero => rfl
  | succ count ih => rw [rounds, List.range_succ, List.foldl_append, ih]; rfl

theorem hashBlock_congr (hash : Working) (one two : Nat → Word)
    (same : ∀ t < 16, one t = two t) : hashBlock hash one = hashBlock hash two := by
  have scheduled : schedule one = schedule two := funext (schedule_congr one two same)
  rw [hashBlock, hashBlock, rounds_range, rounds_range, scheduled]

end DeepDiffForge.Fips
