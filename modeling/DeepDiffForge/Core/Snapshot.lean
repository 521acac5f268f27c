import DeepDiffForge.Core.Sealing
import DeepDiffForge.Lib.Frames
import Mathlib.Data.List.Sort

/-! The digest of the changed sources: their paths and bytes, each with its length before it. -/

namespace DeepDiffForge.Core
open Text Frames

structure ChangedSource where
  path : Str
  bytes : Option (List UInt8)
  sized : (Utf8.encode path).length < 2 ^ 64 ∧ ∀ held ∈ bytes, held.length < 2 ^ 64
  deriving DecidableEq

def frame (bytes : List UInt8) : List UInt8 :=
  Sealing.toBeBytes (UInt64.ofNat bytes.length) ++ bytes

def snapshotStart : List UInt8 := Utf8.encode "ddf.changed-source-snapshot.v1\x00".toList

def ChangedSource.framed (source : ChangedSource) : List UInt8 :=
  frame (Utf8.encode source.path) ++ source.bytes.elim [0] fun bytes => 1 :: frame bytes

def sortSources (sources : List ChangedSource) : List ChangedSource :=
  sources.mergeSort fun one two => decide (Utf8.encode one.path ≤ Utf8.encode two.path)

def snapshotBytes (sources : List ChangedSource) : List UInt8 :=
  snapshotStart ++ (sortSources sources).flatMap ChangedSource.framed

def changedSourceSnapshotId (sources : List ChangedSource) : Str :=
  sha256Hex (snapshotBytes sources)

theorem length_toBeBytes64 (number : UInt64) : (Sealing.toBeBytes number).length = 8 := rfl

theorem toBeBytes_injective (one two : UInt64)
    (same : Sealing.toBeBytes one = Sealing.toBeBytes two) : one = two := by
  have place (number : UInt64) (i : Nat) (inside : i < 8) :
      ((Sealing.toBeBytes number)[i]?.getD 0).toNat = number.toNat / 2 ^ (8 * (7 - i)) % 256 := by
    have width : 8 * (7 - i) < 64 := by omega
    rw [Sealing.toBeBytes, List.getElem?_map, List.getElem?_range inside, Option.map_some,
      Option.getD_some, UInt64.toNat_toUInt8, UInt64.toNat_shiftRight, UInt64.toNat_ofNat']
    rw [Nat.mod_eq_of_lt (show 8 * (7 - i) < 2 ^ 64 by omega), Nat.mod_eq_of_lt width,
      Nat.shiftRight_eq_div_pow]
  have byte (i : Nat) (inside : i < 8) :
      one.toNat / 2 ^ (8 * (7 - i)) % 256 = two.toNat / 2 ^ (8 * (7 - i)) % 256 := by
    rw [← place one i inside, ← place two i inside, same]
  -- From the front, each byte more leaves the numbers alike with one place less dropped.
  have front (count : Nat) (within : count ≤ 8) :
      one.toNat / 2 ^ (8 * (8 - count)) = two.toNat / 2 ^ (8 * (8 - count)) := by
    induction count with
    | zero => rw [Nat.div_eq_of_lt one.toNat_lt, Nat.div_eq_of_lt two.toNat_lt]
    | succ count ih =>
      have whole : 8 - count = 8 - (count + 1) + 1 := by omega
      have above := ih (Nat.le_of_succ_le within)
      have last := byte count within
      rw [whole, Nat.mul_succ, Nat.pow_add, ← Nat.div_div_eq_div_mul,
        ← Nat.div_div_eq_div_mul] at above
      have places : 7 - count = 8 - (count + 1) := by omega
      rw [places] at last
      calc _ = 256 * (one.toNat / 2 ^ (8 * (8 - (count + 1))) / 256) +
            one.toNat / 2 ^ (8 * (8 - (count + 1))) % 256 := (Nat.div_add_mod _ _).symm
        _ = 256 * (two.toNat / 2 ^ (8 * (8 - (count + 1))) / 256) +
            two.toNat / 2 ^ (8 * (8 - (count + 1))) % 256 := by rw [last, above]
        _ = _ := Nat.div_add_mod _ _
  have all := front 8 (Nat.le_refl 8)
  rw [Nat.sub_self, Nat.mul_zero, Nat.pow_zero, Nat.div_one, Nat.div_one] at all
  exact UInt64.toNat_inj.1 all

/-- Bytes shorter than a machine word can count are read back after their length. -/
theorem frame_delimits : Delimits frame fun bytes => bytes.length < 2 ^ 64 := by
  intro one two first second after after' same
  unfold frame at same
  rw [List.append_assoc, List.append_assoc] at same
  obtain ⟨sizes, rest⟩ := List.append_inj same rfl
  have count := congrArg UInt64.toNat (toBeBytes_injective _ _ sizes)
  rw [UInt64.toNat_ofNat', UInt64.toNat_ofNat', Nat.mod_eq_of_lt first,
    Nat.mod_eq_of_lt second] at count
  exact List.append_inj rest count

theorem framed_delimits : Delimits ChangedSource.framed fun _ => True := by
  have paths : Delimits (fun path : Str => frame (Utf8.encode path))
      fun path => (Utf8.encode path).length < 2 ^ 64 :=
    frame_delimits.comp _ _ Utf8.encode Utf8.encode_injective
  have pairs := paths.append _ _ _ _ (frame_delimits.optional frame _ 0 1 (by decide))
  rintro ⟨path, bytes, sized⟩ ⟨path', bytes', sized'⟩ - - after after' same
  obtain ⟨whole, rest⟩ := pairs (path, bytes) (path', bytes') sized sized' after after' same
  obtain ⟨rfl, rfl⟩ := Prod.mk.inj whole
  exact ⟨rfl, rest⟩

theorem framed_ne_nil (source : ChangedSource) : source.framed ≠ [] := by
  refine List.append_ne_nil_of_left_ne_nil (List.append_ne_nil_of_left_ne_nil ?_ _) _
  exact List.ne_nil_of_length_pos (by rw [length_toBeBytes64]; decide)

theorem sortSources_perm (sources : List ChangedSource) : (sortSources sources).Perm sources :=
  List.mergeSort_perm ..

theorem sortSources_sorted (sources : List ChangedSource) :
    (sortSources sources).Pairwise fun one two => Utf8.encode one.path ≤ Utf8.encode two.path := by
  have sorted := @List.pairwise_mergeSort ChangedSource
    (fun one two => decide (Utf8.encode one.path ≤ Utf8.encode two.path))
    (fun one two three first second => by
      rw [decide_eq_true_eq] at first second ⊢
      exact List.le_trans first second)
    (fun one two => by
      rw [Bool.or_eq_true, decide_eq_true_eq, decide_eq_true_eq]
      exact List.le_total _ _)
    sources
  exact sorted.imp fun less => of_decide_eq_true less

theorem sortSources_of_perm (one two : List ChangedSource)
    (distinct : (one.map (·.path)).Nodup) (same : one.Perm two) :
    sortSources one = sortSources two := by
  have perm : (sortSources one).Perm (sortSources two) :=
    (sortSources_perm one).trans (same.trans (sortSources_perm two).symm)
  refine perm.eq_of_pairwise ?_ (sortSources_sorted one) (sortSources_sorted two)
  intro a b first second less more
  have path := Utf8.encode_injective _ _ (List.le_antisymm less more)
  have listed := (sortSources_perm one).mem_iff.1 first
  have listed' := same.mem_iff.2 ((sortSources_perm two).mem_iff.1 second)
  exact List.inj_on_of_nodup_map distinct listed listed' path

/-- The bytes hashed for changed sources are the same for the same sources only. -/
theorem snapshotBytes_iff (one two : List ChangedSource) (distinct : (one.map (·.path)).Nodup) :
    snapshotBytes one = snapshotBytes two ↔ one.Perm two := by
  constructor
  · intro same
    have sorted := framed_delimits.flatMap _ _ framed_ne_nil _ _ (fun _ _ => trivial)
      (fun _ _ => trivial) (List.append_cancel_left same)
    have perm := (sortSources_perm one).symm.trans (.of_eq sorted)
    exact perm.trans (sortSources_perm two)
  · intro same
    rw [snapshotBytes, snapshotBytes, sortSources_of_perm one two distinct same]

end DeepDiffForge.Core
