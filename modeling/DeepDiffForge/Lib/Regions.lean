import DeepDiffForge.Lib.Tiling

/-! Regions of change between two sequences: a stretch of each, the two the same between them. -/

namespace DeepDiffForge.Regions
open Tiling

structure Region where
  old : Nat × Nat
  new : Nat × Nat
  deriving DecidableEq, Repr

variable {α : Type} (old new : List α)

/-- From one pair of places to another both sequences hold the same items. -/
def Alike (i j i' j' : Nat) : Prop :=
  ∃ n, i' = i + n ∧ j' = j + n ∧ ∀ k < n, ∃ item, old[i + k]? = some item ∧ new[j + k]? = some item

theorem alike_refl (i j : Nat) : Alike old new i j i j := ⟨0, rfl, rfl, by simp⟩

theorem alike_trans (i j i' j' i'' j'' : Nat) (one : Alike old new i j i' j')
    (two : Alike old new i' j' i'' j'') : Alike old new i j i'' j'' := by
  obtain ⟨n, rfl, rfl, first⟩ := one
  obtain ⟨m, rfl, rfl, second⟩ := two
  refine ⟨n + m, (Nat.add_assoc ..), (Nat.add_assoc ..), ?_⟩
  intro k within
  by_cases early : k < n
  · exact first k early
  · obtain ⟨l, rfl⟩ := Nat.exists_eq_add_of_le (Nat.not_lt.1 early)
    rw [← Nat.add_assoc, ← Nat.add_assoc]
    exact second l (by omega)

/-- A part of a stretch of the same items. -/
theorem alike_part (i j i' j' x y : Nat) (whole : Alike old new i j i' j') (order : x ≤ y)
    (within : i + y ≤ i') : Alike old new (i + x) (j + x) (i + y) (j + y) := by
  obtain ⟨n, rfl, rfl, same⟩ := whole
  obtain ⟨m, rfl⟩ := Nat.exists_eq_add_of_le order
  refine ⟨m, (Nat.add_assoc ..).symm, (Nat.add_assoc ..).symm, fun k inside => ?_⟩
  have here := same (x + k) (by omega)
  rwa [← Nat.add_assoc, ← Nat.add_assoc] at here

theorem alike_slice (i j i' j' : Nat) (same : Alike old new i j i' j') :
    slice old (i, i') = slice new (j, j') := by
  obtain ⟨n, rfl, rfl, each⟩ := same
  apply List.ext_getElem?
  intro k
  rw [slice, slice, Nat.add_sub_cancel_left, Nat.add_sub_cancel_left, List.getElem?_take,
    List.getElem?_take]
  split_ifs with within
  · obtain ⟨item, left, right⟩ := each k within
    rw [List.getElem?_drop, List.getElem?_drop, left, right]
  · rfl

/-- The regions, in order, are all that is not the same from one pair of places on. -/
def Covers : Nat → Nat → List Region → Prop
  | i, j, [] => Alike old new i j old.length new.length
  | i, j, region :: regions =>
      Alike old new i j region.old.1 region.new.1 ∧ region.old.1 ≤ region.old.2 ∧
        region.new.1 ≤ region.new.2 ∧ Covers region.old.2 region.new.2 regions

theorem covers_before (i j i' j' : Nat) (regions : List Region)
    (same : Alike old new i j i' j') (covers : Covers old new i' j' regions) :
    Covers old new i j regions := by
  cases regions with
  | nil => exact alike_trans old new _ _ _ _ _ _ same covers
  | cons region regions =>
    exact ⟨alike_trans old new _ _ _ _ _ _ same covers.1, covers.2⟩

theorem covers_le (i j : Nat) (regions : List Region) (covers : Covers old new i j regions) :
    i ≤ old.length ∧ j ≤ new.length := by
  induction regions generalizing i j with
  | nil =>
    obtain ⟨n, left, right, -⟩ := covers
    omega
  | cons region regions ih =>
    obtain ⟨⟨n, left, right, -⟩, one, two, rest⟩ := covers
    have ends := ih _ _ rest
    omega

/-- Every region is a stretch of each sequence. -/
theorem covers_fits (i j : Nat) (regions : List Region) (covers : Covers old new i j regions) :
    ∀ region ∈ regions, region.old.1 ≤ region.old.2 ∧ region.old.2 ≤ old.length ∧
      region.new.1 ≤ region.new.2 ∧ region.new.2 ≤ new.length := by
  induction regions generalizing i j with
  | nil => simp
  | cons region regions ih =>
    obtain ⟨-, order, order', rest⟩ := covers
    obtain ⟨stop, stop'⟩ := covers_le old new _ _ regions rest
    rw [List.forall_mem_cons]
    exact ⟨⟨order, stop, order', stop'⟩, ih _ _ rest⟩

/-- Names that tell the items apart tell the regions too. -/
theorem covers_of_map {β : Type} (f : α → β) (apart : ∀ x ∈ old, ∀ y ∈ new, f x = f y → x = y)
    (i j : Nat) (regions : List Region)
    (covers : Covers (old.map f) (new.map f) i j regions) : Covers old new i j regions := by
  have alike (i j i' j' : Nat) (same : Alike (old.map f) (new.map f) i j i' j') :
      Alike old new i j i' j' := by
    obtain ⟨n, left, right, each⟩ := same
    refine ⟨n, left, right, fun k within => ?_⟩
    obtain ⟨name, here, there⟩ := each k within
    rw [List.getElem?_map, Option.map_eq_some_iff] at here there
    obtain ⟨x, here, rfl⟩ := here
    obtain ⟨y, there, same⟩ := there
    have equal := apart x (List.mem_of_getElem? here) y (List.mem_of_getElem? there) same.symm
    exact ⟨x, here, equal ▸ there⟩
  induction regions generalizing i j with
  | nil =>
    rw [Covers, List.length_map, List.length_map] at covers
    exact alike _ _ _ _ covers
  | cons region regions ih =>
    obtain ⟨same, one, two, rest⟩ := covers
    exact ⟨alike _ _ _ _ same, one, two, ih _ _ rest⟩

def nextStart (region : Option Region) : Nat × Nat :=
  match region with
  | none => (old.length, new.length)
  | some region => (region.old.1, region.new.1)

theorem covers_alike (i j : Nat) (regions : List Region) (covers : Covers old new i j regions) :
    Alike old new i j (nextStart old new regions.head?).1 (nextStart old new regions.head?).2 := by
  cases regions with
  | nil => exact covers
  | cons region regions => exact covers.1

def patched : Nat → List Region → List α
  | i, [] => old.drop i
  | i, region :: regions =>
      slice old (i, region.old.1) ++ (slice new region.new ++ patched region.old.2 regions)

theorem drop_slice (items : List α) (start stop : Nat) (order : start ≤ stop) :
    items.drop start = slice items (start, stop) ++ items.drop stop := by
  rw [slice]
  conv_lhs => rw [← List.take_append_drop (stop - start) (items.drop start)]
  rw [List.drop_drop]
  congr 2
  omega

theorem patched_covers (i j : Nat) (regions : List Region) (covers : Covers old new i j regions) :
    patched old new i regions = new.drop j := by
  induction regions generalizing i j with
  | nil =>
    have same := alike_slice old new _ _ _ _ covers
    have left : slice old (i, old.length) = old.drop i := by
      rw [slice]
      exact List.take_of_length_le (Nat.le_of_eq List.length_drop)
    have right : slice new (j, new.length) = new.drop j := by
      rw [slice]
      exact List.take_of_length_le (Nat.le_of_eq List.length_drop)
    rw [patched, ← left, same, right]
  | cons region regions ih =>
    obtain ⟨same, -, order, rest⟩ := covers
    have start : j ≤ region.new.1 := by
      obtain ⟨n, -, right, -⟩ := same
      omega
    rw [patched, ih _ _ rest, alike_slice old new _ _ _ _ same, drop_slice new j _ start,
      drop_slice new region.new.1 region.new.2 order]

end DeepDiffForge.Regions
