import Mathlib.Data.List.Basic
import Mathlib.Data.List.Sort
import Mathlib.Order.Basic

/-! Maps as lists of entries in key order. -/

namespace DeepDiffForge

/-- Entries with strictly increasing keys. -/
structure SortedMap (K V : Type) [LinearOrder K] where
  entries : List (K × V)
  sorted : entries.Pairwise fun one two => one.1 < two.1

namespace SortedMap
variable {K V : Type} [LinearOrder K]

def empty : SortedMap K V := ⟨[], List.Pairwise.nil⟩

def keys (map : SortedMap K V) : List K := map.entries.map (·.1)

def values (map : SortedMap K V) : List V := map.entries.map (·.2)

def get (map : SortedMap K V) (key : K) : Option V :=
  (map.entries.find? fun entry => entry.1 = key).map (·.2)

def insertEntry (key : K) (value : V) : List (K × V) → List (K × V)
  | [] => [(key, value)]
  | entry :: rest =>
      if key < entry.1 then (key, value) :: entry :: rest
      else if key = entry.1 then (key, value) :: rest
      else entry :: insertEntry key value rest

theorem mem_insertEntry (key : K) (value : V) (entries : List (K × V)) (entry : K × V)
    (member : entry ∈ insertEntry key value entries) :
    entry = (key, value) ∨ entry ∈ entries := by
  induction entries with
  | nil => exact .inl (List.mem_singleton.1 member)
  | cons first rest ih =>
    rw [insertEntry] at member
    split_ifs at member with before same
    · exact List.mem_cons.1 member
    · rcases List.mem_cons.1 member with here | later
      · exact .inl here
      · exact .inr (List.mem_cons_of_mem _ later)
    · rcases List.mem_cons.1 member with here | later
      · exact .inr (here ▸ List.mem_cons_self ..)
      · exact (ih later).imp_right (List.mem_cons_of_mem _)

theorem sorted_insertEntry (key : K) (value : V) (entries : List (K × V))
    (sorted : entries.Pairwise fun one two => one.1 < two.1) :
    (insertEntry key value entries).Pairwise fun one two => one.1 < two.1 := by
  induction entries with
  | nil => exact List.pairwise_singleton _ _
  | cons first rest ih =>
    obtain ⟨below, rest'⟩ := List.pairwise_cons.1 sorted
    rw [insertEntry]
    split_ifs with before same
    · refine List.pairwise_cons.2 ⟨?_, sorted⟩
      intro entry member
      rcases List.mem_cons.1 member with rfl | later
      · exact before
      · exact before.trans (below entry later)
    · refine List.pairwise_cons.2 ⟨?_, rest'⟩
      intro entry member
      rw [same]
      exact below entry member
    · refine List.pairwise_cons.2 ⟨?_, ih rest'⟩
      intro entry member
      rcases mem_insertEntry key value rest entry member with rfl | later
      · exact lt_of_le_of_ne (not_lt.1 before) (Ne.symm same)
      · exact below entry later

def insert (key : K) (value : V) (map : SortedMap K V) : SortedMap K V :=
  ⟨insertEntry key value map.entries, sorted_insertEntry key value map.entries map.sorted⟩

@[simp] theorem get_empty (key : K) : (empty : SortedMap K V).get key = none := rfl

/-- An insertion is read back, and nothing else changes. -/
theorem get_insert (map : SortedMap K V) (key other : K) (value : V) :
    (map.insert key value).get other = if key = other then some value else map.get other := by
  simp only [get, insert]
  generalize map.entries = entries
  induction entries with
  | nil => by_cases same : key = other <;> simp [insertEntry, same]
  | cons entry rest ih =>
    rw [insertEntry]
    by_cases before : key < entry.1
    · rw [if_pos before]
      by_cases here : key = other <;> simp [here]
    rw [if_neg before]
    by_cases same : key = entry.1
    · rw [if_pos same]
      by_cases here : key = other
      · simp [here]
      · have apart : entry.1 ≠ other := same ▸ here
        simp [here, apart]
    · rw [if_neg same]
      by_cases found : entry.1 = other
      · have apart : key ≠ other := found ▸ same
        simp [found, apart]
      · rw [List.find?_cons_of_neg (by simpa using found),
          List.find?_cons_of_neg (by simpa using found), ih]

theorem nodup_keys (map : SortedMap K V) : map.keys.Nodup :=
  List.pairwise_map.2 (map.sorted.imp ne_of_lt)

theorem get_eq_some (map : SortedMap K V) (key : K) (value : V) :
    map.get key = some value ↔ (key, value) ∈ map.entries := by
  simp only [get, Option.map_eq_some_iff]
  constructor
  · rintro ⟨entry, found, rfl⟩
    have same : entry.1 = key := by simpa using List.find?_some found
    rw [← same]
    exact List.mem_of_find?_eq_some found
  · intro member
    cases search : map.entries.find? fun entry => entry.1 = key with
    | none => simpa using List.find?_eq_none.1 search _ member
    | some entry =>
      have same : entry.1 = key := by simpa using List.find?_some search
      have listed := List.mem_of_find?_eq_some search
      rw [List.inj_on_of_nodup_map map.nodup_keys listed member same]
      exact ⟨_, rfl, rfl⟩

theorem get_eq_none (map : SortedMap K V) (key : K) : map.get key = none ↔ key ∉ map.keys := by
  simp only [get, Option.map_eq_none_iff, List.find?_eq_none, decide_eq_true_eq, keys,
    List.mem_map, not_exists, not_and]

theorem mem_keys (map : SortedMap K V) (key : K) : key ∈ map.keys ↔ (map.get key).isSome := by
  rw [← not_iff_not, ← get_eq_none, Bool.not_eq_true, Option.isSome_eq_false_iff,
    Option.isNone_iff_eq_none]

theorem mem_keys_foldl {Item : Type} (key : Item → K) (value : Item → V) (items : List Item)
    (map : SortedMap K V) (other : K) :
    other ∈ (items.foldl (fun map item => map.insert (key item) (value item)) map).keys ↔
      other ∈ map.keys ∨ ∃ item ∈ items, key item = other := by
  induction items generalizing map with
  | nil => simp
  | cons item items ih =>
    rw [List.foldl_cons, ih, mem_keys, mem_keys, get_insert]
    by_cases same : key item = other <;> simp [same]

/-- Maps that read alike are one. -/
theorem ext_get (one two : SortedMap K V) (same : ∀ key, one.get key = two.get key) : one = two := by
  have entries : one.entries.Perm two.entries := by
    refine (List.perm_ext_iff_of_nodup ?_ ?_).2 ?_
    · exact one.sorted.imp fun less equal => less.ne (congrArg Prod.fst equal)
    · exact two.sorted.imp fun less equal => less.ne (congrArg Prod.fst equal)
    · rintro ⟨key, value⟩
      rw [← get_eq_some, ← get_eq_some, same]
  have equal : one.entries = two.entries := by
    refine entries.eq_of_pairwise ?_ one.sorted two.sorted
    intro first second _ _ below above
    exact absurd below above.asymm
  cases one
  cases two
  cases equal
  rfl

/-- A run of insertions of values that their keys determine. -/
theorem get_foldl {Item : Type} (key : Item → K) (value : Item → V) (items : List Item)
    (functional : ∀ one ∈ items, ∀ two ∈ items, key one = key two → value one = value two)
    (other : K) (found : V) :
    (items.foldl (fun map item => map.insert (key item) (value item)) empty).get other =
        some found ↔ ∃ item ∈ items, key item = other ∧ value item = found := by
  have either (part : List Item) (map : SortedMap K V) (last : V)
      (read : (part.foldl (fun map item => map.insert (key item) (value item)) map).get other =
        some last) :
      (∃ item ∈ part, key item = other ∧ value item = last) ∨ map.get other = some last := by
    induction part generalizing map with
    | nil => exact .inr read
    | cons item part ih =>
      rcases ih _ read with ⟨later, member, named⟩ | here
      · exact .inl ⟨later, List.mem_cons_of_mem _ member, named⟩
      · rw [get_insert] at here
        split_ifs at here with same
        · exact .inl ⟨item, List.mem_cons_self .., same, Option.some.inj here⟩
        · exact .inr here
  constructor
  · intro read
    exact (either items empty found read).resolve_right (by simp)
  · rintro ⟨item, member, same, rfl⟩
    have listed := (mem_keys_foldl key value items empty other).2 (.inr ⟨item, member, same⟩)
    obtain ⟨last, read⟩ := Option.isSome_iff_exists.1 ((mem_keys _ _).1 listed)
    rcases either items empty last read with ⟨other', member', same', rfl⟩ | absent
    · rw [read, functional other' member' item member (same'.trans same.symm)]
    · cases absent

theorem get_foldl_absent {Item : Type} (key : Item → K) (value : Item → V) (items : List Item)
    (map : SortedMap K V) (other : K) (absent : ∀ item ∈ items, key item ≠ other) :
    (items.foldl (fun map item => map.insert (key item) (value item)) map).get other =
      map.get other := by
  induction items generalizing map with
  | nil => rfl
  | cons item items ih =>
    rw [List.forall_mem_cons] at absent
    rw [List.foldl_cons, ih _ absent.2, get_insert, if_neg absent.1]

theorem get_foldl_present {Item : Type} (key : Item → K) (value : Item → V) (items : List Item)
    (map : SortedMap K V) (item : Item) (listed : item ∈ items)
    (functional : ∀ other ∈ items, key other = key item → value other = value item) :
    (items.foldl (fun map item => map.insert (key item) (value item)) map).get (key item) =
      some (value item) := by
  induction items generalizing map item with
  | nil => cases listed
  | cons first items ih =>
    rw [List.forall_mem_cons] at functional
    rw [List.foldl_cons]
    by_cases again : ∃ other ∈ items, key other = key item
    · obtain ⟨other, member, same⟩ := again
      rw [← same, ← functional.2 other member same]
      apply ih _ other member
      intro third listed' same'
      rw [functional.2 third listed' (same'.trans same), functional.2 other member same]
    · have absent : ∀ other ∈ items, key other ≠ key item := fun other member same =>
        again ⟨other, member, same⟩
      rw [get_foldl_absent key value items _ _ absent]
      rcases List.mem_cons.1 listed with rfl | later
      · rw [get_insert, if_pos rfl]
      · exact absurd rfl (absent item later)

def filter (keep : K → Bool) (map : SortedMap K V) : SortedMap K V :=
  ⟨map.entries.filter fun entry => keep entry.1, map.sorted.filter _⟩

theorem get_filter (keep : K → Bool) (map : SortedMap K V) (key : K) :
    (map.filter keep).get key = if keep key then map.get key else none := by
  apply Option.ext
  intro value
  rw [get_eq_some, filter]
  split_ifs with kept
  · simp [get_eq_some, kept]
  · simp [kept]

/-- Such a run is one map whatever its order. -/
theorem foldl_perm {Item : Type} (key : Item → K) (value : Item → V) (items items' : List Item)
    (functional : ∀ one ∈ items, ∀ two ∈ items, key one = key two → value one = value two)
    (perm : items.Perm items') :
    items.foldl (fun map item => map.insert (key item) (value item)) empty =
      items'.foldl (fun map item => map.insert (key item) (value item)) empty := by
  refine ext_get _ _ fun other => Option.ext fun found => ?_
  have functional' : ∀ one ∈ items', ∀ two ∈ items', key one = key two → value one = value two :=
    fun one first two second => functional one (perm.mem_iff.2 first) two (perm.mem_iff.2 second)
  rw [get_foldl key value items functional, get_foldl key value items' functional']
  simp only [perm.mem_iff]

end SortedMap

section Keyed
variable {Item K : Type} [DecidableEq K]

theorem filter_key (key : Item → K) (items : List Item) (once : (items.map key).Nodup) (item : Item) :
    (items.filter fun other => key other = key item) = [item] ↔ item ∈ items := by
  constructor
  · intro alone
    exact List.mem_of_mem_filter (alone ▸ List.mem_singleton_self item)
  · intro member
    obtain ⟨front, back, split⟩ := List.append_of_mem member
    have moved : items.Perm (item :: (front ++ back)) := by
      rw [split]
      exact List.perm_middle
    have apart := (List.nodup_cons.1 ((moved.map key).nodup_iff.1 once)).1
    have alone : (item :: (front ++ back)).filter (fun other => key other = key item) = [item] := by
      rw [List.filter_cons_of_pos (by simp), List.filter_eq_nil_iff.2]
      intro other listed
      rw [decide_eq_true_eq]
      intro same
      exact apart (List.mem_map.2 ⟨other, listed, same⟩)
    have perm := moved.filter fun other => decide (key other = key item)
    rw [alone] at perm
    exact List.perm_singleton.1 perm

theorem nodup_of_single (key : Item → K) (items : List Item)
    (single : ∀ item ∈ items, ∃ alone, (items.filter fun other => key other = key item) = [alone]) :
    (items.map key).Nodup := by
  rw [List.nodup_iff_count_le_one]
  intro k
  rw [List.count_eq_countP, List.countP_map, List.countP_eq_length_filter]
  by_cases known : ∃ item ∈ items, key item = k
  · obtain ⟨item, member, rfl⟩ := known
    obtain ⟨alone, whole⟩ := single item member
    have length := congrArg List.length whole
    rw [List.length_singleton] at length
    refine Nat.le_of_eq (Eq.trans ?_ length)
    congr 2
  · rw [List.filter_eq_nil_iff.2]
    · exact Nat.zero_le _
    · intro item member
      simp only [Function.comp_apply, beq_iff_eq]
      intro same
      exact known ⟨item, member, same⟩

end Keyed

end DeepDiffForge
