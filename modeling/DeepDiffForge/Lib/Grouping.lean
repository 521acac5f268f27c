import Mathlib.Data.List.Induction
import Mathlib.Data.List.Nodup
import Mathlib.Data.List.Perm.Basic

/-! Items grouped under their keys by first appearance, the rows of such groups, and walks that
count rows until one ends them. -/

namespace DeepDiffForge.Grouping

section
variable {κ α : Type} [DecidableEq κ]

def put (key : κ) (item : α) : List (κ × List α) → List (κ × List α)
  | [] => [(key, [item])]
  | (other, group) :: rest =>
      if other = key then (other, group ++ [item]) :: rest else (other, group) :: put key item rest

def group (pairs : List (κ × α)) : List (κ × List α) :=
  pairs.foldl (fun groups pair => put pair.1 pair.2 groups) []

/-- Each key once, with all of its items in order; the groups by their first items. -/
structure Grouped (pairs : List (κ × α)) (groups : List (κ × List α)) : Prop where
  distinct : (groups.map (·.1)).Nodup
  covered : ∀ pair ∈ pairs, pair.1 ∈ groups.map (·.1)
  members : ∀ entry ∈ groups, entry.2 = (pairs.filter (·.1 = entry.1)).map (·.2)
  filled : ∀ entry ∈ groups, entry.2 ≠ []
  heads : (groups.filterMap (·.2.head?)).Sublist (pairs.map (·.2))
  perm : (groups.flatMap (·.2)).Perm (pairs.map (·.2))

theorem put_absent (key : κ) (item : α) (groups : List (κ × List α))
    (absent : key ∉ groups.map (·.1)) : put key item groups = groups ++ [(key, [item])] := by
  induction groups with
  | nil => rfl
  | cons entry groups ih =>
    rw [List.map_cons, List.mem_cons, not_or] at absent
    rw [put, if_neg (Ne.symm absent.1), ih absent.2, List.cons_append]

theorem put_present (key : κ) (item : α) (groups : List (κ × List α))
    (present : key ∈ groups.map (·.1)) :
    ∃ before held after, groups = before ++ (key, held) :: after ∧
      put key item groups = before ++ (key, held ++ [item]) :: after := by
  induction groups with
  | nil => cases present
  | cons entry groups ih =>
    obtain ⟨other, held⟩ := entry
    by_cases same : other = key
    · exact ⟨[], held, groups, by rw [same]; rfl, by rw [put, if_pos same, same]; rfl⟩
    · have later : key ∈ groups.map (·.1) := by
        rcases List.mem_cons.1 present with first | later
        · exact absurd first.symm same
        · exact later
      obtain ⟨before, found, after, split, placed⟩ := ih later
      exact ⟨(other, held) :: before, found, after, by rw [split]; rfl,
        by rw [put, if_neg same, placed]; rfl⟩

theorem filter_snoc (pairs : List (κ × α)) (key other : κ) (item : α) :
    ((pairs ++ [(key, item)]).filter (·.1 = other)).map (·.2) =
      (pairs.filter (·.1 = other)).map (·.2) ++ if key = other then [item] else [] := by
  rw [List.filter_append, List.map_append]
  by_cases same : key = other
  · simp only [same, List.filter_cons, decide_true, List.filter_nil, if_true, List.map_cons,
      List.map_nil]
  · simp only [same, List.filter_cons, decide_false, List.filter_nil, Bool.false_eq_true, if_false,
      List.map_nil]

theorem Grouped.put_present (pairs : List (κ × α)) (before after : List (κ × List α)) (key : κ)
    (held : List α) (item : α) (grouped : Grouped pairs (before ++ (key, held) :: after)) :
    Grouped (pairs ++ [(key, item)]) (before ++ (key, held ++ [item]) :: after) := by
  have keys : (before ++ (key, held ++ [item]) :: after).map (·.1) =
      (before ++ (key, held) :: after).map (·.1) := by
    rw [List.map_append, List.map_append]
    rfl
  have distinct := grouped.distinct
  rw [List.map_append, List.map_cons, List.nodup_middle, List.nodup_cons, ← List.map_append]
    at distinct
  have own := grouped.members (key, held) (List.mem_append_right _ List.mem_cons_self)
  have present := grouped.filled (key, held) (List.mem_append_right _ List.mem_cons_self)
  refine ⟨keys ▸ grouped.distinct, fun pair listed => ?_, fun entry listed => ?_,
    fun entry listed => ?_, ?_, ?_⟩
  · rw [keys]
    rcases List.mem_append.1 listed with earlier | last
    · exact grouped.covered pair earlier
    · rw [List.mem_singleton.1 last, List.map_append]
      exact List.mem_append_right _ List.mem_cons_self
  · rw [filter_snoc]
    rw [List.mem_append, List.mem_cons, or_left_comm] at listed
    rcases listed with rfl | other
    · rw [if_pos rfl, ← own]
    · have among := List.mem_append.2 other
      have apart : key ≠ entry.1 := fun same =>
        distinct.1 (List.mem_map.2 ⟨entry, among, same.symm⟩)
      rw [if_neg apart, List.append_nil]
      refine grouped.members entry ?_
      rw [List.mem_append, List.mem_cons, or_left_comm]
      exact .inr other
  · rw [List.mem_append, List.mem_cons, or_left_comm] at listed
    rcases listed with rfl | other
    · exact List.append_ne_nil_of_right_ne_nil _ (List.cons_ne_nil _ _)
    · refine grouped.filled entry ?_
      rw [List.mem_append, List.mem_cons, or_left_comm]
      exact .inr other
  · have same : (held ++ [item]).head? = held.head? := List.head?_append_of_ne_nil _ present
    have heads := grouped.heads
    rw [List.filterMap_append, List.filterMap_cons] at heads ⊢
    rw [same, List.map_append]
    exact heads.trans (List.sublist_append_left _ _)
  · have perm := grouped.perm
    rw [List.flatMap_append, List.flatMap_cons] at perm ⊢
    rw [List.map_append]
    have moved : (before.flatMap (·.2) ++ (held ++ [item] ++ after.flatMap (·.2))).Perm
        ((before.flatMap (·.2) ++ (held ++ after.flatMap (·.2))) ++ [item]) := by
      rw [List.append_assoc, List.append_assoc, List.append_assoc]
      exact (((List.perm_append_comm).append_left held)).append_left _
    exact moved.trans (perm.append_right [item])

theorem Grouped.put_absent (pairs : List (κ × α)) (groups : List (κ × List α)) (key : κ)
    (item : α) (absent : key ∉ groups.map (·.1)) (grouped : Grouped pairs groups) :
    Grouped (pairs ++ [(key, item)]) (groups ++ [(key, [item])]) := by
  have keys : (groups ++ [(key, [item])]).map (·.1) = groups.map (·.1) ++ [key] := by
    rw [List.map_append]
    rfl
  refine ⟨?_, fun pair listed => ?_, fun entry listed => ?_, fun entry listed => ?_, ?_, ?_⟩
  · rw [keys]
    exact grouped.distinct.append (List.nodup_singleton key)
      (List.disjoint_singleton.2 absent)
  · rw [keys]
    rcases List.mem_append.1 listed with earlier | last
    · exact List.mem_append_left _ (grouped.covered pair earlier)
    · rw [List.mem_singleton.1 last]
      exact List.mem_append_right _ List.mem_cons_self
  · rw [filter_snoc]
    rcases List.mem_append.1 listed with earlier | last
    · have apart : key ≠ entry.1 := fun same => absent (List.mem_map.2 ⟨entry, earlier, same.symm⟩)
      rw [if_neg apart, List.append_nil]
      exact grouped.members entry earlier
    · obtain rfl := List.mem_singleton.1 last
      have empty : pairs.filter (·.1 = key) = [] := by
        rw [List.filter_eq_nil_iff]
        intro pair among same
        exact absent (of_decide_eq_true same ▸ grouped.covered pair among)
      rw [if_pos rfl, empty]
      rfl
  · rcases List.mem_append.1 listed with earlier | last
    · exact grouped.filled entry earlier
    · rw [List.mem_singleton.1 last]
      exact List.cons_ne_nil _ _
  · rw [List.filterMap_append, List.map_append]
    exact grouped.heads.append (.refl _)
  · rw [List.flatMap_append, List.map_append]
    exact grouped.perm.append (.refl _)

theorem grouped (pairs : List (κ × α)) : Grouped pairs (group pairs) := by
  induction pairs using List.reverseRecOn with
  | nil =>
    refine ⟨.nil, ?_, ?_, ?_, .slnil, .nil⟩ <;> rintro _ ⟨⟩
  | append_singleton pairs pair ih =>
    have more : group (pairs ++ [pair]) = put pair.1 pair.2 (group pairs) := by
      rw [group, List.foldl_append]
      rfl
    rw [more]
    by_cases present : pair.1 ∈ (group pairs).map (·.1)
    · obtain ⟨before, held, after, split, placed⟩ := put_present pair.1 pair.2 _ present
      rw [split] at ih
      rw [placed]
      exact ih.put_present _ _ _ _ _ pair.2
    · rw [put_absent _ _ _ present]
      exact ih.put_absent _ _ _ pair.2 present

end

section
variable {κ α β γ : Type}

def rows (groups : List (κ × List α)) : List (κ ⊕ α) :=
  groups.flatMap fun entry => .inl entry.1 :: entry.2.map .inr

theorem items_rows (groups : List (κ × List α)) :
    (rows groups).filterMap Sum.getRight? = groups.flatMap (·.2) := by
  induction groups with
  | nil => rfl
  | cons entry groups ih =>
    have own : (entry.2.map (.inr : α → κ ⊕ α)).filterMap Sum.getRight? = entry.2 := by
      rw [List.filterMap_map]
      exact List.filterMap_some
    rw [rows, List.flatMap_cons, List.filterMap_append, List.flatMap_cons, ← rows, ih,
      List.filterMap_cons]
    exact congrArg (· ++ _) own

theorem rows_perm (groups : List (κ × List α)) :
    (rows groups).Perm
      ((groups.map (·.1)).map .inl ++ (groups.flatMap (·.2)).map .inr) := by
  induction groups with
  | nil => exact .nil
  | cons entry groups ih =>
    rw [rows, List.flatMap_cons, ← rows, List.map_cons, List.map_cons, List.flatMap_cons,
      List.map_append, List.cons_append, List.cons_append]
    refine List.Perm.cons _ ((ih.append_left _).trans ?_)
    rw [← List.append_assoc, ← List.append_assoc]
    exact List.perm_append_comm.append_right _

theorem rows_nodup (groups : List (κ × List α)) (keys : (groups.map (·.1)).Nodup)
    (items : (groups.flatMap (·.2)).Nodup) : (rows groups).Nodup := by
  rw [(rows_perm groups).nodup_iff]
  refine (keys.map fun _ _ => Sum.inl.inj).append (items.map fun _ _ => Sum.inr.inj) ?_
  intro row left right
  obtain ⟨key, -, rfl⟩ := List.mem_map.1 left
  obtain ⟨item, -, other⟩ := List.mem_map.1 right
  cases other

/-- One row of a walk: the row's own answer, or the next row's number. -/
def step (stop : Nat → β → Option γ) (row : Nat) (item : β) : Except γ Nat :=
  match stop row item with
  | some answer => .error answer
  | none => .ok (row + 1)

def ended (walked : Except γ Nat) (otherwise : γ) : γ :=
  match walked with
  | .error answer => answer
  | .ok _ => otherwise

theorem walk_past (stop : Nat → β → Option γ) (items : List β) (start : Nat)
    (absent : ∀ i item, items[i]? = some item → stop (start + i) item = none) :
    items.foldlM (step stop) start = .ok (start + items.length) := by
  induction items generalizing start with
  | nil => rfl
  | cons item items ih =>
    have own : stop start item = none := absent 0 item rfl
    have first : step stop start item = .ok (start + 1) := by rw [step, own]
    rw [List.foldlM_cons, first]
    refine (ih (start + 1) fun i other found => ?_).trans ?_
    · have rest := absent (i + 1) other found
      rwa [Nat.add_comm i 1, ← Nat.add_assoc] at rest
    · rw [List.length_cons, Nat.add_assoc, Nat.add_comm 1]

theorem walk_ends (stop : Nat → β → Option γ) (before after : List β) (item : β) (start : Nat)
    (answer : γ) (absent : ∀ i item, before[i]? = some item → stop (start + i) item = none)
    (ends : stop (start + before.length) item = some answer) :
    (before ++ item :: after).foldlM (step stop) start = .error answer := by
  rw [List.foldlM_append, walk_past stop before start absent]
  change (item :: after).foldlM (step stop) (start + before.length) = _
  rw [List.foldlM_cons, step, ends]
  rfl

theorem walk_to (answer : β → γ) (items : List β) (target : Nat) :
    items.foldlM (step fun row item => if row = target then some (answer item) else none) 0 =
      match items[target]? with
      | some item => .error (answer item)
      | none => .ok items.length := by
  cases found : items[target]? with
  | none =>
    have short := List.getElem?_eq_none_iff.1 found
    rw [walk_past, Nat.zero_add]
    intro i item held
    have inside := (List.getElem?_eq_some_iff.1 held).1
    exact if_neg (by omega)
  | some item =>
    obtain ⟨inside, rfl⟩ := List.getElem?_eq_some_iff.1 found
    have size : (items.take target).length = target := List.length_take_of_le (by omega)
    have split : items = items.take target ++ items[target] :: items.drop (target + 1) := by
      rw [← List.drop_eq_getElem_cons inside, List.take_append_drop]
    conv_lhs => rw [split]
    refine walk_ends _ _ _ _ 0 _ (fun i other held => if_neg ?_) (if_pos ?_)
    · have before := (List.getElem?_eq_some_iff.1 held).1
      omega
    · rw [size, Nat.zero_add]

theorem walk_groups (stop : Nat → κ ⊕ α → Option γ) (groups : List (κ × List α)) (start : Nat) :
    groups.foldlM (fun row entry => step stop row (.inl entry.1) >>= fun row =>
      entry.2.foldlM (fun row item => step stop row (.inr item)) row) start =
      (rows groups).foldlM (step stop) start := by
  induction groups generalizing start with
  | nil => rfl
  | cons entry groups ih =>
    have inner (row : Nat) : entry.2.foldlM (fun row item => step stop row (.inr item)) row =
        (entry.2.map (.inr : α → κ ⊕ α)).foldlM (step stop) row := (List.foldlM_map ..).symm
    have split : rows (entry :: groups) =
        .inl entry.1 :: (entry.2.map .inr ++ rows groups) := List.flatMap_cons ..
    rw [List.foldlM_cons, split, List.foldlM_cons, bind_assoc]
    refine bind_congr fun row => ?_
    rw [List.foldlM_append, inner]
    exact bind_congr fun row => ih row

end

end DeepDiffForge.Grouping
