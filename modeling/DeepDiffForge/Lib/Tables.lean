import Mathlib.Data.List.Basic

/-! Hash tables that gather values under their key, and names kept at their first occurrence. A
table is a list of entries: only lookups see it, never its order. -/

namespace DeepDiffForge.Tables
variable {K V : Type} [DecidableEq K]

def get (table : List (K × List V)) (key : K) : Option (List V) :=
  (table.find? fun entry => entry.1 = key).map (·.2)

/-- `table.entry(key).or_default().push(value)`. -/
def push (key : K) (value : V) : List (K × List V) → List (K × List V)
  | [] => [(key, [value])]
  | entry :: table =>
      if entry.1 = key then (entry.1, entry.2 ++ [value]) :: table
      else entry :: push key value table

theorem get_cons (entry : K × List V) (table : List (K × List V)) (key : K) :
    get (entry :: table) key = if entry.1 = key then some entry.2 else get table key := by
  by_cases same : entry.1 = key <;> simp [get, same]

theorem get_push (key : K) (value : V) (table : List (K × List V)) (other : K) :
    get (push key value table) other =
      if key = other then some ((get table other).getD [] ++ [value]) else get table other := by
  induction table with
  | nil => rw [push, get_cons]; rfl
  | cons entry table ih =>
    rw [push]
    split
    · next same =>
      rw [get_cons, get_cons, same]
      split <;> rfl
    · next apart =>
      rw [get_cons, get_cons, ih]
      by_cases here : entry.1 = other
      · rw [if_pos here, if_pos here, if_neg fun same => apart (here.trans same.symm)]
      · rw [if_neg here, if_neg here]

def gather (entries : List (K × V)) : List (K × List V) :=
  entries.foldl (fun table entry => push entry.1 entry.2 table) []

/-- Values gathered under a key are those that came with it, in order. -/
theorem get_gather (entries : List (K × V)) (key : K) :
    get (gather entries) key =
      if (entries.filter fun entry => entry.1 = key) = [] then none
      else some ((entries.filter fun entry => entry.1 = key).map (·.2)) := by
  have run (entries : List (K × V)) (table : List (K × List V)) :
      get (entries.foldl (fun table entry => push entry.1 entry.2 table) table) key =
        if (entries.filter fun entry => entry.1 = key) = [] then get table key
        else some ((get table key).getD [] ++
          (entries.filter fun entry => entry.1 = key).map (·.2)) := by
    induction entries generalizing table with
    | nil => rfl
    | cons entry entries ih =>
      rw [List.foldl_cons, ih, get_push]
      by_cases same : entry.1 = key
      · rw [if_pos same, List.filter_cons_of_pos (by simpa using same),
          if_neg (List.cons_ne_nil _ _)]
        split
        · next absent => rw [absent]; rfl
        · simp
      · rw [if_neg same, List.filter_cons_of_neg (by simpa using same)]
  exact run entries []

theorem get_gather_map (name : V → K) (items : List V) (key : K) :
    get (gather (items.map fun item => (name item, item))) key =
      if (items.filter fun item => name item = key) = [] then none
      else some (items.filter fun item => name item = key) := by
  have named : ((items.map fun item => (name item, item)).filter fun entry => entry.1 = key) =
      (items.filter fun item => name item = key).map fun item => (name item, item) := by
    rw [List.filter_map]
    rfl
  rw [get_gather, named, List.map_map]
  cases items.filter fun item => name item = key with
  | nil => rfl
  | cons first rest => exact congrArg some (List.map_id _)

/-- The names not seen before, each added to those seen: `names.filter(|n| seen.insert(n))`. -/
def unseen (seen : List K) : List K → List K
  | [] => []
  | name :: names =>
      if name ∈ seen then unseen seen names else name :: unseen (name :: seen) names

/-- A name that came before changes nothing where it comes again. -/
theorem unseen_repeat (before after seen : List K) (name : K) (held : name ∈ before) :
    unseen seen (before ++ name :: after) = unseen seen (before ++ after) := by
  have skip (before seen : List K) (known : name ∈ before ∨ name ∈ seen) :
      unseen seen (before ++ name :: after) = unseen seen (before ++ after) := by
    induction before generalizing seen with
    | nil =>
      rcases known with absent | old
      · cases absent
      · rw [List.nil_append, List.nil_append, unseen, if_pos old]
    | cons first before ih =>
      rw [List.cons_append, List.cons_append, unseen, unseen]
      by_cases old : first ∈ seen
      · rw [if_pos old, if_pos old]
        refine ih seen ?_
        rcases known with listed | known
        · rcases List.mem_cons.1 listed with rfl | later
          · exact .inr old
          · exact .inl later
        · exact .inr known
      · rw [if_neg old, if_neg old, ih (first :: seen)]
        rcases known with listed | known
        · rcases List.mem_cons.1 listed with rfl | later
          · exact .inr List.mem_cons_self
          · exact .inl later
        · exact .inr (List.mem_cons_of_mem _ known)
  exact skip before seen (.inl held)

/-- The names kept are the distinct ones, each where it first occurs. -/
theorem unseen_eraseDups [BEq K] [LawfulBEq K] (names : List K) :
    unseen [] names = names.eraseDups := by
  have run (names seen : List K) :
      unseen seen names = (names.filter fun name => name ∉ seen).eraseDups := by
    induction names generalizing seen with
    | nil => rfl
    | cons first names ih =>
      rw [unseen]
      by_cases old : first ∈ seen
      · rw [if_pos old, ih, List.filter_cons_of_neg (by simpa using old)]
      · rw [if_neg old, ih, List.filter_cons_of_pos (by simpa using old), List.eraseDups_cons,
          List.filter_filter]
        congr 2
        refine List.filter_congr fun name _ => ?_
        by_cases same : name = first <;> simp [same]
  have whole := run names []
  rwa [List.filter_eq_self.2 (by simp)] at whole

end DeepDiffForge.Tables
