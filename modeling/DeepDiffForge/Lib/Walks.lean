import Mathlib.Data.List.Perm.Basic
import Mathlib.Data.List.Sort

/-! Walks of a tree: a directory's entries in order, then its subdirectories, the first one first. -/

namespace DeepDiffForge.Walks
variable {N K : Type}

/-- A tree as a walk reads it: the names in a directory, in the order they are visited in, and what
is at a path. -/
structure World (N K : Type) where
  names : List N → Option (List N)
  kind : List N → Option K

section
variable (descends : K → Bool) (world : World N K)

inductive Below : List N → List N → K → Prop
  | here (dir names : List N) (name : N) (kind : K) (listed : world.names dir = some names)
      (member : name ∈ names) (found : world.kind (dir ++ [name]) = some kind) :
      Below dir (dir ++ [name]) kind
  | deeper (dir names : List N) (name : N) (kind : K) (path : List N) (kind' : K)
      (listed : world.names dir = some names) (member : name ∈ names)
      (found : world.kind (dir ++ [name]) = some kind) (inside : descends kind = true)
      (below : Below (dir ++ [name]) path kind') : Below dir path kind'

def Entries (dir names : List N) (found : List (List N × K)) : Prop :=
  List.Forall₂ (fun name entry => entry.1 = dir ++ [name] ∧ world.kind entry.1 = some entry.2)
    names found

def directories (found : List (List N × K)) : List (List N) :=
  (found.filter fun entry => descends entry.2).map (·.1)

/-- The entries a walk visits from the directories still to visit, the first one first. -/
inductive Visits : List (List N) → List (List N × K) → Prop
  | done : Visits [] []
  | next (dir names : List N) (pending : List (List N)) (found rest : List (List N × K))
      (listed : world.names dir = some names) (each : Entries world dir names found)
      (later : Visits (directories descends found ++ pending) rest) :
      Visits (dir :: pending) (found ++ rest)

theorem below_longer (dir path : List N) (kind : K) (below : Below descends world dir path kind) :
    dir <+: path ∧ dir.length < path.length := by
  induction below with
  | here dir names name kind listed member found =>
    exact ⟨List.prefix_append _ _, by rw [List.length_append]; exact Nat.lt_succ_self _⟩
  | deeper dir names name kind path kind' listed member found inside below ih =>
    refine ⟨(List.prefix_append _ _).trans ih.1, lt_of_le_of_lt ?_ ih.2⟩
    rw [List.length_append]
    exact Nat.le_add_right _ _

theorem below_last (root path : List N) (kind : K) (below : Below descends world root path kind) :
    ∃ dir name names, path = dir ++ [name] ∧ world.names dir = some names ∧ name ∈ names ∧
      world.kind path = some kind := by
  induction below with
  | here dir names name kind listed member found =>
    exact ⟨dir, name, names, rfl, listed, member, found⟩
  | deeper dir names name kind path kind' listed member found inside below ih => exact ih

theorem below_child (dir : List N) (name : N) (kind : K) :
    Below descends world dir (dir ++ [name]) kind ↔
      ∃ names, world.names dir = some names ∧ name ∈ names ∧
        world.kind (dir ++ [name]) = some kind := by
  constructor
  · intro below
    generalize whole : dir ++ [name] = path at below
    cases below with
    | here _ names name' _ listed member found =>
      obtain ⟨-, same⟩ := List.append_inj whole rfl
      cases same
      exact ⟨names, listed, member, found⟩
    | deeper _ names name' _ _ _ listed member found inside below =>
      have longer := (below_longer descends world _ _ _ below).2
      rw [← whole, List.length_append, List.length_append] at longer
      exact absurd longer (Nat.lt_irrefl _)
  · rintro ⟨names, listed, member, found⟩
    exact .here dir names name kind listed member found

theorem mem_entries (dir names : List N) (found : List (List N × K))
    (each : Entries world dir names found) (path : List N) (kind : K) :
    (path, kind) ∈ found ↔ ∃ name ∈ names, path = dir ++ [name] ∧ world.kind path = some kind := by
  induction each with
  | nil => simp
  | cons first rest ih =>
    rename_i name entry names found
    obtain ⟨path', kind'⟩ := entry
    obtain ⟨rfl, there⟩ := first
    rw [List.mem_cons, ih, List.exists_mem_cons_iff]
    refine or_congr ?_ Iff.rfl
    constructor
    · intro same
      cases same
      exact ⟨rfl, there⟩
    · rintro ⟨rfl, there'⟩
      dsimp only at there
      rw [Option.some.inj (there'.symm.trans there)]

theorem mem_directories (found : List (List N × K)) (path : List N) :
    path ∈ directories descends found ↔ ∃ kind, (path, kind) ∈ found ∧ descends kind = true := by
  unfold directories
  rw [List.mem_map]
  constructor
  · rintro ⟨⟨path, kind⟩, listed, rfl⟩
    exact ⟨kind, List.mem_filter.1 listed⟩
  · rintro ⟨kind, listed, inside⟩
    exact ⟨(path, kind), List.mem_filter.2 ⟨listed, inside⟩, rfl⟩

theorem directories_append (found rest : List (List N × K)) :
    directories descends (found ++ rest) =
      directories descends found ++ directories descends rest := by
  rw [directories, List.filter_append, List.map_append]
  rfl

/-- A walk visits what is below the directories it starts from, and nothing else. -/
theorem mem_visits (pending : List (List N)) (entries : List (List N × K))
    (visits : Visits descends world pending entries) (path : List N) (kind : K) :
    (path, kind) ∈ entries ↔ ∃ dir ∈ pending, Below descends world dir path kind := by
  induction visits with
  | done => simp
  | next dir names pending found rest listed each later ih =>
    rw [List.mem_append, ih, List.exists_mem_cons_iff]
    constructor
    · rintro (here | ⟨dir', among, below⟩)
      · obtain ⟨name, member, rfl, there⟩ := (mem_entries world dir names found each _ _).1 here
        exact .inl (.here dir names name kind listed member there)
      · rcases List.mem_append.1 among with own | other
        · obtain ⟨kind', entry, inside⟩ := (mem_directories descends found dir').1 own
          obtain ⟨name, member, rfl, there⟩ :=
            (mem_entries world dir names found each _ _).1 entry
          exact .inl (.deeper dir names name kind' path kind listed member there inside below)
        · exact .inr ⟨dir', other, below⟩
    · rintro (below | ⟨dir', other, below⟩)
      · cases below with
        | here _ names' name _ listed' member there =>
          cases listed.symm.trans listed'
          exact .inl ((mem_entries world dir names found each _ _).2 ⟨name, member, rfl, there⟩)
        | deeper _ names' name kind' _ _ listed' member there inside below =>
          cases listed.symm.trans listed'
          refine .inr ⟨dir ++ [name], List.mem_append_left _ ?_, below⟩
          exact (mem_directories descends found _).2
            ⟨kind', (mem_entries world dir names found each _ _).2 ⟨name, member, rfl, there⟩,
              inside⟩
      · exact .inr ⟨dir', List.mem_append_right _ other, below⟩

theorem kind_of_entries (dir names : List N) (found : List (List N × K))
    (each : Entries world dir names found) (name : N) (member : name ∈ names) :
    ∃ kind, world.kind (dir ++ [name]) = some kind := by
  induction each with
  | nil => cases member
  | cons first rest ih =>
    rcases List.mem_cons.1 member with rfl | later
    · rw [first.1] at first
      exact ⟨_, first.2⟩
    · exact ih later

/-- A directory a walk comes to is read whole. -/
theorem visits_whole (pending : List (List N)) (entries : List (List N × K))
    (visits : Visits descends world pending entries) (dir names : List N)
    (among : dir ∈ pending ∨ dir ∈ directories descends entries)
    (listed : world.names dir = some names) (name : N) (member : name ∈ names) :
    ∃ kind, (dir ++ [name], kind) ∈ entries := by
  induction visits with
  | done =>
    rcases among with first | visited
    · cases first
    · cases visited
  | next dir' names' pending found rest listed' each later ih =>
    have rest' (among : dir ∈ directories descends found ++ pending ∨
        dir ∈ directories descends rest) : ∃ kind, (dir ++ [name], kind) ∈ found ++ rest := by
      obtain ⟨kind, entry⟩ := ih among
      exact ⟨kind, List.mem_append_right _ entry⟩
    rw [directories_append, List.mem_append] at among
    rcases among with first | inner | visited
    · rcases List.mem_cons.1 first with rfl | later'
      · cases listed.symm.trans listed'
        obtain ⟨kind, there⟩ := kind_of_entries world dir names found each name member
        refine ⟨kind, List.mem_append_left _ ?_⟩
        exact (mem_entries world dir names found each _ _).2 ⟨name, member, rfl, there⟩
      · exact rest' (.inl (List.mem_append_right _ later'))
    · exact rest' (.inl (List.mem_append_left _ inner))
    · exact rest' (.inr visited)

theorem entries_unique (other : World N K) (dir names : List N) (found found' : List (List N × K))
    (each : Entries world dir names found) (each' : Entries other dir names found')
    (same : ∀ name ∈ names, world.kind (dir ++ [name]) = other.kind (dir ++ [name])) :
    found = found' := by
  induction each generalizing found' with
  | nil =>
    cases each'
    rfl
  | cons first rest ih =>
    cases each' with
    | cons first' rest' =>
      rename_i name entry names found entry' found'
      rw [List.forall_mem_cons] at same
      obtain ⟨path, kind⟩ := entry
      obtain ⟨path', kind'⟩ := entry'
      obtain ⟨rfl, there⟩ := first
      obtain ⟨rfl, there'⟩ := first'
      dsimp only at there there'
      rw [same.1, there'] at there
      cases there
      rw [ih found' rest' same.2]

/-- Names in a strict order are in one order only. -/
theorem ordered_unique (less : N → N → Prop) (asymm : ∀ one two, less one two → ¬less two one)
    (names names' : List N) (ordered : names.Pairwise less) (ordered' : names'.Pairwise less)
    (same : ∀ name, name ∈ names ↔ name ∈ names') : names = names' := by
  have distinct (names : List N) (ordered : names.Pairwise less) : names.Nodup := by
    apply ordered.imp
    rintro one two before rfl
    exact asymm one one before before
  have perm : names.Perm names' :=
    (List.perm_ext_iff_of_nodup (distinct names ordered) (distinct names' ordered')).2 same
  exact perm.eq_of_pairwise (fun one two _ _ before after => absurd after (asymm one two before))
    ordered ordered'

/-- What is below a subdirectory, told by what is below its directory. -/
theorem below_deeper (other : World N K) (dir : List N) (name : N) (path : List N) (kind : K)
    (inside : ∃ names kind', world.names dir = some names ∧ name ∈ names ∧
      world.kind (dir ++ [name]) = some kind' ∧ descends kind' = true)
    (same : Below descends world dir path kind → Below descends other dir path kind)
    (below : Below descends world (dir ++ [name]) path kind) :
    Below descends other (dir ++ [name]) path kind := by
  obtain ⟨names, kind', listed, member, there, descends'⟩ := inside
  obtain ⟨begins, longer⟩ := below_longer descends world _ _ _ below
  have whole := same (.deeper dir names name kind' path kind listed member there descends' below)
  cases whole with
  | here _ names' name' =>
    rw [List.length_append, List.length_append] at longer
    exact absurd longer (Nat.lt_irrefl _)
  | deeper _ names' name' kind'' _ _ listed' member' there' inside' below' =>
    obtain ⟨begins', -⟩ := below_longer descends other _ _ _ below'
    have path' : dir ++ [name] = dir ++ [name'] := by
      apply List.IsPrefix.eq_of_length
      · apply List.prefix_of_prefix_length_le begins begins'
        rw [List.length_append, List.length_append]
        exact Nat.le_refl _
      · rw [List.length_append, List.length_append]
        rfl
    rw [path']
    exact below'

/-- Two worlds that hold the same below the directories they are walked from, with the names of
each directory in order, are walked alike. -/
theorem visits_alike (other : World N K) (less : N → N → Prop)
    (asymm : ∀ one two, less one two → ¬less two one)
    (ordered : ∀ dir names, world.names dir = some names → names.Pairwise less)
    (ordered' : ∀ dir names, other.names dir = some names → names.Pairwise less)
    (pending : List (List N)) (entries entries' : List (List N × K))
    (visits : Visits descends world pending entries)
    (visits' : Visits descends other pending entries')
    (same : ∀ dir ∈ pending, ∀ path kind,
      Below descends world dir path kind ↔ Below descends other dir path kind) :
    entries = entries' := by
  induction visits generalizing entries' with
  | done =>
    cases visits'
    rfl
  | next dir names pending found rest listed each later ih =>
    cases visits' with
    | next _ names' _ found' rest' listed' each' later' =>
      rw [List.forall_mem_cons] at same
      obtain ⟨own, others⟩ := same
      have across (name : N) (member : name ∈ names) :
          name ∈ names' ∧ world.kind (dir ++ [name]) = other.kind (dir ++ [name]) := by
        obtain ⟨kind, there⟩ := kind_of_entries world dir names found each name member
        obtain ⟨_, listed'', member', there'⟩ := (below_child descends other dir name kind).1
          ((own _ kind).1 (.here dir names name kind listed member there))
        cases listed'.symm.trans listed''
        exact ⟨member', there.trans there'.symm⟩
      have back (name : N) (member : name ∈ names') : name ∈ names := by
        obtain ⟨kind, there⟩ := kind_of_entries other dir names' found' each' name member
        obtain ⟨_, listed'', member', -⟩ := (below_child descends world dir name kind).1
          ((own _ kind).2 (.here dir names' name kind listed' member there))
        cases listed.symm.trans listed''
        exact member'
      obtain rfl := ordered_unique less asymm names names' (ordered dir names listed)
        (ordered' dir names' listed') fun name => ⟨fun member => (across name member).1, back name⟩
      obtain rfl := entries_unique world other dir names found found' each each'
        fun name member => (across name member).2
      rw [ih rest' later']
      intro dir' among path kind
      rcases List.mem_append.1 among with inner | outer
      · obtain ⟨kind', entry, inside⟩ := (mem_directories descends found dir').1 inner
        obtain ⟨name, member, rfl, there⟩ := (mem_entries world dir names found each _ _).1 entry
        have there' := (across name member).2.symm.trans there
        exact ⟨below_deeper descends world other dir name path kind
            ⟨names, kind', listed, member, there, inside⟩ (own path kind).1,
          below_deeper descends other world dir name path kind
            ⟨names, kind', listed', member, there', inside⟩ (own path kind).2⟩
      · exact others dir' outer path kind

/-- A walk is the same in a world that reads what it visits alike. -/
theorem visits_transfer (other : World N K) (pending : List (List N))
    (entries : List (List N × K)) (visits : Visits descends world pending entries)
    (names : ∀ dir names, dir ∈ pending ∨ dir ∈ directories descends entries →
      world.names dir = some names → other.names dir = some names)
    (kinds : ∀ path kind, (path, kind) ∈ entries → other.kind path = some kind) :
    Visits descends other pending entries := by
  induction visits with
  | done => exact .done
  | next dir ns pending found rest listed each later ih =>
    rw [directories_append] at names
    refine .next dir ns pending found rest (names dir ns (.inl List.mem_cons_self) listed) ?_ ?_
    · unfold Entries at each ⊢
      rw [List.forall₂_iff_get] at each ⊢
      refine ⟨each.1, fun i first second => ⟨(each.2 i first second).1, ?_⟩⟩
      exact kinds _ _ (List.mem_append_left _ (List.get_mem found ⟨i, second⟩))
    · apply ih
      · intro dir' names' among listed'
        apply names dir' names' ?_ listed'
        rcases among with first | visited
        · rcases List.mem_append.1 first with inner | outer
          · exact .inr (List.mem_append_left _ inner)
          · exact .inl (List.mem_cons_of_mem _ outer)
        · exact .inr (List.mem_append_right _ visited)
      · exact fun path kind among => kinds path kind (List.mem_append_right _ among)

/-! ### Places visited once -/

def Apart (pending : List (List N)) : Prop :=
  pending.Pairwise fun one two => ¬one <+: two ∧ ¬two <+: one

/-- Nothing made so far is below a directory still to visit. -/
structure Ready (made pending : List (List N)) : Prop where
  apart : Apart pending
  fresh : ∀ dir ∈ pending, ∀ path ∈ made, dir <+: path → path = dir

theorem ready_child (made pending : List (List N)) (dir : List N) (name : N)
    (ready : Ready made (dir :: pending)) : dir ++ [name] ∉ made := by
  intro listed
  have same := ready.fresh dir List.mem_cons_self _ listed (List.prefix_append _ _)
  exact absurd (List.append_right_eq_self.1 same) (List.cons_ne_nil _ _)

theorem ready_next (made pending : List (List N)) (dir names : List N)
    (found : List (List N × K)) (ready : Ready made (dir :: pending))
    (each : Entries world dir names found) (distinct : names.Nodup) :
    Ready (made ++ found.map (·.1)) (directories descends found ++ pending) := by
  obtain ⟨apart, fresh⟩ := ready
  obtain ⟨first, others⟩ := List.pairwise_cons.1 apart
  rw [List.forall_mem_cons] at fresh
  obtain ⟨own, rest⟩ := fresh
  have paths : found.map (·.1) = names.map fun name => dir ++ [name] := by
    induction each with
    | nil => rfl
    | cons first' rest' ih =>
      rw [List.map_cons, List.map_cons, first'.1, ih (List.nodup_cons.1 distinct).2]
  have inner (path : List N) (listed : path ∈ directories descends found) :
      ∃ name ∈ names, path = dir ++ [name] := by
    obtain ⟨kind, entry, -⟩ := (mem_directories descends found path).1 listed
    obtain ⟨name, member, same, -⟩ := (mem_entries world dir names found each _ _).1 entry
    exact ⟨name, member, same⟩
  have level (name name' : N) (begins : dir ++ [name] <+: dir ++ [name']) :
      dir ++ [name'] = dir ++ [name] :=
    (begins.eq_of_length (by simp)).symm
  have outer (name : N) (path : List N) (begins : path <+: dir ++ [name])
      (other : path ∈ pending) : False := by
    rcases List.prefix_concat_iff.1 begins with same | shorter
    · exact (first path other).1 (same ▸ List.prefix_append _ _)
    · exact (first path other).2 shorter
  constructor
  · unfold Apart
    rw [List.pairwise_append]
    refine ⟨?_, others, ?_⟩
    · have sub : (directories descends found).Sublist (found.map (·.1)) :=
        List.filter_sublist.map _
      apply List.Pairwise.sublist sub
      rw [paths, List.pairwise_map]
      apply distinct.imp
      intro name name' other
      have apart' (one two : N) (differ : one ≠ two) : ¬dir ++ [one] <+: dir ++ [two] := by
        intro begins
        obtain ⟨-, same⟩ := List.append_inj (level one two begins) rfl
        exact differ (List.cons.inj same).1.symm
      exact ⟨apart' name name' other, apart' name' name other.symm⟩
    · intro path listed other among
      obtain ⟨name, -, rfl⟩ := inner path listed
      refine ⟨fun begins => ?_, fun begins => outer name other begins among⟩
      exact (first other among).1 ((List.prefix_append _ _).trans begins)
  · intro path listed made' among begins
    rw [paths] at among
    rcases List.mem_append.1 listed with child | pend
    · obtain ⟨name, -, rfl⟩ := inner path child
      rcases List.mem_append.1 among with old | new
      · have same := own made' old ((List.prefix_append _ _).trans begins)
        rw [same] at begins
        have length := begins.length_le
        rw [List.length_append] at length
        exact absurd length (Nat.not_succ_le_self _)
      · obtain ⟨name', -, rfl⟩ := List.mem_map.1 new
        exact level name name' begins
    · rcases List.mem_append.1 among with old | new
      · exact rest path pend made' old begins
      · obtain ⟨name', -, rfl⟩ := List.mem_map.1 new
        exact (outer name' path begins pend).elim

end

end DeepDiffForge.Walks
