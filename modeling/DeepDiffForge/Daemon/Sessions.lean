import DeepDiffForge.Lib.Decimal
import DeepDiffForge.Lib.Machine
import DeepDiffForge.Lib.Recency
import DeepDiffForge.Core.Review
import Mathlib.Data.List.MinMax
import Mathlib.Data.List.Sort

/-! The session table: at most so many sessions and so many bytes, the least recently used evicted
first. The order in which the map is walked is the order of `entries`, which any step may change. -/

namespace DeepDiffForge.Daemon.SessionTable
open Text DeepDiffForge.Core Machine Recency

def maxSessions : Nat := 64

def maxRetainedSessionBytes : Nat := 128 * 1024 * 1024

structure SessionEntry where
  files : List ReviewFile
  retainedBytes : Nat
  lastTick : Nat
  deriving DecidableEq

structure SessionPayload where
  files : List ReviewFile
  retainedBytes : Nat
  deriving DecidableEq

structure Sessions where
  entries : List (Str × SessionEntry)
  nextSession : Nat
  tick : Nat
  retainedBytes : Nat
  maxRetainedBytes : Nat
  deriving DecidableEq

structure RpcError where
  code : Int
  message : Str
  deriving DecidableEq

def resourceExhausted : Int := 8

def started (nextSession tick : UInt64) : Sessions :=
  ⟨[], nextSession.toNat, tick.toNat, 0, maxRetainedSessionBytes⟩

def reset (table : Sessions) : Sessions :=
  { table with entries := [], retainedBytes := 0, tick := 0 }

def rebase (entries : List (Str × SessionEntry)) : List (Str × SessionEntry) :=
  let ordered := (entries.map fun entry => (entry.1, entry.2.lastTick)).mergeSort
    fun one two => one.2 ≤ two.2
  entries.map fun entry =>
    (entry.1, { entry.2 with lastTick := (ordered.map (·.1)).idxOf entry.1 + 1 })

def nextTick (table : Sessions) : Sessions :=
  let rebased :=
    if table.tick = u64Max then
      { table with entries := rebase table.entries, tick := table.entries.length }
    else table
  { rebased with tick := rebased.tick + 1 }

def remove (table : Sessions) (id : Str) : Sessions × Bool :=
  match table.entries.find? fun entry => entry.1 = id with
  | none => (table, false)
  | some removed =>
      ({ table with
          entries := table.entries.filter fun entry => entry.1 ≠ id
          retainedBytes := table.retainedBytes - removed.2.retainedBytes },
        true)

def evictLru (table : Sessions) : Sessions × Bool :=
  match table.entries.argmin fun entry => entry.2.lastTick with
  | none => (table, false)
  | some entry => remove table entry.1

def makeRoom (retainedBytes : Nat) : Nat → Sessions → Sessions
  | 0, table => table
  | rounds + 1, table =>
      let over' := maxSessions ≤ table.entries.length ∨
        table.maxRetainedBytes < min (table.retainedBytes + retainedBytes) usizeMax
      if over' ∧ (evictLru table).2 = true then makeRoom retainedBytes rounds (evictLru table).1
      else table

def sessionId (n : Nat) : Str := 's' :: decimal n

/-- The first of so many candidates that no entry has, and the counter after it. -/
def freeId (entries : List (Str × SessionEntry)) : Nat → Nat → Option Str × Nat
  | 0, next => (none, next)
  | candidates + 1, next =>
      let after := if next = u64Max then 1 else next + 1
      if sessionId next ∈ entries.map (·.1) then freeId entries candidates after
      else (some (sessionId next), after)

def openSession (payload : SessionPayload) (table : Sessions) :
    Sessions × Except RpcError Str :=
  if table.maxRetainedBytes < payload.retainedBytes then
    (table, .error ⟨resourceExhausted, "session exceeds the retained-memory budget".toList⟩)
  else
    let roomy := makeRoom payload.retainedBytes (table.entries.length + 1) table
    let found := freeId roomy.entries (maxSessions + 1) roomy.nextSession
    let counted := { roomy with nextSession := found.2 }
    match found.1 with
    | none => (counted, .error ⟨resourceExhausted, "no free session id".toList⟩)
    | some id =>
        let ticked := nextTick counted
        ({ ticked with
            retainedBytes := min (ticked.retainedBytes + payload.retainedBytes) usizeMax
            entries := (ticked.entries.filter fun entry => entry.1 ≠ id) ++
              [(id, ⟨payload.files, payload.retainedBytes, ticked.tick⟩)] },
          .ok id)

def snapshotFiles (id : Str) (table : Sessions) : Sessions × Option (List ReviewFile) :=
  let ticked := nextTick table
  match ticked.entries.find? fun entry => entry.1 = id with
  | none => (ticked, none)
  | some held =>
      ({ ticked with
          entries := ticked.entries.map fun entry =>
            if entry.1 = id then (entry.1, { entry.2 with lastTick := ticked.tick }) else entry },
        some held.2.files)

def closeSession (id : Str) (table : Sessions) : Sessions × Bool := remove table id

/-- The operations; the map may also come to be walked in another order. -/
inductive Op where
  | openSession (payload : SessionPayload)
  | snapshotFiles (id : Str)
  | closeSession (id : Str)
  | reset
  | rehash (entries : List (Str × SessionEntry))

/-- The sessions from the least to the most recently opened or read, as the operations say. -/
abbrev Recent := List (Str × SessionPayload)

def weigh (recent : Recent) : Nat :=
  recent.foldr (fun entry sum => entry.2.retainedBytes + sum) 0

def roomFor (bytes : Nat) (recent : Recent) : Bool :=
  recent.length < maxSessions && weigh recent + bytes ≤ maxRetainedSessionBytes

structure State where
  table : Sessions
  recent : Recent

def step (state : State) : Op → Option State
  | .openSession payload =>
      some
        { table := (openSession payload state.table).1
          recent :=
            match (openSession payload state.table).2 with
            | .ok id => shed (roomFor payload.retainedBytes) state.recent ++ [(id, payload)]
            | .error _ => state.recent }
  | .snapshotFiles id =>
      some
        { table := (snapshotFiles id state.table).1
          recent := (state.recent.filter fun entry => entry.1 ≠ id) ++
            state.recent.filter fun entry => entry.1 = id }
  | .closeSession id =>
      some
        { table := (closeSession id state.table).1
          recent := state.recent.filter fun entry => entry.1 ≠ id }
  | .reset => some { table := reset state.table, recent := [] }
  | .rehash entries =>
      if entries.Perm state.table.entries then
        some { state with table := { state.table with entries } }
      else none

def held (entry : Str × SessionEntry) : Str × SessionPayload :=
  (entry.1, ⟨entry.2.files, entry.2.retainedBytes⟩)

def entryBytes (entries : List (Str × SessionEntry)) : Nat :=
  entries.foldr (fun entry sum => entry.2.retainedBytes + sum) 0

structure Tracks (table : Sessions) (ordered : List (Str × SessionEntry)) : Prop where
  same : ordered.Perm table.entries
  once : (ordered.map (·.1)).Nodup
  older : ordered.Pairwise fun one two => one.2.lastTick < two.2.lastTick
  ticked : ∀ entry ∈ ordered, entry.2.lastTick ≤ table.tick
  clock : table.tick ≤ u64Max
  counter : table.nextSession ≤ u64Max
  counted : table.retainedBytes = entryBytes ordered
  within : entryBytes ordered ≤ maxRetainedSessionBytes
  few : ordered.length ≤ maxSessions
  limit : table.maxRetainedBytes = maxRetainedSessionBytes

theorem entryBytes_perm (one two : List (Str × SessionEntry)) (same : one.Perm two) :
    entryBytes one = entryBytes two := by
  refine same.foldr_eq' ?_ 0
  intro one _ two _ sum
  omega

theorem entryBytes_append (one two : List (Str × SessionEntry)) :
    entryBytes (one ++ two) = entryBytes one + entryBytes two := by
  induction one with
  | nil => simp [entryBytes]
  | cons entry one ih =>
    simp only [entryBytes, List.cons_append, List.foldr_cons] at ih ⊢
    omega

theorem weigh_held (entries : List (Str × SessionEntry)) :
    weigh (entries.map held) = entryBytes entries := by
  simp [weigh, entryBytes, held, List.foldr_map]

theorem filter_once (entry : Str × SessionEntry) (rest : List (Str × SessionEntry))
    (once : ((entry :: rest).map (·.1)).Nodup) :
    (entry :: rest).filter (fun other => other.1 ≠ entry.1) = rest := by
  have apart := (List.nodup_cons.1 once).1
  rw [List.filter_cons_of_neg (by simp), List.filter_eq_self]
  intro other member
  rw [decide_eq_true_eq]
  intro same
  exact apart (List.mem_map.2 ⟨other, member, same⟩)

section Table
variable (table : Sessions) (ordered : List (Str × SessionEntry))

theorem Tracks.keys (tracks : Tracks table ordered) (id : Str) :
    id ∈ table.entries.map (·.1) ↔ id ∈ ordered.map (·.1) :=
  ((tracks.same.map _).mem_iff).symm

/-- A session leaves the table and its accounting. -/
theorem remove_tracks (tracks : Tracks table ordered) (id : Str) :
    Tracks (remove table id).1 (ordered.filter fun entry => entry.1 ≠ id) ∧
      ((remove table id).2 = true ↔ id ∈ table.entries.map (·.1)) := by
  rw [remove]
  cases search : table.entries.find? fun entry => entry.1 = id with
  | none =>
    have absent : ∀ entry ∈ table.entries, entry.1 ≠ id := by
      intro entry member
      simpa using List.find?_eq_none.1 search entry member
    have whole : (ordered.filter fun entry => entry.1 ≠ id) = ordered := by
      rw [List.filter_eq_self]
      intro entry member
      simpa using absent entry (tracks.same.mem_iff.1 member)
    rw [whole]
    refine ⟨tracks, ?_⟩
    simp only [Bool.false_eq_true, false_iff, List.mem_map, not_exists, not_and]
    exact absent
  | some removed =>
    have found : removed.1 = id := by simpa using List.find?_some search
    have member : removed ∈ ordered :=
      tracks.same.mem_iff.2 (List.mem_of_find?_eq_some search)
    have part := List.filter_sublist (l := ordered) (p := fun entry => decide (entry.1 ≠ id))
    have left : entryBytes ordered =
        removed.2.retainedBytes + entryBytes (ordered.filter fun entry => entry.1 ≠ id) := by
      obtain ⟨front, back, split⟩ := List.append_of_mem member
      have moved : ordered.Perm (removed :: (front ++ back)) := by
        rw [split]
        exact List.perm_middle
      have once := (moved.map (·.1)).nodup_iff.1 tracks.once
      have rest := filter_once removed (front ++ back) once
      rw [found] at rest
      rw [entryBytes_perm _ _ (moved.filter _), rest, entryBytes_perm _ _ moved]
      rfl
    refine ⟨⟨tracks.same.filter _, tracks.once.sublist (part.map _), tracks.older.sublist part,
      fun entry listed => tracks.ticked entry (part.subset listed), tracks.clock, tracks.counter,
      ?_, ?_, part.length_le.trans tracks.few, tracks.limit⟩, ?_⟩
    · simp only [tracks.counted]
      omega
    · have within := tracks.within
      omega
    · simp only [true_iff]
      exact List.mem_map.2 ⟨removed, List.mem_of_find?_eq_some search, found⟩

/-- The session evicted is the least recently used one. -/
theorem evictLru_tracks (first : Str × SessionEntry) (rest : List (Str × SessionEntry))
    (tracks : Tracks table (first :: rest)) :
    Tracks (evictLru table).1 rest ∧ (evictLru table).2 = true := by
  have member : first ∈ table.entries := tracks.same.mem_iff.1 (List.mem_cons_self ..)
  rw [evictLru]
  cases least : table.entries.argmin fun entry => entry.2.lastTick with
  | none =>
    rw [List.argmin_eq_none] at least
    rw [least] at member
    cases member
  | some entry =>
    have listed := tracks.same.mem_iff.2 (List.argmin_mem least)
    have low := List.le_of_mem_argmin member least
    have same : entry = first := by
      rcases List.mem_cons.1 listed with same | later
      · exact same
      · have above := List.rel_of_pairwise_cons tracks.older later
        omega
    have removed := remove_tracks table (first :: rest) tracks first.1
    rw [filter_once first rest tracks.once] at removed
    rw [same]
    exact ⟨removed.1, removed.2.2 (List.mem_map_of_mem member)⟩

/-- The eviction loop leaves what shedding leaves. -/
theorem makeRoom_tracks (bytes rounds : Nat) (tracks : Tracks table ordered)
    (enough : ordered.length < rounds) :
    Tracks (makeRoom bytes rounds table) (shed (roomFor bytes ∘ List.map held) ordered) ∧
      (makeRoom bytes rounds table).nextSession = table.nextSession ∧
      (makeRoom bytes rounds table).tick = table.tick := by
  induction rounds generalizing table ordered with
  | zero => omega
  | succ rounds ih =>
    have length := tracks.same.length_eq
    have counted := tracks.counted
    have limit := tracks.limit
    have over' : (maxSessions ≤ table.entries.length ∨
        table.maxRetainedBytes < min (table.retainedBytes + bytes) usizeMax) ↔
        roomFor bytes (ordered.map held) = false := by
      rw [roomFor, weigh_held, List.length_map, counted, limit, ← length,
        Bool.and_eq_false_iff, decide_eq_false_iff_not, decide_eq_false_iff_not]
      have large : maxRetainedSessionBytes < usizeMax := by decide
      omega
    rw [makeRoom]
    cases ordered with
    | nil =>
      have absent : (evictLru table).2 = false := by
        have empty : table.entries = [] := List.length_eq_zero_iff.1 length.symm
        rw [evictLru, empty]
        rfl
      rw [if_neg (by simp [absent])]
      exact ⟨tracks, rfl, rfl⟩
    | cons first rest =>
      obtain ⟨evicted, present⟩ := evictLru_tracks table first rest tracks
      rw [shed, Function.comp_apply, present]
      by_cases fit : roomFor bytes (List.map held (first :: rest)) = true
      · have calm := mt over'.1 (by rw [fit]; decide)
        rw [if_pos fit, if_neg fun both => calm both.1]
        exact ⟨tracks, rfl, rfl⟩
      · rw [if_neg fit, if_pos ⟨over'.2 (Bool.eq_false_iff.2 fit), rfl⟩]
        obtain ⟨left, counter, clock⟩ := ih _ rest evicted (by simpa using enough)
        refine ⟨left, counter.trans ?_, clock.trans ?_⟩
        · rw [evictLru]
          split
          · rfl
          · rw [remove]
            split <;> rfl
        · rw [evictLru]
          split
          · rfl
          · rw [remove]
            split <;> rfl

end Table

def candidate (next i : Nat) : Nat := if next + i ≤ u64Max then next + i else next + i - u64Max

theorem sessionId_inj (one two : Nat) (same : sessionId one = sessionId two) : one = two := by
  have digits := (List.cons.inj same).2
  rw [← ofDigitChars_decimal one, digits, ofDigitChars_decimal]

theorem candidate_inj (next i j : Nat) (small : i < u64Max) (small' : j < u64Max)
    (same : candidate next i = candidate next j) : i = j := by
  simp only [candidate] at same
  split_ifs at same <;> omega

theorem candidate_step (next i : Nat) (small : i + 1 < u64Max) :
    candidate (if next = u64Max then 1 else next + 1) i = candidate next (i + 1) := by
  simp only [candidate]
  split_ifs <;> omega

theorem freeId_spec (entries : List (Str × SessionEntry)) (candidates next : Nat)
    (bound : next ≤ u64Max) (few : candidates < u64Max) :
    (freeId entries candidates next).2 ≤ u64Max ∧
    match (freeId entries candidates next).1 with
    | some id => id ∉ entries.map (·.1)
    | none => ∀ i < candidates, sessionId (candidate next i) ∈ entries.map (·.1) := by
  induction candidates generalizing next with
  | zero => exact ⟨bound, fun i less => absurd less (Nat.not_lt_zero i)⟩
  | succ candidates ih =>
    have after : (if next = u64Max then 1 else next + 1) ≤ u64Max := by
      split_ifs
      · decide
      · omega
    have rest := ih _ after (by omega)
    rw [freeId]
    by_cases taken : sessionId next ∈ entries.map (·.1)
    · rw [if_pos taken]
      refine ⟨rest.1, ?_⟩
      have later := rest.2
      cases found : (freeId entries candidates (if next = u64Max then 1 else next + 1)).1 with
      | some id =>
        rw [found] at later
        exact later
      | none =>
        rw [found] at later
        intro i less
        cases i with
        | zero =>
          have here : candidate next 0 = next := if_pos bound
          rw [here]
          exact taken
        | succ i =>
          rw [← candidate_step next i (by omega)]
          exact later i (by omega)
    · rw [if_neg taken]
      exact ⟨after, taken⟩

theorem freeId_some (entries : List (Str × SessionEntry)) (candidates next : Nat)
    (bound : next ≤ u64Max) (few : candidates < u64Max) (less : entries.length < candidates) :
    ∃ id, (freeId entries candidates next).1 = some id ∧ id ∉ entries.map (·.1) := by
  have spec := (freeId_spec entries candidates next bound few).2
  cases found : (freeId entries candidates next).1 with
  | some id =>
    rw [found] at spec
    exact ⟨id, rfl, spec⟩
  | none =>
    rw [found] at spec
    have once : ((List.range candidates).map fun i => sessionId (candidate next i)).Nodup := by
      refine List.Nodup.map_on ?_ List.nodup_range
      intro i first j second same
      rw [List.mem_range] at first second
      exact candidate_inj next i j (by omega) (by omega) (sessionId_inj _ _ same)
    have all : ∀ id ∈ (List.range candidates).map fun i => sessionId (candidate next i),
        id ∈ entries.map (·.1) := by
      intro id member
      obtain ⟨i, inside, rfl⟩ := List.mem_map.1 member
      exact spec i (List.mem_range.1 inside)
    have most := (List.subperm_of_subset once all).length_le
    simp only [List.length_map, List.length_range] at most
    omega

section Table
variable (table : Sessions) (ordered : List (Str × SessionEntry))

theorem rebase_order (tracks : Tracks table ordered) :
    ((table.entries.map fun entry => (entry.1, entry.2.lastTick)).mergeSort
      fun one two => one.2 ≤ two.2).map (·.1) = ordered.map (·.1) := by
  have sorted : (table.entries.map fun entry => (entry.1, entry.2.lastTick)).mergeSort
      (fun one two => one.2 ≤ two.2) = ordered.map fun entry => (entry.1, entry.2.lastTick) := by
    refine @List.Perm.eq_of_pairwise _ (fun one two => one.2 ≤ two.2) _ _ ?_ ?_ ?_ ?_
    · intro one two first second below above
      have listed := (List.mergeSort_perm _ _).mem_iff.1 first
      obtain ⟨entry, member, rfl⟩ := List.mem_map.1 listed
      obtain ⟨other, member', rfl⟩ := List.mem_map.1 second
      have member := tracks.same.mem_iff.2 member
      have tie : entry.2.lastTick = other.2.lastTick := Nat.le_antisymm below above
      have apart : (ordered.map fun entry => entry.2.lastTick).Nodup :=
        List.pairwise_map.2 (tracks.older.imp Nat.ne_of_lt)
      rw [List.inj_on_of_nodup_map apart member member' tie]
    · have sorted := @List.pairwise_mergeSort _ (fun one two : Str × Nat => one.2 ≤ two.2)
        (fun one two three first second => by
          simp only [decide_eq_true_eq] at first second ⊢
          exact first.trans second)
        (fun one two => by
          simp only [Bool.or_eq_true, decide_eq_true_eq]
          exact Nat.le_total _ _)
        (table.entries.map fun entry => (entry.1, entry.2.lastTick))
      simpa using sorted
    · exact List.pairwise_map.2 (tracks.older.imp Nat.le_of_lt)
    · exact (List.mergeSort_perm _ _).trans (tracks.same.map _).symm
  rw [sorted, List.map_map]
  rfl

def placed (ids : List Str) (entry : Str × SessionEntry) : Str × SessionEntry :=
  (entry.1, { entry.2 with lastTick := ids.idxOf entry.1 + 1 })

theorem entryBytes_placed (ids : List Str) (entries : List (Str × SessionEntry)) :
    entryBytes (entries.map (placed ids)) = entryBytes entries := by
  simp [entryBytes, placed, List.foldr_map]

theorem rebase_older (tracks : Tracks table ordered) :
    (ordered.map (placed (ordered.map (·.1)))).Pairwise fun one two =>
      one.2.lastTick < two.2.lastTick := by
  rw [List.pairwise_map, List.pairwise_iff_getElem]
  intro i j first second less
  have place (k : Nat) (inside : k < ordered.length) :
      (ordered.map (·.1)).idxOf ordered[k].1 = k := by
    have listed : k < (ordered.map (·.1)).length := by rwa [List.length_map]
    have here := tracks.once.idxOf_getElem k listed
    rwa [List.getElem_map] at here
  simp only [placed, place i first, place j second]
  omega

/-- The clock moves past every entry; the order of use stays. -/
theorem nextTick_tracks (tracks : Tracks table ordered) :
    ∃ ordered', Tracks (nextTick table) ordered' ∧ ordered'.map held = ordered.map held ∧
      (∀ entry ∈ ordered', entry.2.lastTick < (nextTick table).tick) := by
  have few := tracks.few
  by_cases last : table.tick = u64Max
  · have next : nextTick table =
        { table with
          entries := table.entries.map (placed (ordered.map (·.1)))
          tick := table.entries.length + 1 } := by
      rw [nextTick, if_pos last, rebase, rebase_order table ordered tracks]
      rfl
    have low : ∀ entry ∈ ordered.map (placed (ordered.map (·.1))),
        entry.2.lastTick < table.entries.length + 1 := by
      intro entry listed
      obtain ⟨old, member, rfl⟩ := List.mem_map.1 listed
      have inside := List.idxOf_lt_length_of_mem (List.mem_map_of_mem (f := (·.1)) member)
      rw [List.length_map, tracks.same.length_eq] at inside
      simp only [placed]
      omega
    have ids : (ordered.map (placed (ordered.map (·.1)))).map (·.1) = ordered.map (·.1) := by
      rw [List.map_map]
      rfl
    refine ⟨ordered.map (placed (ordered.map (·.1))), ?_, ?_, ?_⟩
    · rw [next]
      refine ⟨tracks.same.map _, by rw [ids]; exact tracks.once,
        rebase_older table ordered tracks, fun entry listed => (low entry listed).le, ?_,
        tracks.counter, ?_, ?_, by rwa [List.length_map], tracks.limit⟩
      · have small : maxSessions + 1 ≤ u64Max := by decide
        have length := tracks.same.length_eq
        dsimp only
        omega
      · rw [entryBytes_placed]
        exact tracks.counted
      · rw [entryBytes_placed]
        exact tracks.within
    · rw [List.map_map]
      rfl
    · rw [next]
      exact low
  · have next : nextTick table = { table with tick := table.tick + 1 } := by
      rw [nextTick, if_neg last]
    have clock := tracks.clock
    have low : ∀ entry ∈ ordered, entry.2.lastTick < table.tick + 1 :=
      fun entry listed => Nat.lt_succ_of_le (tracks.ticked entry listed)
    refine ⟨ordered, ?_, rfl, by rw [next]; exact low⟩
    rw [next]
    exact ⟨tracks.same, tracks.once, tracks.older, fun entry listed => (low entry listed).le,
      by dsimp only; omega, tracks.counter, tracks.counted, tracks.within, tracks.few,
      tracks.limit⟩

/-- An accepted open: the sessions shed are gone, and the new one is the last used. -/
theorem openSession_tracks (payload : SessionPayload) (tracks : Tracks table ordered) :
    (table.maxRetainedBytes < payload.retainedBytes ∧
      ∃ error, openSession payload table = (table, .error error)) ∨
    ∃ id ordered', (openSession payload table).2 = .ok id ∧
      (roomFor payload.retainedBytes ∘ List.map held)
        (shed (roomFor payload.retainedBytes ∘ List.map held) ordered) = true ∧
      id ∉ (shed (roomFor payload.retainedBytes ∘ List.map held) ordered).map (·.1) ∧
      Tracks (openSession payload table).1 ordered' ∧
      ordered'.map held =
        (shed (roomFor payload.retainedBytes ∘ List.map held) ordered).map held ++
          [(id, payload)] := by
  by_cases heavy : table.maxRetainedBytes < payload.retainedBytes
  · refine .inl ⟨heavy,
      ⟨resourceExhausted, "session exceeds the retained-memory budget".toList⟩, ?_⟩
    rw [openSession, if_pos heavy]
  · right
    have length := tracks.same.length_eq
    obtain ⟨roomy, -, -⟩ := makeRoom_tracks table ordered payload.retainedBytes
      (table.entries.length + 1) tracks (by omega)
    have limit := tracks.limit
    have empty : (roomFor payload.retainedBytes ∘ List.map held)
        ([] : List (Str × SessionEntry)) = true := by
      have positive : 0 < maxSessions := by decide
      simp only [Function.comp_apply, List.map_nil, roomFor, weigh, List.foldr_nil,
        List.length_nil, Bool.and_eq_true, decide_eq_true_eq]
      omega
    have fit := shed_fits (roomFor payload.retainedBytes ∘ List.map held) ordered empty
    have left' := fit
    rw [openSession, if_neg heavy]
    dsimp only
    generalize shed (roomFor payload.retainedBytes ∘ List.map held) ordered = left
      at roomy fit left' ⊢
    generalize makeRoom payload.retainedBytes (table.entries.length + 1) table = room at roomy ⊢
    rw [Function.comp_apply, roomFor, weigh_held, List.length_map, Bool.and_eq_true,
      decide_eq_true_eq, decide_eq_true_eq] at fit
    have fewer : room.entries.length < maxSessions + 1 := by
      have same := roomy.same.length_eq
      omega
    have counter := (freeId_spec room.entries (maxSessions + 1) room.nextSession roomy.counter
      (by decide)).1
    obtain ⟨id, found, fresh⟩ := freeId_some room.entries (maxSessions + 1) room.nextSession
      roomy.counter (by decide) fewer
    rw [found]
    dsimp only
    have counted : Tracks
        { room with
          nextSession := (freeId room.entries (maxSessions + 1) room.nextSession).2 } left :=
      ⟨roomy.same, roomy.once, roomy.older, roomy.ticked, roomy.clock, counter, roomy.counted,
        roomy.within, roomy.few, roomy.limit⟩
    obtain ⟨ordered', ticked, kept, below⟩ := nextTick_tracks _ _ counted
    have keys : ordered'.map (·.1) = left.map (·.1) := by
      have ids := congrArg (List.map fun entry : Str × SessionPayload => entry.1) kept
      simpa [held, List.map_map, Function.comp_def] using ids
    have bytes : entryBytes ordered' = entryBytes left := by
      rw [← weigh_held, kept, weigh_held]
    have width : ordered'.length = left.length := by
      have lengths := congrArg List.length kept
      rwa [List.length_map, List.length_map] at lengths
    have fresh' : id ∉ left.map (·.1) := by
      rwa [← roomy.keys room left]
    generalize nextTick { room with
      nextSession := (freeId room.entries (maxSessions + 1) room.nextSession).2 } = after
      at ticked below ⊢
    refine ⟨id, ordered' ++ [(id, ⟨payload.files, payload.retainedBytes, after.tick⟩)], rfl,
      left', fresh', ?_, by rw [List.map_append, kept]; rfl⟩
    have absent : (after.entries.filter fun entry => entry.1 ≠ id) = after.entries := by
      rw [List.filter_eq_self]
      intro entry member
      rw [decide_eq_true_eq]
      rintro rfl
      exact fresh' (keys ▸ List.mem_map_of_mem (ticked.same.mem_iff.2 member))
    have sum : entryBytes (ordered' ++ [(id, ⟨payload.files, payload.retainedBytes, after.tick⟩)]) =
        entryBytes left + payload.retainedBytes := by
      rw [entryBytes_append, bytes]
      rfl
    have large : maxRetainedSessionBytes < usizeMax := by decide
    rw [absent]
    refine ⟨ticked.same.append_right _, ?_, ?_, ?_, ticked.clock, ticked.counter, ?_, ?_, ?_,
      ticked.limit⟩
    · rw [List.map_append, keys]
      exact List.nodup_append.2 ⟨roomy.once, List.nodup_singleton _, by
        intro one first two second same
        rw [List.map_singleton, List.mem_singleton] at second
        rw [same, second] at first
        exact fresh' first⟩
    · rw [List.pairwise_append]
      refine ⟨ticked.older, List.pairwise_singleton _ _, ?_⟩
      intro one first two second
      rw [List.mem_singleton.1 second]
      exact below one first
    · intro entry member
      rcases List.mem_append.1 member with member | last
      · exact ticked.ticked entry member
      · rw [List.mem_singleton.1 last]
    · rw [sum]
      simp only [ticked.counted, bytes]
      omega
    · rw [sum]
      omega
    · rw [List.length_append, width, List.length_singleton]
      omega

theorem filter_held (keep : Str → Bool) (entries : List (Str × SessionEntry)) :
    (entries.map held).filter (fun entry => keep entry.1) =
      (entries.filter fun entry => keep entry.1).map held := by
  rw [List.filter_map]
  rfl

theorem filter_id (entry : Str × SessionEntry) (once : (ordered.map (·.1)).Nodup)
    (member : entry ∈ ordered) : (ordered.filter fun other => other.1 = entry.1) = [entry] := by
  obtain ⟨front, back, split⟩ := List.append_of_mem member
  have moved : ordered.Perm (entry :: (front ++ back)) := by
    rw [split]
    exact List.perm_middle
  have apart := (List.nodup_cons.1 ((moved.map (·.1)).nodup_iff.1 once)).1
  have alone : (entry :: (front ++ back)).filter (fun other => other.1 = entry.1) = [entry] := by
    rw [List.filter_cons_of_pos (by simp), List.filter_eq_nil_iff.2]
    intro other listed
    rw [decide_eq_true_eq]
    intro same
    exact apart (List.mem_map.2 ⟨other, listed, same⟩)
  have perm := moved.filter fun other => decide (other.1 = entry.1)
  rw [alone] at perm
  exact List.perm_singleton.1 perm

/-- A session read is the last used. -/
theorem snapshotFiles_tracks (id : Str) (tracks : Tracks table ordered) :
    ∃ ordered', Tracks (snapshotFiles id table).1 ordered' ∧
      ordered'.map held = ((ordered.map held).filter fun entry => entry.1 ≠ id) ++
        (ordered.map held).filter fun entry => entry.1 = id := by
  obtain ⟨turned, ticked, kept, below⟩ := nextTick_tracks table ordered tracks
  rw [← kept, snapshotFiles]
  dsimp only
  generalize nextTick table = after at ticked below ⊢
  cases search : after.entries.find? fun entry => entry.1 = id with
  | none =>
    have absent : ∀ entry ∈ turned.map held, entry.1 ≠ id := by
      intro entry member
      obtain ⟨old, listed, rfl⟩ := List.mem_map.1 member
      have apart := List.find?_eq_none.1 search old (ticked.same.mem_iff.1 listed)
      rw [decide_eq_true_eq] at apart
      exact apart
    refine ⟨turned, ticked, ?_⟩
    rw [List.filter_eq_self.2, List.filter_eq_nil_iff.2, List.append_nil]
    · intro entry member
      simpa using absent entry member
    · intro entry member
      simpa using absent entry member
  | some found =>
    have named : found.1 = id := by simpa using List.find?_some search
    have member : found ∈ turned := ticked.same.mem_iff.2 (List.mem_of_find?_eq_some search)
    subst named
    have this := filter_id turned found ticked.once member
    have parts := List.filter_append_perm (fun other => decide (other.1 ≠ found.1)) turned
    have negated : (turned.filter fun other => !decide (other.1 ≠ found.1)) = [found] := by
      simpa using this
    rw [negated] at parts
    have others := List.filter_sublist (l := turned) (p := fun other => decide (other.1 ≠ found.1))
    have sum : entryBytes (turned.filter fun other => other.1 ≠ found.1) +
        found.2.retainedBytes = entryBytes turned := by
      rw [← entryBytes_perm _ _ parts, entryBytes_append]
      rfl
    have bytes : entryBytes ((turned.filter fun other => other.1 ≠ found.1) ++
        [(found.1, { found.2 with lastTick := after.tick })]) = entryBytes turned := by
      rw [entryBytes_append, ← sum]
      rfl
    refine ⟨(turned.filter fun other => other.1 ≠ found.1) ++
      [(found.1, { found.2 with lastTick := after.tick })], ?_, ?_⟩
    · refine ⟨?_, ?_, ?_, ?_, ticked.clock, ticked.counter, ?_, ?_, ?_, ticked.limit⟩
      · have mapped := (parts.trans ticked.same).map fun entry =>
          if entry.1 = found.1 then (entry.1, { entry.2 with lastTick := after.tick }) else entry
        rw [List.map_append, List.map_singleton, if_pos rfl] at mapped
        have whole : (turned.filter fun other => other.1 ≠ found.1).map (fun entry =>
            if entry.1 = found.1 then (entry.1, { entry.2 with lastTick := after.tick })
            else entry) = turned.filter fun other => other.1 ≠ found.1 := by
          conv_rhs => rw [← List.map_id (turned.filter fun other => other.1 ≠ found.1)]
          apply List.map_congr_left
          intro entry listed
          rw [if_neg (by simpa using (List.mem_filter.1 listed).2)]
          rfl
        rwa [whole] at mapped
      · have ids := (parts.map (·.1)).nodup_iff.2 ticked.once
        rwa [List.map_append, List.map_singleton] at ids ⊢
      · rw [List.pairwise_append]
        refine ⟨ticked.older.sublist others, List.pairwise_singleton _ _, ?_⟩
        intro one first two second
        rw [List.mem_singleton.1 second]
        exact below one (others.subset first)
      · intro entry listed
        rcases List.mem_append.1 listed with listed | last
        · exact ticked.ticked entry (others.subset listed)
        · rw [List.mem_singleton.1 last]
      · rw [bytes]
        exact ticked.counted
      · rw [bytes]
        exact ticked.within
      · have width := parts.length_eq
        rw [List.length_append, List.length_singleton] at width ⊢
        exact width ▸ ticked.few
    · rw [List.map_append, filter_held (fun key => decide (key ≠ found.1)),
        filter_held (fun key => decide (key = found.1)), this]
      rfl

theorem reset_tracks (tracks : Tracks table ordered) : Tracks (reset table) [] :=
  ⟨List.Perm.refl _, List.nodup_nil, List.Pairwise.nil, by simp, Nat.zero_le _, tracks.counter, rfl,
    Nat.zero_le _, Nat.zero_le _, tracks.limit⟩

end Table

theorem started_tracks (nextSession tick : UInt64) : Tracks (started nextSession tick) [] :=
  ⟨List.Perm.refl _, List.nodup_nil, List.Pairwise.nil, by simp,
    Nat.le_sub_one_of_lt tick.toNat_lt, Nat.le_sub_one_of_lt nextSession.toNat_lt, rfl,
    Nat.zero_le _, Nat.zero_le _, rfl⟩

def Agrees (state : State) : Prop :=
  ∃ ordered, Tracks state.table ordered ∧ ordered.map held = state.recent

theorem step_agrees (state state' : State) (op : Op) (agrees : Agrees state)
    (taken : step state op = some state') : Agrees state' := by
  obtain ⟨ordered, tracks, uses⟩ := agrees
  cases op with
  | openSession payload =>
    obtain rfl := Option.some.inj taken
    rcases openSession_tracks state.table ordered payload tracks with
      ⟨_, error, refused⟩ | ⟨id, ordered', accepted, _, _, tracks', uses'⟩
    · refine ⟨ordered, ?_, ?_⟩
      · rw [refused]
        exact tracks
      · rw [refused]
        exact uses
    · refine ⟨ordered', tracks', ?_⟩
      have same := shed_map held (roomFor payload.retainedBytes ∘ List.map held)
        (roomFor payload.retainedBytes) (fun _ => rfl) ordered
      dsimp only
      rw [accepted, uses', ← same, uses]
  | snapshotFiles id =>
    obtain rfl := Option.some.inj taken
    obtain ⟨ordered', tracks', uses'⟩ := snapshotFiles_tracks state.table ordered id tracks
    exact ⟨ordered', tracks', by rw [uses', uses]⟩
  | closeSession id =>
    obtain rfl := Option.some.inj taken
    refine ⟨_, (remove_tracks state.table ordered tracks id).1, ?_⟩
    rw [← uses]
    exact (filter_held (fun key => decide (key ≠ id)) ordered).symm
  | reset =>
    obtain rfl := Option.some.inj taken
    exact ⟨[], reset_tracks state.table ordered tracks, rfl⟩
  | rehash entries =>
    rw [step] at taken
    split_ifs at taken with same
    obtain rfl := Option.some.inj taken
    exact ⟨ordered, ⟨tracks.same.trans same.symm, tracks.once, tracks.older, tracks.ticked,
      tracks.clock, tracks.counter, tracks.counted, tracks.within, tracks.few, tracks.limit⟩, uses⟩

/-- After any operations the table is within its bounds and its accounting holds, and an open
evicts the shortest least recently used part that makes room. -/
theorem sessions_bounded (nextSession tick : UInt64) (ops : List Op) (state : State)
    (reached : run step ⟨started nextSession tick, []⟩ ops = some state) :
    state.table.entries.length ≤ maxSessions ∧
    state.table.retainedBytes = entryBytes state.table.entries ∧
    state.table.retainedBytes ≤ state.table.maxRetainedBytes ∧
    (state.table.entries.map (·.2.lastTick)).Nodup ∧
    (∀ entry ∈ state.table.entries, entry.2.lastTick ≤ state.table.tick) ∧
    (∃ ordered : List (Str × SessionEntry), ordered.Perm state.table.entries ∧
      (ordered.Pairwise fun one two => one.2.lastTick < two.2.lastTick) ∧
      ordered.map held = state.recent) ∧
    ∀ payload,
      (∀ error, (openSession payload state.table).2 = .error error →
        (openSession payload state.table).1 = state.table) ∧
      ∀ id, (openSession payload state.table).2 = .ok id →
        ∃ gone kept, state.recent = gone ++ kept ∧ id ∉ kept.map (·.1) ∧
          roomFor payload.retainedBytes kept = true ∧
          (∀ shorter extra, gone = shorter ++ extra → extra ≠ [] →
            roomFor payload.retainedBytes (extra ++ kept) = false) ∧
          ((openSession payload state.table).1.entries.map held).Perm
            (kept ++ [(id, payload)]) := by
  obtain ⟨ordered, tracks, uses⟩ := run_keeps step (fun state _ => Agrees state)
    (fun state op ops state' agrees taken => step_agrees state state' op agrees taken)
    ⟨started nextSession tick, []⟩ state ops ⟨[], started_tracks nextSession tick, rfl⟩ reached
  have bytes := entryBytes_perm _ _ tracks.same
  refine ⟨tracks.same.length_eq ▸ tracks.few, tracks.counted.trans bytes, ?_, ?_, ?_,
    ⟨ordered, tracks.same, tracks.older, uses⟩, ?_⟩
  · rw [tracks.counted, tracks.limit]
    exact tracks.within
  · refine (tracks.same.map _).nodup_iff.1 ?_
    exact List.pairwise_map.2 (tracks.older.imp Nat.ne_of_lt)
  · intro entry member
    exact tracks.ticked entry (tracks.same.mem_iff.2 member)
  · intro payload
    rcases openSession_tracks state.table ordered payload tracks with
      ⟨_, error, refused⟩ | ⟨id, ordered', accepted, fit, fresh, tracks', uses'⟩
    · rw [refused]
      refine ⟨fun _ _ => rfl, ?_⟩
      intro id taken
      cases taken
    · rw [accepted]
      constructor
      · intro error taken
        cases taken
      intro named taken
      obtain rfl := Except.ok.inj taken
      have same := shed_map held (roomFor payload.retainedBytes ∘ List.map held)
        (roomFor payload.retainedBytes) (fun _ => rfl) ordered
      obtain ⟨gone, whole, least⟩ := shed_shortest (roomFor payload.retainedBytes) state.recent
      rw [← uses, same] at whole least
      refine ⟨gone, _, uses ▸ whole, ?_, ?_, least, ?_⟩
      · rw [List.map_map]
        exact fresh
      · exact fit
      · rw [← uses']
        exact (tracks'.same.map held).symm

/-- Two opens and a read of the first, then an open that evicts the second. -/
def sampleOps : List Op :=
  [.openSession ⟨[], 100⟩, .openSession ⟨[], maxRetainedSessionBytes - 100⟩, .snapshotFiles ['s', '7'],
    .openSession ⟨[], 1⟩]

def sampleState : State :=
  ⟨⟨[(['s', '7'], ⟨[], 100, 3⟩), (['s', '9'], ⟨[], 1, 4⟩)], 10, 4, 101, maxRetainedSessionBytes⟩,
    [(['s', '7'], ⟨[], 100⟩), (['s', '9'], ⟨[], 1⟩)]⟩

theorem sampleOps_run : run step ⟨started 7 0, []⟩ sampleOps = some sampleState := by
  rfl

/-- The run above, read off the general theorem. -/
theorem sessions_bounded_sample : sampleState.table.retainedBytes = entryBytes
    sampleState.table.entries :=
  (sessions_bounded 7 0 sampleOps sampleState sampleOps_run).2.1

end DeepDiffForge.Daemon.SessionTable
