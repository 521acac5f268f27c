import DeepDiffForge.Lib.Machine
import DeepDiffForge.Core.Review
import Mathlib.Algebra.GroupWithZero.Nat
import Mathlib.Order.Bounds.Basic

/-! The bytes all connections hold while they read, under one budget. Each event is one atomic
operation, or the local end of a refused grow; a weak exchange may miss for no reason. -/

namespace DeepDiffForge.Daemon.ReadBudget
open DeepDiffForge.Core Machine

/-- Where a reservation stands. A grow borrows it, so it drops only when it is idle. -/
inductive Phase where
  | idle
  | trying (bytes seen : Nat)
  | exchanged (bytes total : Nat)
  | dropped
  deriving DecidableEq

structure ReadReservation where
  held : Nat
  phase : Phase
  deriving DecidableEq

structure Budget where
  limit : Nat
  held : Nat
  peak : Nat
  reservations : List ReadReservation
  deriving DecidableEq

def new (limit : Nat) : Budget := ⟨limit, 0, 0, []⟩

inductive Event where
  | reserve
  | load (id bytes : Nat)
  | exchange (id bytes : Nat)
  | miss (id : Nat)
  | refuse (id : Nat)
  | raise (id : Nat)
  | drop (id : Nat)
  deriving DecidableEq

/-- `held.checked_add(bytes).filter(|total| *total <= limit)`. -/
def checkedTotal (limit seen bytes : Nat) : Option Nat :=
  (if seen + bytes ≤ usizeMax then some (seen + bytes) else none).filter (· ≤ limit)

/-- `usize` addition and `fetch_sub`, which wrap. -/
def wrappingAdd (one two : Nat) : Nat := (one + two) % (usizeMax + 1)
def wrappingSub (whole part : Nat) : Nat := (whole + (usizeMax + 1) - part) % (usizeMax + 1)

def Budget.put (budget : Budget) (id : Nat) (reservation : ReadReservation) : Budget :=
  { budget with reservations := budget.reservations.set id reservation }

/-- One step of the reservation `id`, which stands in some phase. -/
def act (budget : Budget) (id : Nat) (reservation : ReadReservation) :
    Phase → Event → Option Budget
  | .idle, .load _ bytes =>
      some (budget.put id { reservation with phase := .trying bytes budget.held })
  | .trying bytes seen, .exchange _ asked =>
      match checkedTotal budget.limit seen bytes with
      | some total =>
          if asked = bytes ∧ budget.held = seen then
            some { budget.put id { reservation with phase := .exchanged bytes total } with
              held := total }
          else none
      | none => none
  | .trying bytes seen, .miss _ =>
      match checkedTotal budget.limit seen bytes with
      | some _ => some (budget.put id { reservation with phase := .trying bytes budget.held })
      | none => none
  | .trying bytes seen, .refuse _ =>
      match checkedTotal budget.limit seen bytes with
      | some _ => none
      | none => some (budget.put id { reservation with phase := .idle })
  | .exchanged bytes total, .raise _ =>
      some { budget.put id ⟨wrappingAdd reservation.held bytes, .idle⟩ with
        peak := max budget.peak total }
  | .idle, .drop _ =>
      some { budget.put id { reservation with phase := .dropped } with
        held := wrappingSub budget.held reservation.held }
  | _, _ => none

def Event.owner : Event → Option Nat
  | .reserve => none
  | .load id _ | .exchange id _ | .miss id | .refuse id | .raise id | .drop id => some id

def step (budget : Budget) (event : Event) : Option Budget :=
  match event.owner with
  | none => some { budget with reservations := budget.reservations ++ [⟨0, .idle⟩] }
  | some id =>
      budget.reservations[id]?.bind fun reservation =>
        act budget id reservation reservation.phase event

/-- The bytes of the reservation's successful grows: those it has counted, and one between its
exchange and its peak update. -/
def ReadReservation.owned (reservation : ReadReservation) : Nat :=
  match reservation.phase with
  | .idle | .trying _ _ => reservation.held
  | .exchanged bytes _ => reservation.held + bytes
  | .dropped => 0

def Budget.owned (budget : Budget) : Nat := (budget.reservations.map (·.owned)).sum

theorem wrappingAdd_eq (one two : Nat) (fits : one + two ≤ usizeMax) :
    wrappingAdd one two = one + two := Nat.mod_eq_of_lt (Nat.lt_succ_of_le fits)

theorem wrappingSub_eq (whole part : Nat) (fits : whole ≤ usizeMax) (less : part ≤ whole) :
    wrappingSub whole part = whole - part := by
  have split : whole + (usizeMax + 1) - part = whole - part + (usizeMax + 1) :=
    Nat.sub_add_comm less
  rw [wrappingSub, split, Nat.add_mod_right]
  exact Nat.mod_eq_of_lt (Nat.lt_succ_of_le ((Nat.sub_le ..).trans fits))

theorem checkedTotal_some (limit seen bytes total : Nat)
    (room : checkedTotal limit seen bytes = some total) :
    total = seen + bytes ∧ total ≤ limit := by
  unfold checkedTotal at room
  split_ifs at room
  · rw [Option.filter_some] at room
    split_ifs at room with within
    · cases room
      exact ⟨rfl, of_decide_eq_true within⟩
  · cases room

theorem checkedTotal_none (limit seen bytes : Nat) (fits : limit ≤ usizeMax)
    (full : checkedTotal limit seen bytes = none) : limit < seen + bytes := by
  unfold checkedTotal at full
  split_ifs at full with small
  · rw [Option.filter_some] at full
    split_ifs at full with within
    exact Nat.lt_of_not_le fun fits => within (decide_eq_true fits)
  · omega

theorem sum_set {α : Type} (f : α → Nat) (items : List α) (id : Nat) (old new : α)
    (found : items[id]? = some old) :
    ((items.set id new).map f).sum + f old = (items.map f).sum + f new := by
  induction items generalizing id with
  | nil => cases found
  | cons item items ih =>
    cases id with
    | zero =>
      cases found
      simp only [List.set_cons_zero, List.map_cons, List.sum_cons]
      omega
    | succ id =>
      have rest := ih id found
      simp only [List.set_cons_succ, List.map_cons, List.sum_cons]
      omega

inductive Acted (budget : Budget) (id : Nat) (held : Nat) : Phase → Event → Budget → Prop
  | load (bytes : Nat) :
      Acted budget id held .idle (.load id bytes) (budget.put id ⟨held, .trying bytes budget.held⟩)
  | exchange (bytes total : Nat) (room : checkedTotal budget.limit budget.held bytes = some total) :
      Acted budget id held (.trying bytes budget.held) (.exchange id bytes)
        { budget.put id ⟨held, .exchanged bytes total⟩ with held := total }
  | miss (bytes seen : Nat) :
      Acted budget id held (.trying bytes seen) (.miss id)
        (budget.put id ⟨held, .trying bytes budget.held⟩)
  | refuse (bytes seen : Nat) (full : checkedTotal budget.limit seen bytes = none) :
      Acted budget id held (.trying bytes seen) (.refuse id) (budget.put id ⟨held, .idle⟩)
  | raise (bytes total : Nat) :
      Acted budget id held (.exchanged bytes total) (.raise id)
        { budget.put id ⟨wrappingAdd held bytes, .idle⟩ with
          peak := max budget.peak total }
  | drop : Acted budget id held .idle (.drop id)
      { budget.put id ⟨held, .dropped⟩ with
        held := wrappingSub budget.held held }

theorem step_cases (budget next : Budget) (event : Event) (taken : step budget event = some next) :
    (event = .reserve ∧
      next = { budget with reservations := budget.reservations ++ [⟨0, .idle⟩] }) ∨
    ∃ id reservation, event.owner = some id ∧ budget.reservations[id]? = some reservation ∧
      Acted budget id reservation.held reservation.phase event next := by
  unfold step at taken
  cases owner : event.owner with
  | none =>
    rw [owner] at taken
    cases event with
    | reserve => exact .inl ⟨rfl, (Option.some.inj taken).symm⟩
    | _ => cases owner
  | some id =>
    rw [owner] at taken
    obtain ⟨⟨held, phase⟩, found, acted⟩ := Option.bind_eq_some_iff.1 taken
    refine .inr ⟨id, ⟨held, phase⟩, rfl, found, ?_⟩
    dsimp only at acted ⊢
    unfold act at acted
    split at acted
    · cases owner
      cases acted
      exact .load _
    · cases owner
      split at acted
      · split_ifs at acted with same
        obtain ⟨rfl, rfl⟩ := same
        cases acted
        exact .exchange _ _ ‹_›
      · cases acted
    · cases owner
      split at acted
      · cases acted
        exact .miss _ _
      · cases acted
    · cases owner
      split at acted
      · cases acted
      · cases acted
        exact .refuse _ _ ‹_›
    · cases owner
      cases acted
      exact .raise _ _
    · cases owner
      cases acted
      exact .drop
    · cases acted

/-- The budget holds just what its live reservations own, within its limit. -/
structure Sound (budget : Budget) : Prop where
  sums : budget.held = budget.owned
  bound : budget.held ≤ budget.limit

theorem owned_put (budget : Budget) (id : Nat) (old new : ReadReservation)
    (found : budget.reservations[id]? = some old) :
    (budget.put id new).owned + old.owned = budget.owned + new.owned :=
  sum_set ReadReservation.owned budget.reservations id old new found

theorem owned_le (budget : Budget) (id : Nat) (reservation : ReadReservation)
    (found : budget.reservations[id]? = some reservation) :
    reservation.owned ≤ budget.owned := by
  have moved := owned_put budget id reservation ⟨0, .dropped⟩ found
  have zero : ReadReservation.owned ⟨0, .dropped⟩ = 0 := rfl
  omega

theorem step_limit (budget next : Budget) (event : Event) (taken : step budget event = some next) :
    next.limit = budget.limit := by
  rcases step_cases budget next event taken with ⟨-, rfl⟩ | ⟨id, ⟨held, phase⟩, -, -, acted⟩
  · rfl
  · dsimp only at acted
    cases acted <;> rfl

theorem step_sound (budget next : Budget) (event : Event) (fits : budget.limit ≤ usizeMax)
    (sound : Sound budget) (taken : step budget event = some next) : Sound next := by
  have sums := sound.sums
  have bound := sound.bound
  rcases step_cases budget next event taken with ⟨-, rfl⟩ | ⟨id, ⟨held, phase⟩, -, found, acted⟩
  · refine ⟨?_, bound⟩
    rw [Budget.owned, List.map_append, List.sum_append]
    exact sums
  · have part := owned_le budget id _ found
    dsimp only at acted
    cases acted with
    | load bytes =>
      have moved := owned_put budget id _ ⟨held, .trying bytes budget.held⟩ found
      exact ⟨sums.trans (Nat.add_right_cancel moved).symm, bound⟩
    | exchange bytes total room =>
      have moved := owned_put budget id _ ⟨held, .exchanged bytes total⟩ found
      obtain ⟨rfl, within⟩ := checkedTotal_some _ _ _ _ room
      refine ⟨?_, within⟩
      show budget.held + bytes = (budget.put id ⟨held, .exchanged bytes _⟩).owned
      simp only [ReadReservation.owned] at moved
      omega
    | miss bytes seen =>
      have moved := owned_put budget id _ ⟨held, .trying bytes budget.held⟩ found
      exact ⟨sums.trans (Nat.add_right_cancel moved).symm, bound⟩
    | refuse bytes seen full =>
      have moved := owned_put budget id _ ⟨held, .idle⟩ found
      exact ⟨sums.trans (Nat.add_right_cancel moved).symm, bound⟩
    | raise bytes total =>
      have part' : held + bytes ≤ budget.owned := part
      have whole := wrappingAdd_eq held bytes
        (part'.trans (sums ▸ bound.trans fits))
      have moved := owned_put budget id _ ⟨wrappingAdd held bytes, .idle⟩ found
      rw [whole] at moved ⊢
      exact ⟨sums.trans (Nat.add_right_cancel moved).symm, bound⟩
    | drop =>
      have part' : held ≤ budget.held := sums ▸ part
      have less := wrappingSub_eq budget.held held (bound.trans fits) part'
      have moved := owned_put budget id _ ⟨held, .dropped⟩ found
      rw [less]
      refine ⟨?_, (Nat.sub_le ..).trans bound⟩
      show budget.held - held = (budget.put id ⟨held, .dropped⟩).owned
      simp only [ReadReservation.owned] at moved
      omega

/-! ### The grows of a run -/

def Event.grownBy (id : Nat) : Event → Nat
  | .exchange id' bytes => if id' = id then bytes else 0
  | _ => 0

def grown (id : Nat) (events : List Event) : Nat := (events.map (Event.grownBy id)).sum

theorem grown_concat (id : Nat) (events : List Event) (event : Event) :
    grown id (events ++ [event]) = grown id events + event.grownBy id := by
  simp only [grown, List.map_append, List.sum_append, List.map_singleton, List.sum_singleton]

/-- Each live reservation owns the bytes of its successful grows; one to come has none. -/
structure Counted (events : List Event) (budget : Budget) : Prop where
  live : ∀ id reservation, budget.reservations[id]? = some reservation →
    reservation.phase ≠ .dropped → reservation.owned = grown id events
  later : ∀ id, budget.reservations[id]? = none → grown id events = 0

theorem counted_elsewhere (events : List Event) (event : Event) (id other : Nat)
    (owner : event.owner = some id) (apart : other ≠ id) :
    grown other (events ++ [event]) = grown other events := by
  rw [grown_concat]
  cases event with
  | exchange id' bytes =>
    cases owner
    exact congrArg _ (if_neg fun same => apart same.symm)
  | _ => rfl

/-- A step of one reservation counts well when that reservation's bytes do. -/
theorem counted_put (events : List Event) (budget next : Budget) (event : Event) (id : Nat)
    (old new : ReadReservation) (counted : Counted events budget)
    (owner : event.owner = some id) (found : budget.reservations[id]? = some old)
    (set : next.reservations = budget.reservations.set id new)
    (own : new.phase ≠ .dropped → new.owned = grown id (events ++ [event])) :
    Counted (events ++ [event]) next := by
  have inside : id < budget.reservations.length := (List.getElem?_eq_some_iff.1 found).1
  constructor
  · intro other reservation read alive
    rw [set] at read
    by_cases same : other = id
    · subst same
      rw [List.getElem?_set_self inside] at read
      cases read
      exact own alive
    · rw [List.getElem?_set_ne (Ne.symm same)] at read
      rw [counted_elsewhere events event id other owner same]
      exact counted.live other reservation read alive
  · intro other absent
    rw [set] at absent
    have apart : other ≠ id := by
      rintro rfl
      rw [List.getElem?_set_self inside] at absent
      cases absent
    rw [List.getElem?_set_ne (Ne.symm apart)] at absent
    rw [counted_elsewhere events event id other owner apart]
    exact counted.later other absent

theorem step_counted (events : List Event) (budget next : Budget) (event : Event)
    (fits : budget.limit ≤ usizeMax) (sound : Sound budget) (counted : Counted events budget)
    (taken : step budget event = some next) : Counted (events ++ [event]) next := by
  rcases step_cases budget next event taken with
    ⟨rfl, rfl⟩ | ⟨id, ⟨held, phase⟩, owner, found, acted⟩
  · constructor
    · intro id reservation read alive
      rw [grown_concat]
      by_cases old : id < budget.reservations.length
      · rw [List.getElem?_append_left old] at read
        exact counted.live id reservation read alive
      · have absent := counted.later id (List.getElem?_eq_none (Nat.le_of_not_lt old))
        rw [List.getElem?_append_right (Nat.le_of_not_lt old)] at read
        obtain rfl : ⟨0, .idle⟩ = reservation := by
          have listed := List.mem_of_getElem? read
          exact (List.mem_singleton.1 listed).symm
        rw [absent]
        rfl
    · intro id absent
      rw [grown_concat]
      apply counted.later
      rw [List.getElem?_eq_none_iff, List.length_append] at absent
      exact List.getElem?_eq_none (by omega)
  · have part := owned_le budget id _ found
    have before := counted.live id _ found
    dsimp only at acted
    cases acted with
    | load bytes =>
      apply counted_put events budget _ _ id _ _ counted owner found rfl
      intro alive
      rw [grown_concat]
      exact before (by simp only [ne_eq, reduceCtorEq, not_false_eq_true])
    | exchange bytes total room =>
      apply counted_put events budget _ _ id _ ⟨held, .exchanged bytes total⟩ counted owner found rfl
      intro alive
      rw [grown_concat, ← before (by simp only [ne_eq, reduceCtorEq, not_false_eq_true])]
      show held + bytes = held + if id = id then bytes else 0
      rw [if_pos rfl]
    | miss bytes seen =>
      apply counted_put events budget _ _ id _ _ counted owner found rfl
      intro alive
      rw [grown_concat]
      exact before (by simp only [ne_eq, reduceCtorEq, not_false_eq_true])
    | refuse bytes seen full =>
      apply counted_put events budget _ _ id _ _ counted owner found rfl
      intro alive
      rw [grown_concat]
      exact before (by simp only [ne_eq, reduceCtorEq, not_false_eq_true])
    | raise bytes total =>
      apply counted_put events budget _ _ id _ ⟨wrappingAdd held bytes, .idle⟩ counted owner found rfl
      intro alive
      have part' : held + bytes ≤ budget.owned := part
      have whole := wrappingAdd_eq held bytes
        (part'.trans (sound.sums ▸ sound.bound.trans fits))
      rw [grown_concat, ← before (by simp only [ne_eq, reduceCtorEq, not_false_eq_true]), whole]
      rfl
    | drop =>
      apply counted_put events budget _ _ id _ ⟨held, .dropped⟩ counted owner found rfl
      intro alive
      exact absurd rfl alive

/-! ### The peak -/

structure Peaked (held : Nat → Prop) (budget : Budget) : Prop where
  bounds : ∀ value, held value → value ≤ budget.peak ∨
    ∃ reservation ∈ budget.reservations, ∃ bytes total,
      reservation.phase = .exchanged bytes total ∧ value ≤ total
  had : held budget.peak
  pending : ∀ reservation ∈ budget.reservations, ∀ bytes total,
    reservation.phase = .exchanged bytes total → held total

theorem mem_put (budget : Budget) (id : Nat) (old new other : ReadReservation)
    (found : budget.reservations[id]? = some old) (listed : other ∈ budget.reservations) :
    other = old ∨ other ∈ (budget.put id new).reservations := by
  obtain ⟨place, read⟩ := List.mem_iff_getElem?.1 listed
  by_cases same : place = id
  · left
    rw [same, found] at read
    exact (Option.some.inj read).symm
  · right
    apply List.mem_iff_getElem?.2
    exact ⟨place, (List.getElem?_set_ne (Ne.symm same)).trans read⟩

theorem new_mem_put (budget : Budget) (id : Nat) (old new : ReadReservation)
    (found : budget.reservations[id]? = some old) :
    new ∈ (budget.put id new).reservations :=
  List.mem_set (List.getElem?_eq_some_iff.1 found).1 new

/-- A step that neither exchanges nor raises keeps the peak and what is pending. -/
theorem peaked_quiet (values : Nat → Prop) (budget next : Budget) (id : Nat)
    (old new : ReadReservation) (peaked : Peaked values budget) (now : values budget.held)
    (found : budget.reservations[id]? = some old)
    (set : next.reservations = budget.reservations.set id new) (peak : next.peak = budget.peak)
    (less : next.held ≤ budget.held)
    (quiet : ∀ bytes total, old.phase ≠ .exchanged bytes total)
    (quiet' : ∀ bytes total, new.phase ≠ .exchanged bytes total) :
    Peaked (fun value => values value ∨ value = next.held) next := by
  have bounded (value : Nat) (had : values value) : value ≤ next.peak ∨
      ∃ reservation ∈ next.reservations, ∃ bytes total,
        reservation.phase = .exchanged bytes total ∧ value ≤ total := by
    rw [peak, set]
    rcases peaked.bounds value had with low | ⟨other, listed, bytes, total, phase, low⟩
    · exact .inl low
    · rcases mem_put budget id old new other found listed with rfl | kept
      · exact absurd phase (quiet bytes total)
      · exact .inr ⟨other, kept, bytes, total, phase, low⟩
  constructor
  · intro value had
    rcases had with had | rfl
    · exact bounded value had
    · rcases bounded _ now with low | ⟨other, listed, bytes, total, phase, low⟩
      · exact .inl (less.trans low)
      · exact .inr ⟨other, listed, bytes, total, phase, less.trans low⟩
  · rw [peak]
    exact .inl peaked.had
  · intro other listed bytes total phase
    rw [set] at listed
    rcases List.mem_or_eq_of_mem_set listed with old | rfl
    · exact .inl (peaked.pending other old bytes total phase)
    · exact absurd phase (quiet' bytes total)

theorem step_peaked (values : Nat → Prop) (budget next : Budget) (event : Event)
    (fits : budget.limit ≤ usizeMax) (sound : Sound budget) (peaked : Peaked values budget)
    (now : values budget.held) (taken : step budget event = some next) :
    Peaked (fun value => values value ∨ value = next.held) next := by
  rcases step_cases budget next event taken with ⟨-, rfl⟩ | ⟨id, ⟨held, phase⟩, -, found, acted⟩
  · constructor
    · intro value had
      have had' : values value := had.elim (fun had => had) (fun same => same ▸ now)
      rcases peaked.bounds value had' with low | ⟨other, listed, rest⟩
      · exact .inl low
      · exact .inr ⟨other, List.mem_append_left _ listed, rest⟩
    · exact .inl peaked.had
    · intro other listed bytes total phase
      rcases List.mem_append.1 listed with old | new
      · exact .inl (peaked.pending other old bytes total phase)
      · rw [List.mem_singleton.1 new] at phase
        cases phase
  · dsimp only at acted
    cases acted with
    | load bytes =>
      exact peaked_quiet values budget _ id _ _ peaked now found rfl rfl (Nat.le_refl _)
        (fun _ _ same => by cases same) (fun _ _ same => by cases same)
    | miss bytes seen =>
      exact peaked_quiet values budget _ id _ _ peaked now found rfl rfl (Nat.le_refl _)
        (fun _ _ same => by cases same) (fun _ _ same => by cases same)
    | refuse bytes seen full =>
      exact peaked_quiet values budget _ id _ _ peaked now found rfl rfl (Nat.le_refl _)
        (fun _ _ same => by cases same) (fun _ _ same => by cases same)
    | drop =>
      have part : held ≤ budget.held := sound.sums ▸ owned_le budget id _ found
      have less : wrappingSub budget.held held ≤ budget.held := by
        rw [wrappingSub_eq budget.held held (sound.bound.trans fits) part]
        exact Nat.sub_le ..
      exact peaked_quiet values budget _ id _ ⟨held, .dropped⟩ peaked now found rfl rfl less
        (fun _ _ same => by cases same) (fun _ _ same => by cases same)
    | exchange bytes total room =>
      constructor
      · intro value had
        rcases had with had | same
        · rcases peaked.bounds value had with low | ⟨other, listed, bytes', total', phase, low⟩
          · exact .inl low
          · rcases mem_put budget id _ ⟨held, .exchanged bytes total⟩ other found listed with
              rfl | kept
            · cases phase
            · exact .inr ⟨other, kept, bytes', total', phase, low⟩
        · exact .inr ⟨_, new_mem_put budget id _ _ found, bytes, total, rfl, Nat.le_of_eq same⟩
      · exact .inl peaked.had
      · intro other listed bytes' total' phase
        rcases List.mem_or_eq_of_mem_set listed with old | rfl
        · exact .inl (peaked.pending other old bytes' total' phase)
        · cases phase
          exact .inr rfl
    | raise bytes total =>
      have pending := peaked.pending _ (List.mem_of_getElem? found) bytes total rfl
      constructor
      · intro value had
        have had' : values value := had.elim (fun had => had) (fun same => same ▸ now)
        rcases peaked.bounds value had' with low | ⟨other, listed, bytes', total', phase, low⟩
        · exact .inl (low.trans (Nat.le_max_left _ _))
        · rcases mem_put budget id _ ⟨wrappingAdd held bytes, .idle⟩ other found listed with
            rfl | kept
          · cases phase
            exact .inl (low.trans (Nat.le_max_right _ _))
          · exact .inr ⟨other, kept, bytes', total', phase, low⟩
      · left
        show values (max budget.peak total)
        rcases Nat.le_total budget.peak total with less | less
        · rw [Nat.max_eq_right less]
          exact pending
        · rw [Nat.max_eq_left less]
          exact peaked.had
      · intro other listed bytes' total' phase
        rcases List.mem_or_eq_of_mem_set listed with old | rfl
        · exact .inl (peaked.pending other old bytes' total' phase)
        · cases phase

/-! ### Whole runs -/

def heldIn (limit : Nat) (events : List Event) (value : Nat) : Prop :=
  ∃ budget, Passed step (new limit) events budget ∧ budget.held = value

structure Kept (limit : Nat) (events : List Event) (budget : Budget) : Prop where
  same : budget.limit = limit
  sound : Sound budget
  counted : Counted events budget
  peaked : Peaked (heldIn limit events) budget

theorem heldIn_concat (limit : Nat) (events : List Event) (event : Event) (last : Budget)
    (reached : run step (new limit) (events ++ [event]) = some last) (value : Nat) :
    heldIn limit (events ++ [event]) value ↔ heldIn limit events value ∨ value = last.held := by
  constructor
  · intro had
    obtain ⟨budget, passed, rfl⟩ := had
    rcases (passed_concat step _ last budget events event reached).1 passed with passed | rfl
    · exact .inl ⟨budget, passed, rfl⟩
    · exact .inr rfl
  · intro had
    rcases had with ⟨budget, passed, rfl⟩ | rfl
    · exact ⟨budget, (passed_concat step _ last budget events event reached).2 (.inl passed), rfl⟩
    · exact ⟨last, passed_last step _ last _ reached, rfl⟩

theorem run_kept (limit : Nat) (fits : limit ≤ usizeMax) (events : List Event) (last : Budget)
    (reached : run step (new limit) events = some last) : Kept limit events last := by
  apply run_history step (new limit) (Kept limit) _ _ events last reached
  · exact {
      same := rfl
      sound := ⟨rfl, Nat.zero_le limit⟩
      counted := {
        live := by
          intro id reservation read
          cases read
        later := fun _ _ => rfl }
      peaked := {
        bounds := by
          intro value had
          obtain ⟨budget, ⟨before, after, same, ran⟩, rfl⟩ := had
          obtain rfl := (List.append_eq_nil_iff.1 same.symm).1
          cases ran
          exact .inl (Nat.le_refl 0)
        had := ⟨new limit, passed_last step _ _ [] rfl, rfl⟩
        pending := fun reservation listed => absurd listed List.not_mem_nil } }
  · intro events middle event next before kept taken
    have fits' : middle.limit ≤ usizeMax := kept.same ▸ fits
    have now : heldIn limit events middle.held := ⟨middle, passed_last step _ _ events before, rfl⟩
    have whole := (run_concat step _ next events event).2 ⟨middle, before, taken⟩
    have peaked := step_peaked _ middle next event fits' kept.sound kept.peaked now taken
    have same : heldIn limit (events ++ [event]) =
        fun value => heldIn limit events value ∨ value = next.held :=
      funext fun value => propext (heldIn_concat limit events event next whole value)
    exact {
      same := (step_limit middle next event taken).trans kept.same
      sound := step_sound middle next event fits' kept.sound taken
      counted := step_counted events middle next event fits' kept.sound kept.counted taken
      peaked := same ▸ peaked }

def liveGrown (events : List Event) (budget : Budget) : Nat :=
  (budget.reservations.zipIdx.map fun entry =>
    if entry.1.phase = .dropped then 0 else grown entry.2 events).sum

theorem owned_eq_grown (events : List Event) (budget : Budget) (counted : Counted events budget) :
    budget.owned = liveGrown events budget := by
  have entries : budget.reservations.map (·.owned) =
      budget.reservations.zipIdx.map fun entry => entry.1.owned := by
    conv_lhs => rw [← List.zipIdx_map_fst 0 budget.reservations, List.map_map]
    rfl
  rw [Budget.owned, entries, liveGrown]
  apply congrArg List.sum
  apply List.map_congr_left
  intro entry listed
  have read : budget.reservations[entry.2]? = some entry.1 :=
    List.mk_mem_zipIdx_iff_getElem?.1 listed
  split_ifs with gone
  · rw [ReadReservation.owned, gone]
  · exact counted.live entry.2 entry.1 read gone

theorem owned_dropped (budget : Budget)
    (gone : ∀ reservation ∈ budget.reservations, reservation.phase = .dropped) :
    budget.owned = 0 := by
  apply List.sum_eq_zero_iff_forall_eq_nat.2
  intro bytes listed
  obtain ⟨reservation, member, rfl⟩ := List.mem_map.1 listed
  rw [ReadReservation.owned, gone reservation member]

theorem peak_greatest (held : Nat → Prop) (budget : Budget) (peaked : Peaked held budget)
    (settled : ∀ reservation ∈ budget.reservations, ∀ bytes total,
      reservation.phase ≠ .exchanged bytes total) :
    IsGreatest {value | held value} budget.peak := by
  refine ⟨peaked.had, ?_⟩
  intro value had
  rcases peaked.bounds value had with low | ⟨reservation, listed, bytes, total, phase, -⟩
  · exact low
  · exact absurd phase (settled reservation listed bytes total)

/-! ### A refused grow -/

/-- A grow's own steps until it exchanges change neither the bytes held nor the peak, and of the
reservations only where this one stands. -/
theorem quiet_step (budget next : Budget) (event : Event) (id : Nat)
    (quiet : (∃ bytes, event = .load id bytes) ∨ event = .miss id ∨ event = .refuse id)
    (taken : step budget event = some next) :
    next.held = budget.held ∧ next.peak = budget.peak ∧
      ∃ reservation phase, budget.reservations[id]? = some reservation ∧
        next.reservations = budget.reservations.set id { reservation with phase } := by
  rcases step_cases budget next event taken with
    ⟨rfl, -⟩ | ⟨id', ⟨held, phase⟩, owner, found, acted⟩
  · rcases quiet with ⟨bytes, same⟩ | same | same <;> cases same
  · have same : id' = id := by
      rcases quiet with ⟨bytes, rfl⟩ | rfl | rfl <;> exact (Option.some.inj owner).symm
    subst same
    dsimp only at acted
    cases acted with
    | load bytes => exact ⟨rfl, rfl, _, _, found, rfl⟩
    | miss bytes seen => exact ⟨rfl, rfl, _, _, found, rfl⟩
    | refuse bytes seen full => exact ⟨rfl, rfl, _, _, found, rfl⟩
    | exchange bytes total room => rcases quiet with ⟨bytes, same⟩ | same | same <;> cases same
    | raise bytes total => rcases quiet with ⟨bytes, same⟩ | same | same <;> cases same
    | drop => rcases quiet with ⟨bytes, same⟩ | same | same <;> cases same

/-- The grow that loaded behind `before` last looked when `seen` bytes were held. -/
def Looked (limit id bytes : Nat) (before middle : List Event) (seen : Nat) : Prop :=
  ∃ front event back budget, .load id bytes :: middle = front ++ event :: back ∧
    event.owner = some id ∧ (∀ later ∈ back, later.owner ≠ some id) ∧
    run step (new limit) (before ++ front) = some budget ∧ budget.held = seen

theorem looked_later (limit id bytes seen : Nat) (before middle : List Event) (event : Event)
    (looked : Looked limit id bytes before middle seen) (other : event.owner ≠ some id) :
    Looked limit id bytes before (middle ++ [event]) seen := by
  obtain ⟨front, look, back, budget, same, owner, absent, ran, held⟩ := looked
  refine ⟨front, look, back ++ [event], budget, ?_, owner, ?_, ran, held⟩
  · rw [← List.cons_append, same, List.append_assoc, List.cons_append]
  · intro later listed
    rcases List.mem_append.1 listed with early | last
    · exact absent later early
    · exact List.mem_singleton.1 last ▸ other

/-- A grow that is still trying: it only missed since it loaded, its reservation holds what it
held, and what it saw is what was held at its last look. -/
structure Trying (limit id bytes : Nat) (before middle : List Event) (held asked seen : Nat)
    (reservation : ReadReservation) : Prop where
  asked : asked = bytes
  same : reservation.held = held
  missed : ∀ event ∈ middle, event.owner = some id → event = .miss id
  looked : Looked limit id bytes before middle seen

theorem trying_later (limit id bytes held asked seen : Nat) (before middle : List Event)
    (reservation : ReadReservation) (event : Event)
    (trying : Trying limit id bytes before middle held asked seen reservation)
    (other : event.owner ≠ some id) :
    Trying limit id bytes before (middle ++ [event]) held asked seen reservation where
  asked := trying.asked
  same := trying.same
  missed := by
    intro event' listed owner
    rcases List.mem_append.1 listed with early | last
    · exact trying.missed event' early owner
    · rw [List.mem_singleton.1 last] at owner
      exact absurd owner other
  looked := looked_later limit id bytes seen before middle event trying.looked other

theorem run_trying (limit id bytes : Nat) (before middle : List Event) (start last : Budget)
    (first reservation : ReadReservation) (asked seen : Nat)
    (started : run step (new limit) before = some start)
    (own : start.reservations[id]? = some first)
    (alone : ∀ event ∈ middle, ∀ bytes', event ≠ .load id bytes')
    (reached : run step (new limit) (before ++ .load id bytes :: middle) = some last)
    (found : last.reservations[id]? = some reservation)
    (trying : reservation.phase = .trying asked seen) :
    Trying limit id bytes before middle first.held asked seen reservation := by
  induction middle using List.reverseRecOn generalizing last reservation asked seen with
  | nil =>
    obtain ⟨start', ran, taken⟩ := (run_concat step _ last before _).1 reached
    obtain rfl : start = start' := Option.some.inj (started.symm.trans ran)
    rcases step_cases start last _ taken with
      ⟨same, -⟩ | ⟨id', ⟨held, phase⟩, owner, found', acted⟩
    · cases same
    · cases owner
      obtain rfl := Option.some.inj (own.symm.trans found')
      dsimp only at acted
      cases acted with
      | load bytes =>
        have read : (start.reservations.set id ⟨held, .trying bytes start.held⟩)[id]? =
            some reservation := found
        rw [List.getElem?_set_self (List.getElem?_eq_some_iff.1 own).1] at read
        cases read
        cases trying
        exact {
          asked := rfl
          same := rfl
          missed := fun event listed => absurd listed List.not_mem_nil
          looked := ⟨[], _, [], start, rfl, rfl, fun later listed => absurd listed List.not_mem_nil,
            by rw [List.append_nil]; exact started, rfl⟩ }
  | append_singleton middle event ih =>
    have whole : before ++ .load id bytes :: (middle ++ [event]) =
        before ++ .load id bytes :: middle ++ [event] := by
      rw [List.append_assoc, List.cons_append]
    rw [whole] at reached
    obtain ⟨budget, ran, taken⟩ := (run_concat step _ last _ event).1 reached
    have alone' := fun event listed => alone event (List.mem_append_left _ listed)
    rcases step_cases budget last event taken with
      ⟨rfl, rfl⟩ | ⟨id', ⟨held, phase⟩, owner, found', acted⟩
    · have old : budget.reservations[id]? = some reservation := by
        by_cases inside : id < budget.reservations.length
        · exact (List.getElem?_append_left inside).symm.trans found
        · rw [List.getElem?_append_right (Nat.le_of_not_lt inside)] at found
          rw [List.mem_singleton.1 (List.mem_of_getElem? found)] at trying
          cases trying
      exact trying_later limit id bytes _ asked seen before middle reservation _
        (ih budget reservation asked seen alone' ran old trying) (fun same => by cases same)
    · by_cases same : id' = id
      · subst same
        have inside := (List.getElem?_eq_some_iff.1 found').1
        dsimp only at acted
        cases acted with
        | load bytes' => exact absurd rfl (alone _ (List.mem_append_right _ List.mem_cons_self) bytes')
        | exchange bytes' total room =>
          have read := (List.getElem?_set_self inside).symm.trans found
          cases read
          cases trying
        | miss bytes' seen' =>
          have read := (List.getElem?_set_self inside).symm.trans found
          cases read
          cases trying
          have earlier := ih budget _ _ _ alone' ran found' rfl
          exact {
            asked := earlier.asked
            same := earlier.same
            missed := by
              intro event listed owner
              rcases List.mem_append.1 listed with early | last
              · exact earlier.missed event early owner
              · exact List.mem_singleton.1 last
            looked := ⟨.load id' bytes :: middle, _, [], budget, rfl, rfl,
              fun later listed => absurd listed List.not_mem_nil, ran, rfl⟩ }
        | refuse bytes' seen' full =>
          have read := (List.getElem?_set_self inside).symm.trans found
          cases read
          cases trying
        | raise bytes' total =>
          have read := (List.getElem?_set_self inside).symm.trans found
          cases read
          cases trying
        | drop =>
          have read := (List.getElem?_set_self inside).symm.trans found
          cases read
          cases trying
      · have old : budget.reservations[id]? = some reservation := by
          have elsewhere (new : ReadReservation) :
              (budget.reservations.set id' new)[id]? = budget.reservations[id]? :=
            List.getElem?_set_ne same
          dsimp only at acted
          cases acted <;> exact (elsewhere _).symm.trans found
        exact trying_later limit id bytes _ asked seen before middle reservation event
          (ih budget reservation asked seen alone' ran old trying)
          (fun owner' => same (Option.some.inj (owner.symm.trans owner')))

/-- A grow refused behind `before` changed nothing, and had no room in what it last saw. -/
structure Refused (limit id bytes : Nat) (before middle : List Event) (last : Budget) : Prop where
  missed : ∀ event ∈ middle, event.owner = some id → event = .miss id
  quiet : ∀ front event back budget next,
    .load id bytes :: (middle ++ [.refuse id]) = front ++ event :: back →
    event.owner = some id → run step (new limit) (before ++ front) = some budget →
    step budget event = some next → next.held = budget.held ∧ next.peak = budget.peak
  same : ∃ start reservation, run step (new limit) before = some start ∧
    start.reservations[id]? = some reservation ∧ last.reservations[id]? = some reservation
  full : ∃ seen, Looked limit id bytes before middle seen ∧ limit < seen + bytes

theorem run_refused (limit : Nat) (fits : limit ≤ usizeMax) (id bytes : Nat)
    (before middle : List Event) (last : Budget)
    (reached : run step (new limit) (before ++ .load id bytes :: (middle ++ [.refuse id])) =
      some last)
    (alone : ∀ event ∈ middle, ∀ bytes', event ≠ .load id bytes') :
    Refused limit id bytes before middle last := by
  have whole : before ++ .load id bytes :: (middle ++ [.refuse id]) =
      before ++ .load id bytes :: middle ++ [.refuse id] := by
    rw [List.append_assoc, List.cons_append]
  rw [whole] at reached
  obtain ⟨budget, ran, taken⟩ := (run_concat step _ last _ _).1 reached
  obtain ⟨start, started, rest⟩ : ∃ start, run step (new limit) before = some start ∧
      run step start (.load id bytes :: middle) = some budget := by
    rw [run_append] at ran
    exact Option.bind_eq_some_iff.1 ran
  obtain ⟨loaded, first, -⟩ := run_cons step start budget _ _ rest
  obtain ⟨held, own⟩ : ∃ held, start.reservations[id]? = some ⟨held, .idle⟩ := by
    rcases step_cases start loaded _ first with ⟨same, -⟩ | ⟨id', ⟨held, phase⟩, owner, found, acted⟩
    · cases same
    · cases owner
      dsimp only at acted
      cases acted
      exact ⟨held, found⟩
  rcases step_cases budget last _ taken with ⟨same, -⟩ | ⟨id', ⟨held', phase⟩, owner, found, acted⟩
  · cases same
  cases owner
  dsimp only at acted
  cases acted with
  | refuse asked seen full =>
    have trying := run_trying limit id bytes before middle start budget _ _ asked seen started own
      alone ran found rfl
    have limit' : budget.limit = limit := (run_kept limit fits _ budget ran).same
    exact {
      missed := trying.missed
      quiet := by
        intro front event back state next split owner _ taken
        have listed : event ∈ .load id bytes :: (middle ++ [.refuse id]) := by
          rw [split]
          exact List.mem_append_right _ List.mem_cons_self
        have quiet : (∃ bytes, event = .load id bytes) ∨ event = .miss id ∨ event = .refuse id := by
          rcases List.mem_cons.1 listed with same | later
          · exact .inl ⟨bytes, same⟩
          · rcases List.mem_append.1 later with inside | final
            · exact .inr (.inl (trying.missed event inside owner))
            · exact .inr (.inr (List.mem_singleton.1 final))
        obtain ⟨held, peak, -⟩ := quiet_step state next event id quiet taken
        exact ⟨held, peak⟩
      same := by
        refine ⟨start, ⟨held, .idle⟩, started, own, ?_⟩
        have same : held' = held := trying.same
        show (budget.reservations.set id ⟨held', .idle⟩)[id]? = _
        rw [List.getElem?_set_self (List.getElem?_eq_some_iff.1 found).1, same]
      full := by
        refine ⟨seen, trying.looked, ?_⟩
        rw [← trying.asked, ← limit']
        exact checkedTotal_none budget.limit seen asked (limit' ▸ fits) full }

/-- In every run the budget holds just the bytes of the live reservations' successful grows and
stays within its limit, a refused grow changes nothing, and the peak is the largest value held. -/
theorem readBudget_safe (limit : Nat) (fits : limit ≤ usizeMax) (events : List Event)
    (last : Budget) (reached : run step (new limit) events = some last) :
    last.held = liveGrown events last ∧ last.held ≤ limit ∧
    ((∀ reservation ∈ last.reservations, reservation.phase = .dropped) → last.held = 0) ∧
    ((∀ reservation ∈ last.reservations, ∀ bytes total,
        reservation.phase ≠ .exchanged bytes total) →
      IsGreatest {value | heldIn limit events value} last.peak) ∧
    ∀ id bytes before middle, events = before ++ .load id bytes :: (middle ++ [.refuse id]) →
      (∀ event ∈ middle, ∀ bytes', event ≠ .load id bytes') →
      Refused limit id bytes before middle last := by
  have kept := run_kept limit fits events last reached
  refine ⟨?_, ?_, ?_, ?_, ?_⟩
  · exact kept.sound.sums.trans (owned_eq_grown events last kept.counted)
  · exact kept.same ▸ kept.sound.bound
  · intro gone
    exact kept.sound.sums.trans (owned_dropped last gone)
  · exact peak_greatest _ last kept.peaked
  · intro id bytes before middle same alone
    exact run_refused limit fits id bytes before middle last (same ▸ reached) alone

/-- Two reservations under a limit of 10: one misses and is refused, both drop. -/
theorem readBudget_safe_pair :
    10 ≤ usizeMax ∧ ∃ last : Budget,
      last.held = liveGrown [.reserve, .reserve, .load 0 7, .load 1 6, .exchange 0 7, .miss 1,
        .refuse 1, .raise 0, .drop 0, .drop 1] last := by
  have fits : 10 ≤ usizeMax := by decide
  refine ⟨fits, ⟨10, 0, 7, [⟨7, .dropped⟩, ⟨0, .dropped⟩]⟩, ?_⟩
  exact (readBudget_safe 10 fits [.reserve, .reserve, .load 0 7, .load 1 6, .exchange 0 7, .miss 1,
    .refuse 1, .raise 0, .drop 0, .drop 1] _ (by decide)).1

end DeepDiffForge.Daemon.ReadBudget
