import DeepDiffForge.Lib.Machine
import DeepDiffForge.Core.Review
import Mathlib.Data.Finset.Card
import Mathlib.Data.Finset.Insert
import Mathlib.Order.Bounds.Basic

/-! Request admission under a byte budget, first come, first served. Each event is one section of
the code that holds the queue's lock. -/

namespace DeepDiffForge.Daemon.Admission
open DeepDiffForge.Core Machine

/-- Tickets are `u64`. -/
def ticketSpace : Nat := 2 ^ 64

structure Queue where
  next : Nat
  serving : Nat
  abandoned : Finset Nat
  inFlight : Nat
  running : Nat
  deriving DecidableEq

/-- Past every abandoned ticket from `serving` on; the tickets passed are forgotten. -/
def skip (abandoned : Finset Nat) (serving : Nat) : Finset Nat × Nat :=
  if serving ∈ abandoned then skip (abandoned.erase serving) ((serving + 1) % ticketSpace)
  else (abandoned, serving)
termination_by abandoned.card
decreasing_by exact Finset.card_erase_lt_of_mem (by assumption)

def Queue.advance (queue : Queue) : Queue :=
  { queue with
    serving := (skip queue.abandoned ((queue.serving + 1) % ticketSpace)).2
    abandoned := (skip queue.abandoned ((queue.serving + 1) % ticketSpace)).1 }

def fits (budget : Nat) (queue : Queue) (weight : Nat) : Bool :=
  queue.running = 0 || min (queue.inFlight + weight) usizeMax ≤ budget

/-- Where a request stands: `busy` was refused, `done` has dropped its permit. -/
inductive Phase where
  | waiting | running | busy | done
  deriving DecidableEq

/-- One turn of the waiting loop, with whether the deadline has passed. -/
def attempt (budget : Nat) (queue : Queue) (ticket weight : Nat) (expired : Bool) :
    Queue × Phase :=
  if queue.serving ≠ ticket ∨ fits budget queue weight = false then
    if expired then
      let left := { queue with abandoned := insert ticket queue.abandoned }
      if left.serving = ticket then
        ({ left with abandoned := left.abandoned.erase ticket }.advance, .busy)
      else (left, .busy)
    else (queue, .waiting)
  else
    let turned := queue.advance
    ({ turned with
        inFlight := min (turned.inFlight + weight) usizeMax, running := turned.running + 1 },
      .running)

structure Request where
  ticket : Nat
  weight : Nat
  phase : Phase
  deriving DecidableEq

/-- The queue, every request so far, and the tickets that started, in the order they did. -/
structure State where
  queue : Queue
  requests : List Request
  started : List Nat
  deriving DecidableEq

def initial : State := ⟨⟨0, 0, ∅, 0, 0⟩, [], []⟩

inductive Event where
  | admitFor (weight : Nat) (expired : Bool)
  | wake (ticket : Nat) (expired : Bool)
  | drop (ticket : Nat)
  deriving DecidableEq

def settle (ticket : Nat) (phase : Phase) (requests : List Request) : List Request :=
  requests.map fun request => if request.ticket = ticket then { request with phase } else request

def State.attempt (budget : Nat) (state : State) (ticket weight : Nat) (expired : Bool) : State :=
  let result := Admission.attempt budget state.queue ticket weight expired
  { queue := result.1
    requests := settle ticket result.2 state.requests
    started := if result.2 = .running then state.started ++ [ticket] else state.started }

def State.arrive (state : State) (weight : Nat) : State :=
  { state with
    queue := { state.queue with next := (state.queue.next + 1) % ticketSpace }
    requests := state.requests ++ [⟨state.queue.next, weight, .waiting⟩] }

def State.release (state : State) (ticket weight : Nat) : State :=
  { state with
    queue := { state.queue with
      inFlight := state.queue.inFlight - weight, running := state.queue.running - 1 }
    requests := settle ticket .done state.requests }

def find (requests : List Request) (ticket : Nat) (phase : Phase) : Option Request :=
  requests.find? fun request => request.ticket = ticket && request.phase = phase

/-- What an event does; a ticket that does not wait is not woken, and only a permit held is
dropped. -/
def step (budget : Nat) (state : State) : Event → Option State
  | .admitFor weight expired =>
      some ((state.arrive weight).attempt budget state.queue.next weight expired)
  | .wake ticket expired => (find state.requests ticket .waiting).map fun request =>
      state.attempt budget ticket request.weight expired
  | .drop ticket => (find state.requests ticket .running).map fun request =>
      state.release ticket request.weight

def live (measure : Nat → Nat) (requests : List Request) : Nat :=
  requests.foldr (fun request sum =>
    (if request.phase = .running then measure request.weight else 0) + sum) 0

def total (requests : List Request) : Nat :=
  requests.foldr (fun request sum => request.weight + sum) 0

def arriving : List Event → List Nat
  | [] => []
  | .admitFor weight _ :: events => weight :: arriving events
  | .wake _ _ :: events | .drop _ :: events => arriving events

structure Orderly (budget : Nat) (state : State) : Prop where
  tickets : state.requests.map (·.ticket) = List.range state.queue.next
  turn : state.queue.serving ≤ state.queue.next
  behind : ∀ request ∈ state.requests, request.phase = .waiting →
    state.queue.serving ≤ request.ticket
  ahead : ∀ ticket ∈ state.queue.abandoned,
    state.queue.serving < ticket ∧ ticket < state.queue.next
  quiet : ∀ request ∈ state.requests, request.ticket ∈ state.queue.abandoned →
    request.phase ≠ .waiting
  frontier : ∀ request ∈ state.requests, state.queue.serving ≤ request.ticket →
    request.phase = .waiting ∨ request.ticket ∈ state.queue.abandoned
  inFlight : state.queue.inFlight = live id state.requests
  running : state.queue.running = live (fun _ => 1) state.requests
  within : state.queue.inFlight ≤ budget ∨ state.queue.running = 1
  order : state.started.Pairwise (· < ·)
  passed : ∀ ticket ∈ state.started, ticket < state.queue.serving
  entered : ∀ request ∈ state.requests,
    request.ticket ∈ state.started ↔ request.phase = .running ∨ request.phase = .done

theorem skip_spec (abandoned : Finset Nat) (serving next : Nat) (space : next < ticketSpace)
    (before : ∀ ticket ∈ abandoned, ticket < next) (turn : serving ≤ next) :
    serving ≤ (skip abandoned serving).2 ∧ (skip abandoned serving).2 ≤ next ∧
    (skip abandoned serving).2 ∉ abandoned ∧
    (∀ ticket, serving ≤ ticket → ticket < (skip abandoned serving).2 → ticket ∈ abandoned) ∧
    (∀ ticket, ticket ∈ (skip abandoned serving).1 ↔
      ticket ∈ abandoned ∧ ¬(serving ≤ ticket ∧ ticket < (skip abandoned serving).2)) := by
  induction abandoned, serving using skip.induct with
  | case1 abandoned serving member ih =>
    have less := before serving member
    have wrap : (serving + 1) % ticketSpace = serving + 1 := Nat.mod_eq_of_lt (by omega)
    rw [wrap] at ih
    have rest := ih (fun ticket inside => before ticket (Finset.mem_of_mem_erase inside)) less
    rw [skip, if_pos member, wrap]
    generalize skip (abandoned.erase serving) (serving + 1) = result at rest
    obtain ⟨low, high, out, passed, kept⟩ := rest
    refine ⟨by omega, high, ?_, ?_, ?_⟩
    · intro inside
      exact out (Finset.mem_erase.2 ⟨by omega, inside⟩)
    · intro ticket above below
      rcases Nat.eq_or_lt_of_le above with rfl | above
      · exact member
      · exact Finset.mem_of_mem_erase (passed ticket above below)
    · intro ticket
      rw [kept, Finset.mem_erase]
      constructor
      · rintro ⟨⟨apart, inside⟩, outside⟩
        exact ⟨inside, by omega⟩
      · rintro ⟨inside, outside⟩
        exact ⟨⟨by omega, inside⟩, by omega⟩
  | case2 abandoned serving free =>
    rw [skip, if_neg free]
    exact ⟨Nat.le_refl _, turn, free, fun ticket above below => by omega,
      fun ticket => by simp only [iff_self_and]; omega⟩

/-- The turn moved on passes exactly the ticket served and the abandoned ones behind it. -/
theorem advance_spec (queue : Queue) (space : queue.next < ticketSpace)
    (before : ∀ ticket ∈ queue.abandoned, ticket < queue.next)
    (turn : queue.serving < queue.next) :
    queue.serving < queue.advance.serving ∧ queue.advance.serving ≤ queue.next ∧
    queue.advance.serving ∉ queue.abandoned ∧
    (∀ ticket, queue.serving < ticket → ticket < queue.advance.serving →
      ticket ∈ queue.abandoned) ∧
    (∀ ticket, ticket ∈ queue.advance.abandoned ↔
      ticket ∈ queue.abandoned ∧
        ¬(queue.serving < ticket ∧ ticket < queue.advance.serving)) := by
  have wrap : (queue.serving + 1) % ticketSpace = queue.serving + 1 :=
    Nat.mod_eq_of_lt (by omega)
  have spec := skip_spec queue.abandoned (queue.serving + 1) queue.next space before turn
  simp only [Queue.advance, wrap]
  exact spec

theorem mem_settle (ticket : Nat) (phase : Phase) (requests : List Request) (request : Request) :
    request ∈ settle ticket phase requests ↔
      (request ∈ requests ∧ request.ticket ≠ ticket) ∨
      (request.ticket = ticket ∧ request.phase = phase ∧
        ∃ old, ⟨ticket, request.weight, old⟩ ∈ requests) := by
  simp only [settle, List.mem_map]
  constructor
  · rintro ⟨old, member, rfl⟩
    split_ifs with same
    · exact .inr ⟨same, rfl, old.phase, same ▸ member⟩
    · exact .inl ⟨member, same⟩
  · rintro (⟨member, apart⟩ | ⟨same, phased, old, member⟩)
    · exact ⟨request, member, if_neg apart⟩
    · refine ⟨⟨ticket, request.weight, old⟩, member, ?_⟩
      rw [if_pos rfl, ← same, ← phased]

@[simp] theorem tickets_settle (ticket : Nat) (phase : Phase) (requests : List Request) :
    (settle ticket phase requests).map (·.ticket) = requests.map (·.ticket) := by
  simp only [settle, List.map_map]
  apply List.map_congr_left
  intro request _
  simp only [Function.comp_apply]
  split_ifs <;> rfl

theorem settle_absent (ticket : Nat) (phase : Phase) (requests : List Request)
    (absent : ticket ∉ requests.map (·.ticket)) : settle ticket phase requests = requests := by
  rw [settle]
  conv_rhs => rw [← List.map_id requests]
  apply List.map_congr_left
  intro request member
  rw [if_neg]
  · rfl
  · intro same
    exact absent (List.mem_map.2 ⟨request, member, same⟩)

@[simp] theorem total_settle (ticket : Nat) (phase : Phase) (requests : List Request) :
    total (settle ticket phase requests) = total requests := by
  induction requests with
  | nil => rfl
  | cons request requests ih =>
    simp only [settle, total, List.map_cons, List.foldr_cons] at ih ⊢
    rw [ih]
    split_ifs <;> rfl

theorem live_settle (measure : Nat → Nat) (phase : Phase) (requests : List Request)
    (request : Request) (once : (requests.map (·.ticket)).Nodup) (member : request ∈ requests) :
    live measure (settle request.ticket phase requests) +
        (if request.phase = .running then measure request.weight else 0) =
      live measure requests + (if phase = .running then measure request.weight else 0) := by
  induction requests with
  | nil => cases member
  | cons first requests ih =>
    have apart := List.nodup_cons.1 once
    rcases List.mem_cons.1 member with rfl | member
    · have same := settle_absent request.ticket phase requests apart.1
      simp only [settle, live, List.map_cons, List.foldr_cons, if_true] at same ⊢
      rw [same]
      omega
    · have other : first.ticket ≠ request.ticket := by
        intro same
        exact apart.1 (List.mem_map.2 ⟨request, member, same.symm⟩)
      have rest := ih apart.2 member
      simp only [settle, live, List.map_cons, List.foldr_cons, if_neg other] at rest ⊢
      omega

theorem live_le_total (requests : List Request) : live id requests ≤ total requests := by
  induction requests with
  | nil => exact Nat.le_refl _
  | cons request requests ih =>
    simp only [live, total, List.foldr_cons, id] at ih ⊢
    split_ifs <;> omega

theorem live_none (measure : Nat → Nat) (requests : List Request)
    (zero : live (fun _ => 1) requests = 0) : live measure requests = 0 := by
  induction requests with
  | nil => rfl
  | cons request requests ih =>
    simp only [live, List.foldr_cons] at zero ih ⊢
    split_ifs at zero ⊢ with runs
    · omega
    · rw [ih (by omega)]

theorem find_some (requests : List Request) (ticket : Nat) (phase : Phase) (request : Request)
    (found : find requests ticket phase = some request) :
    request ∈ requests ∧ request.ticket = ticket ∧ request.phase = phase := by
  have holds := List.find?_some found
  simp only [Bool.and_eq_true, decide_eq_true_eq] at holds
  exact ⟨List.mem_of_find?_eq_some found, holds⟩

section Step
variable (budget : Nat) (state : State)

theorem Orderly.once (inv : Orderly budget state) : (state.requests.map (·.ticket)).Nodup := by
  rw [inv.tickets]
  exact List.nodup_range

theorem Orderly.known (inv : Orderly budget state) (request : Request)
    (member : request ∈ state.requests) : request.ticket < state.queue.next := by
  have listed := List.mem_map_of_mem (f := (·.ticket)) member
  rw [inv.tickets] at listed
  exact List.mem_range.1 listed

theorem arrive_orderly (inv : Orderly budget state) (weight : Nat)
    (space : state.queue.next + 1 < ticketSpace) : Orderly budget (state.arrive weight) := by
  have wrap : (state.queue.next + 1) % ticketSpace = state.queue.next + 1 :=
    Nat.mod_eq_of_lt space
  have fresh : live id (state.arrive weight).requests = live id state.requests ∧
      live (fun _ => 1) (state.arrive weight).requests = live (fun _ => 1) state.requests := by
    simp [State.arrive, live]
  constructor
  · simp [State.arrive, wrap, inv.tickets, List.range_succ]
  · simp only [State.arrive, wrap]
    exact Nat.le_succ_of_le inv.turn
  · intro request member waits
    rcases List.mem_append.1 member with member | last
    · exact inv.behind request member waits
    · rw [List.mem_singleton.1 last]
      exact inv.turn
  · intro ticket member
    have bounds := inv.ahead ticket member
    simp only [State.arrive, wrap]
    omega
  · intro request member left
    rcases List.mem_append.1 member with member | last
    · exact inv.quiet request member left
    · rw [List.mem_singleton.1 last] at left
      exact absurd (inv.ahead _ left).2 (Nat.lt_irrefl _)
  · intro request member above
    rcases List.mem_append.1 member with member | last
    · exact inv.frontier request member above
    · rw [List.mem_singleton.1 last]
      exact .inl rfl
  · rw [fresh.1]
    exact inv.inFlight
  · rw [fresh.2]
    exact inv.running
  · exact inv.within
  · exact inv.order
  · exact inv.passed
  · intro request member
    rcases List.mem_append.1 member with member | last
    · exact inv.entered request member
    · rw [List.mem_singleton.1 last]
      constructor
      · intro began
        have passed := inv.passed _ began
        exact absurd inv.turn (Nat.not_le.2 passed)
      · rintro (runs | over') <;> contradiction

theorem attempt_cases (inv : Orderly budget state) (request : Request)
    (member : request ∈ state.requests) (waits : request.phase = .waiting) (expired : Bool) :
    attempt budget state.queue request.ticket request.weight expired = (state.queue, .waiting) ∨
    (state.queue.serving < request.ticket ∧
      attempt budget state.queue request.ticket request.weight expired =
        ({ state.queue with abandoned := insert request.ticket state.queue.abandoned }, .busy)) ∨
    (state.queue.serving = request.ticket ∧
      attempt budget state.queue request.ticket request.weight expired =
        (state.queue.advance, .busy)) ∨
    (state.queue.serving = request.ticket ∧
      fits budget state.queue request.weight = true ∧
      attempt budget state.queue request.ticket request.weight expired =
        ({ state.queue.advance with
            inFlight := min (state.queue.inFlight + request.weight) usizeMax
            running := state.queue.running + 1 }, .running)) := by
  have low := inv.behind request member waits
  have free : request.ticket ∉ state.queue.abandoned := by
    intro left
    exact inv.quiet request member left waits
  unfold attempt
  dsimp only
  split_ifs with blocked late head
  · exact .inr (.inr (.inl ⟨head, by rw [Finset.erase_insert free]⟩))
  · exact .inr (.inl ⟨lt_of_le_of_ne low head, rfl⟩)
  · exact .inl rfl
  · rw [not_or, not_not, Bool.not_eq_false] at blocked
    exact .inr (.inr (.inr ⟨blocked.1, blocked.2, rfl⟩))

theorem settle_same (inv : Orderly budget state) (request : Request)
    (member : request ∈ state.requests) :
    settle request.ticket request.phase state.requests = state.requests := by
  rw [settle]
  conv_rhs => rw [← List.map_id state.requests]
  apply List.map_congr_left
  intro other listed
  split_ifs with same
  · rw [List.inj_on_of_nodup_map (inv.once budget state) listed member same]
    rfl
  · rfl

theorem head_past (inv : Orderly budget state) (space : state.queue.next < ticketSpace)
    (request : Request) (member : request ∈ state.requests)
    (head : state.queue.serving = request.ticket) (phase : Phase) (gone : phase ≠ .waiting) :
    state.queue.advance.serving ≤ state.queue.next ∧
    (∀ other ∈ settle request.ticket phase state.requests, other.phase = .waiting →
      state.queue.advance.serving ≤ other.ticket) ∧
    (∀ ticket ∈ state.queue.advance.abandoned,
      state.queue.advance.serving < ticket ∧ ticket < state.queue.next) ∧
    (∀ other ∈ settle request.ticket phase state.requests,
      other.ticket ∈ state.queue.advance.abandoned → other.phase ≠ .waiting) ∧
    (∀ other ∈ settle request.ticket phase state.requests,
      state.queue.advance.serving ≤ other.ticket →
        other.phase = .waiting ∨ other.ticket ∈ state.queue.advance.abandoned) := by
  have bound := inv.known budget state request member
  obtain ⟨grows, high, free, passed, kept⟩ := advance_spec state.queue space
    (fun ticket left => (inv.ahead ticket left).2) (head ▸ bound)
  refine ⟨high, ?_, ?_, ?_, ?_⟩
  · intro other listed waits
    rcases (mem_settle _ _ _ _).1 listed with ⟨listed, apart⟩ | ⟨_, phased, _⟩
    · by_contra early
      have low := inv.behind other listed waits
      exact inv.quiet other listed (passed other.ticket (by omega) (by omega)) waits
    · exact absurd (phased.symm.trans waits) gone
  · intro ticket left
    obtain ⟨inside, outside⟩ := (kept ticket).1 left
    have bounds := inv.ahead ticket inside
    have apart : ticket ≠ state.queue.advance.serving := by
      rintro rfl
      exact free inside
    omega
  · intro other listed left
    rcases (mem_settle _ _ _ _).1 listed with ⟨listed, _⟩ | ⟨_, phased, _⟩
    · exact inv.quiet other listed ((kept _).1 left).1
    · rw [phased]
      exact gone
  · intro other listed above
    rcases (mem_settle _ _ _ _).1 listed with ⟨listed, _⟩ | ⟨same, _⟩
    · rcases inv.frontier other listed (by omega) with waits | left
      · exact .inl waits
      · exact .inr ((kept _).2 ⟨left, by omega⟩)
    · omega

theorem entered_settle (inv : Orderly budget state) (request : Request)
    (started : List Nat) (phase : Phase)
    (others : ∀ ticket, ticket ≠ request.ticket → (ticket ∈ started ↔ ticket ∈ state.started))
    (this : request.ticket ∈ started ↔ phase = .running ∨ phase = .done) :
    ∀ other ∈ settle request.ticket phase state.requests,
      other.ticket ∈ started ↔ other.phase = .running ∨ other.phase = .done := by
  intro other listed
  rcases (mem_settle _ _ _ _).1 listed with ⟨listed, apart⟩ | ⟨same, phased, _⟩
  · rw [others other.ticket apart]
    exact inv.entered other listed
  · rw [same, phased]
    exact this

theorem live_idle (inv : Orderly budget state) (measure : Nat → Nat) (request : Request)
    (member : request ∈ state.requests) (waits : request.phase = .waiting) (phase : Phase)
    (idle : phase ≠ .running) :
    live measure (settle request.ticket phase state.requests) = live measure state.requests := by
  have sum := live_settle measure phase state.requests request (inv.once budget state) member
  rw [waits, if_neg idle, if_neg (by decide)] at sum
  exact sum

theorem attempt_orderly (inv : Orderly budget state) (space : state.queue.next < ticketSpace)
    (light : total state.requests < usizeMax) (request : Request)
    (member : request ∈ state.requests) (waits : request.phase = .waiting) (expired : Bool) :
    Orderly budget (state.attempt budget request.ticket request.weight expired) := by
  have unstarted : request.ticket ∉ state.started := by
    intro began
    rcases (inv.entered request member).1 began with runs | over' <;>
      rw [waits] at * <;> contradiction
  have low := inv.behind request member waits
  have bound := inv.known budget state request member
  rcases attempt_cases budget state inv request member waits expired with
    stays | ⟨late, left⟩ | ⟨head, left⟩ | ⟨head, fit, starts⟩
  · have same : state.attempt budget request.ticket request.weight expired = state := by
      have settled := settle_same budget state inv request member
      rw [waits] at settled
      simp [State.attempt, stays, settled]
    rw [same]
    exact inv
  · have idle := live_idle budget state inv
    simp only [State.attempt, left]
    refine ⟨by rw [tickets_settle, inv.tickets], inv.turn, ?_, ?_, ?_, ?_, ?_, ?_, inv.within,
      inv.order, inv.passed, ?_⟩
    · intro other listed stays
      rcases (mem_settle _ _ _ _).1 listed with ⟨listed, _⟩ | ⟨_, phased, _⟩
      · exact inv.behind other listed stays
      · rw [phased] at stays
        contradiction
    · intro ticket listed
      rcases Finset.mem_insert.1 listed with rfl | listed
      · exact ⟨late, bound⟩
      · exact inv.ahead ticket listed
    · intro other listed gone
      rcases (mem_settle _ _ _ _).1 listed with ⟨listed, apart⟩ | ⟨_, phased, _⟩
      · exact inv.quiet other listed (Finset.mem_of_mem_insert_of_ne gone apart)
      · rw [phased]
        decide
    · intro other listed above
      rcases (mem_settle _ _ _ _).1 listed with ⟨listed, _⟩ | ⟨same, _⟩
      · rcases inv.frontier other listed above with stays | gone
        · exact .inl stays
        · exact .inr (Finset.mem_insert_of_mem gone)
      · rw [same]
        exact .inr (Finset.mem_insert_self _ _)
    · rw [idle id request member waits .busy (by decide)]
      exact inv.inFlight
    · rw [idle _ request member waits .busy (by decide)]
      exact inv.running
    · exact entered_settle budget state inv request state.started .busy (fun _ _ => Iff.rfl)
        (by simp [unstarted])
  · have idle := live_idle budget state inv
    obtain ⟨turn, behind, ahead, quiet, opened⟩ :=
      head_past budget state inv space request member head .busy (by decide)
    simp only [State.attempt, left]
    refine ⟨by rw [tickets_settle, inv.tickets]; rfl, turn, behind, ahead, quiet, opened, ?_, ?_,
      inv.within, inv.order, ?_, ?_⟩
    · rw [idle id request member waits .busy (by decide)]
      exact inv.inFlight
    · rw [idle _ request member waits .busy (by decide)]
      exact inv.running
    · intro ticket began
      have grows := (advance_spec state.queue space (fun ticket left => (inv.ahead ticket left).2)
        (head ▸ bound)).1
      exact (inv.passed ticket began).trans grows
    · exact entered_settle budget state inv request state.started .busy (fun _ _ => Iff.rfl)
        (by simp [unstarted])
  · have grows := (advance_spec state.queue space (fun ticket left => (inv.ahead ticket left).2)
      (head ▸ bound)).1
    obtain ⟨turn, behind, ahead, quiet, opened⟩ :=
      head_past budget state inv space request member head .running (by decide)
    have weight := live_settle id .running state.requests request (inv.once budget state) member
    have count := live_settle (fun _ => 1) .running state.requests request
      (inv.once budget state) member
    have most := live_le_total (settle request.ticket .running state.requests)
    rw [waits, if_neg (by decide), if_pos rfl] at weight count
    rw [total_settle] at most
    simp only [id] at weight count
    have exactly : min (state.queue.inFlight + request.weight) usizeMax =
        live id (settle request.ticket .running state.requests) := by
      rw [inv.inFlight]
      omega
    simp only [State.attempt, starts, if_true]
    refine ⟨by rw [tickets_settle, inv.tickets]; rfl, turn, behind, ahead, quiet, opened, exactly,
      ?_, ?_, ?_, ?_, ?_⟩
    · change state.queue.running + 1 =
        live (fun _ => 1) (settle request.ticket .running state.requests)
      rw [inv.running]
      omega
    · simp only [fits, Bool.or_eq_true, decide_eq_true_eq] at fit
      rcases fit with alone | room
      · exact .inr (by rw [alone])
      · exact .inl room
    · rw [List.pairwise_append]
      refine ⟨inv.order, List.pairwise_singleton _ _, ?_⟩
      intro earlier began last listed
      rw [List.mem_singleton.1 listed, ← head]
      exact inv.passed earlier began
    · intro ticket began
      rcases List.mem_append.1 began with began | last
      · exact (inv.passed ticket began).trans grows
      · rw [List.mem_singleton.1 last, ← head]
        exact grows
    · refine entered_settle budget state inv request _ .running ?_ ?_
      · intro ticket apart
        simp [apart]
      · simp

theorem release_orderly (inv : Orderly budget state) (request : Request)
    (member : request ∈ state.requests) (runs : request.phase = .running) :
    Orderly budget (state.release request.ticket request.weight) := by
  have began : request.ticket ∈ state.started := (inv.entered request member).2 (.inl runs)
  have past := inv.passed _ began
  have weight := live_settle id .done state.requests request (inv.once budget state) member
  have count := live_settle (fun _ => 1) .done state.requests request (inv.once budget state)
    member
  rw [runs, if_pos rfl, if_neg (by decide)] at weight count
  simp only [id] at weight
  refine ⟨by rw [State.release, tickets_settle, inv.tickets], inv.turn, ?_, inv.ahead, ?_, ?_, ?_,
    ?_, ?_, inv.order, inv.passed, ?_⟩
  · intro other listed waits
    rcases (mem_settle _ _ _ _).1 listed with ⟨listed, _⟩ | ⟨_, phased, _⟩
    · exact inv.behind other listed waits
    · rw [phased] at waits
      contradiction
  · intro other listed gone
    rcases (mem_settle _ _ _ _).1 listed with ⟨listed, _⟩ | ⟨_, phased, _⟩
    · exact inv.quiet other listed gone
    · rw [phased]
      decide
  · intro other listed above
    rcases (mem_settle _ _ _ _).1 listed with ⟨listed, _⟩ | ⟨same, _⟩
    · exact inv.frontier other listed above
    · simp only [State.release] at above
      omega
  · simp only [State.release]
    rw [inv.inFlight]
    omega
  · simp only [State.release]
    rw [inv.running]
    omega
  · simp only [State.release]
    rcases inv.within with room | alone
    · exact .inl (by omega)
    · have absent := live_none id (settle request.ticket .done state.requests)
        (by rw [inv.running] at alone; omega)
      refine .inl ?_
      rw [inv.inFlight]
      omega
  · exact entered_settle budget state inv request state.started .done (fun _ _ => Iff.rfl)
      (by simp [began])

theorem attempt_total (ticket weight : Nat) (expired : Bool) :
    total (state.attempt budget ticket weight expired).requests = total state.requests := by
  simp [State.attempt]

theorem attempt_next (ticket weight : Nat) (expired : Bool) :
    (state.attempt budget ticket weight expired).queue.next = state.queue.next := by
  simp only [State.attempt, attempt]
  split_ifs <;> rfl

def Roomy (events : List Event) : Prop :=
  Orderly budget state ∧ state.queue.next + (arriving events).length < ticketSpace ∧
    total state.requests + (arriving events).foldr (· + ·) 0 < usizeMax

theorem step_roomy (event : Event) (events : List Event) (state' : State)
    (roomy : Roomy budget state (event :: events))
    (taken : step budget state event = some state') : Roomy budget state' events := by
  obtain ⟨inv, space, light⟩ := roomy
  cases event with
  | admitFor weight expired =>
    obtain rfl := Option.some.inj taken
    simp only [arriving, List.length_cons, List.foldr_cons] at space light
    have arrived := arrive_orderly budget state inv weight (by omega)
    have heavier : total (state.arrive weight).requests = total state.requests + weight := by
      simp only [State.arrive, total]
      generalize state.requests = requests
      induction requests with
      | nil => simp
      | cons request requests ih =>
        simp only [List.cons_append, List.foldr_cons, ih]
        omega
    have next : (state.arrive weight).queue.next = state.queue.next + 1 :=
      Nat.mod_eq_of_lt (by omega)
    have last : (⟨state.queue.next, weight, .waiting⟩ : Request) ∈
        (state.arrive weight).requests :=
      List.mem_append_right _ (List.mem_singleton_self _)
    refine ⟨attempt_orderly budget _ arrived (by omega) (by omega) _ last rfl expired, ?_, ?_⟩
    · rw [attempt_next, next]
      omega
    · rw [attempt_total, heavier]
      omega
  | wake ticket expired =>
    obtain ⟨request, found, rfl⟩ := Option.map_eq_some_iff.1 taken
    obtain ⟨member, rfl, waits⟩ := find_some _ _ _ _ found
    simp only [arriving] at space light
    refine ⟨attempt_orderly budget state inv (by omega) (by omega) request member waits expired,
      ?_, ?_⟩
    · rw [attempt_next]
      exact space
    · rw [attempt_total]
      exact light
  | drop ticket =>
    obtain ⟨request, found, rfl⟩ := Option.map_eq_some_iff.1 taken
    obtain ⟨member, rfl, runs⟩ := find_some _ _ _ _ found
    simp only [arriving] at space light
    refine ⟨release_orderly budget state inv request member runs, space, ?_⟩
    rw [State.release, total_settle]
    exact light

theorem initial_orderly : Orderly budget initial := by
  constructor <;> simp [initial, live]

theorem serving_least (inv : Orderly budget state) :
    IsLeast { ticket | ∃ request ∈ state.requests, request.phase = .waiting ∧
      request.ticket = ticket } state.queue.serving ∨
    ((∀ request ∈ state.requests, request.phase ≠ .waiting) ∧
      state.queue.serving = state.queue.next) := by
  rcases Nat.eq_or_lt_of_le inv.turn with last | before
  · refine .inr ⟨?_, last⟩
    intro request member waits
    have low := inv.behind request member waits
    have bound := inv.known budget state request member
    omega
  · have listed : state.queue.serving ∈ state.requests.map (·.ticket) := by
      rw [inv.tickets]
      exact List.mem_range.2 before
    obtain ⟨request, member, same⟩ := List.mem_map.1 listed
    refine .inl ⟨⟨request, member, ?_, same⟩, ?_⟩
    · rcases inv.frontier request member (Nat.le_of_eq same.symm) with waits | left
      · exact waits
      · rw [same] at left
        exact absurd (inv.ahead _ left).1 (Nat.lt_irrefl _)
    · rintro ticket ⟨other, listed, waits, rfl⟩
      exact inv.behind other listed waits

theorem first_starts (inv : Orderly budget state) (request : Request)
    (member : request ∈ state.requests) (waits : request.phase = .waiting)
    (first : ∀ other ∈ state.requests, other.phase = .waiting → request.ticket ≤ other.ticket)
    (fit : fits budget state.queue request.weight = true) (expired : Bool) :
    ∃ state', step budget state (.wake request.ticket expired) = some state' ∧
      request.ticket ∈ state'.started := by
  have head : state.queue.serving = request.ticket := by
    rcases serving_least budget state inv with ⟨⟨other, listed, stays, same⟩, least⟩ | ⟨absent, _⟩
    · exact Nat.le_antisymm (least ⟨request, member, waits, rfl⟩) (same ▸ first other listed stays)
    · exact absurd waits (absent request member)
  have found : find state.requests request.ticket .waiting = some request := by
    cases search : find state.requests request.ticket .waiting with
    | none => simpa [waits] using List.find?_eq_none.1 search request member
    | some other =>
      obtain ⟨listed, same, -⟩ := find_some _ _ _ _ search
      rw [List.inj_on_of_nodup_map (inv.once budget state) listed member same]
  refine ⟨state.attempt budget request.ticket request.weight expired, ?_, ?_⟩
  · rw [step, found, Option.map_some]
  · have starts : (attempt budget state.queue request.ticket request.weight expired).2 =
        .running := by
      rw [attempt, if_neg (by simp [head, fit])]
    simp [State.attempt, starts]

end Step

/-- In every interleaving, requests are admitted first come, first served, within the budget. -/
theorem admission_orderly (budget : Nat) (events : List Event) (state : State)
    (weights : (arriving events).foldr (· + ·) 0 < usizeMax)
    (tickets : (arriving events).length < ticketSpace)
    (reached : run (step budget) initial events = some state) :
    state.queue.inFlight = live id state.requests ∧
    state.queue.running = live (fun _ => 1) state.requests ∧
    (state.queue.inFlight ≤ budget ∨ state.queue.running = 1) ∧
    state.started.Pairwise (· < ·) ∧
    (∀ request ∈ state.requests,
      (request.ticket ∈ state.started ↔ request.phase = .running ∨ request.phase = .done)) ∧
    (∀ ticket ∈ state.started, ∀ request ∈ state.requests, request.phase = .waiting →
      ticket < request.ticket) ∧
    (IsLeast { ticket | ∃ request ∈ state.requests, request.phase = .waiting ∧
        request.ticket = ticket } state.queue.serving ∨
      (∀ request ∈ state.requests, request.phase ≠ .waiting) ∧
        state.queue.serving = state.queue.next) ∧
    (∀ ticket ∈ state.queue.abandoned, state.queue.serving < ticket) ∧
    (∀ request ∈ state.requests, request.phase = .waiting →
      (∀ other ∈ state.requests, other.phase = .waiting → request.ticket ≤ other.ticket) →
      fits budget state.queue request.weight = true → ∀ expired,
      ∃ state', step budget state (.wake request.ticket expired) = some state' ∧
        request.ticket ∈ state'.started) := by
  have first : Roomy budget initial events :=
    ⟨initial_orderly budget, by simpa [initial] using tickets, by simpa [initial, total] using weights⟩
  obtain ⟨inv, -, -⟩ := run_keeps (step budget) (Roomy budget)
    (fun state event events state' => step_roomy budget state event events state') initial state
    events first reached
  refine ⟨inv.inFlight, inv.running, inv.within, inv.order, inv.entered, ?_,
    serving_least budget state inv, fun ticket left => (inv.ahead ticket left).1,
    fun request member waits first fit expired =>
      first_starts budget state inv request member waits first fit expired⟩
  intro ticket began request member waits
  exact (inv.passed ticket began).trans_le (inv.behind request member waits)

/-- A request gives up in the middle of the queue; the one before it then starts past it. -/
def sampleEvents : List Event :=
  [.admitFor 6 false, .admitFor 6 false, .admitFor 3 false, .wake 2 true, .drop 0, .wake 1 false]

def sampleState : State :=
  ⟨⟨3, 3, ∅, 6, 1⟩, [⟨0, 6, .done⟩, ⟨1, 6, .running⟩, ⟨2, 3, .busy⟩], [0, 1]⟩

theorem sampleEvents_run : run (step 10) initial sampleEvents = some sampleState := by
  have alone : skip ∅ 1 = (∅, 1) := by rw [skip, if_neg (by decide)]
  have past : skip {2} 2 = (∅, 3) := by
    rw [skip, if_pos (by decide), show Finset.erase ({2} : Finset Nat) 2 = ∅ by decide,
      show (2 + 1) % ticketSpace = 3 by decide, skip, if_neg (by decide)]
  have first : step 10 initial (.admitFor 6 false) =
      some ⟨⟨1, 1, ∅, 6, 1⟩, [⟨0, 6, .running⟩], [0]⟩ := by
    simp [step, initial, State.arrive, State.attempt, attempt, fits, Queue.advance, alone,
      settle, ticketSpace, usizeMax]
  have last : step 10 ⟨⟨3, 1, {2}, 0, 0⟩, [⟨0, 6, .done⟩, ⟨1, 6, .waiting⟩, ⟨2, 3, .busy⟩], [0]⟩
      (.wake 1 false) = some sampleState := by
    simp [step, find, State.attempt, attempt, fits, Queue.advance, past, settle, ticketSpace,
      usizeMax, sampleState]
  rw [sampleEvents, run, first, Option.bind_some]
  exact last

/-- The run above, read off the general theorem. -/
theorem admission_orderly_sample :
    sampleState.queue.inFlight = live id sampleState.requests ∧
    sampleState.started.Pairwise (· < ·) := by
  have all := admission_orderly 10 sampleEvents sampleState (by decide) (by decide) sampleEvents_run
  exact ⟨all.1, all.2.2.2.1⟩

end DeepDiffForge.Daemon.Admission
