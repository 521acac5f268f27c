import DeepDiffForge.Daemon.Startup

/-! What can be relied on at a socket path, by what happened there so far: which socket is reached,
which one a daemon removes, and when a client is told that the daemon stopped. -/

namespace DeepDiffForge.Daemon.Startup
open Machine

def since (mark kind : Event → Bool) (events : List Event) : Bool :=
  (events.reverse.takeWhile fun event => !mark event).any kind

theorem since_concat (mark kind : Event → Bool) (events : List Event) (event : Event) :
    since mark kind (events ++ [event]) =
      (!mark event && (kind event || since mark kind events)) := by
  unfold since
  rw [List.reverse_concat, List.takeWhile_cons]
  cases mark event <;> simp

def Event.bound (p : Nat) : Event → Option Nat
  | .bind q id => if q = p then some id else none
  | _ => none

def lastBind (p : Nat) (events : List Event) : Option Nat :=
  events.reverse.findSome? (Event.bound p)

theorem lastBind_concat (p : Nat) (events : List Event) (event : Event) :
    lastBind p (events ++ [event]) = (event.bound p).or (lastBind p events) := by
  unfold lastBind
  rw [List.reverse_concat, List.findSome?_cons]
  cases event.bound p <;> rfl

/-- Whether someone else swapped what is at the path since the process bound its socket. -/
def swapped (p : Nat) (events : List Event) : Bool :=
  since (fun event => (event.bound p).isSome) Event.swaps events

def sinceLast (mark : Event) (kind : Event → Bool) (events : List Event) : Bool :=
  since (fun event => decide (event = mark)) kind events

def Phase.starting : Phase → Bool
  | .looking | .probing | .unlinking | .binding | .securing | .identifying => true
  | _ => false

structure Tracked (events : List Event) (s : State) (p : Nat) : Prop where
  lock : (s.procs p).phase ≠ .idle → s.lockFile = true
  starting : (s.procs p).phase.starting = true →
    (s.procs p).identity = none ∧ (s.procs p).watch = .none
  quiet : (s.procs p).phase = .setup → (s.procs p).watch = .none
  opened : (s.procs p).phase = .securing ∨ (s.procs p).phase = .identifying →
    (s.procs p).listener ≠ none
  listener : ∀ id, (s.procs p).listener = some id → lastBind p events = some id
  reached : ∀ id, (s.procs p).listener = some id → swapped p events = true ∨
    s.path = .socket id ∨
      s.path = .absent ∧ ((s.procs p).phase = .closing ∨ (s.procs p).watch = .exiting)
  own : ∀ id, (s.procs p).identity = some id →
    lastBind p events = some id ∨ swapped p events = true
  stale : (s.procs p).phase = .unlinking → ∀ id, s.path = .socket id →
    id ∉ s.listening ∪ s.foreign ∨ sinceLast (.go p) Event.listens events = true ∨
      sinceLast (.go p) Event.swaps events = true
  main : (s.procs p).phase = .removing → ∀ id, s.path = .socket id →
    (s.procs p).identity = some id ∨ sinceLast (.go p) Event.swaps events = true
  watcher : (s.procs p).watch = .removing → ∀ id, s.path = .socket id →
    (s.procs p).identity = some id ∨ sinceLast (.watch p) Event.swaps events = true

section
variable (events : List Event) (s s' : State) (p : Nat) (event : Event)

theorem tracked_bare (bare : Bare (s.procs p))
    (lock : (s.procs p).phase ≠ .idle → s.lockFile = true) : Tracked events s p := by
  rcases bare with same | same
  · constructor <;> simp [same, Process.new, Phase.starting]
  · rw [same] at lock
    constructor <;> simp [same, Process.new, Phase.starting, lock]

theorem bound_none (away : event.owner ≠ some p) : event.bound p = none := by
  cases event with
  | bind q id =>
    have apart : q ≠ p := fun same => away (congrArg some same)
    exact if_neg apart
  | _ => rfl

/-- An event of someone else keeps what a process has. -/
theorem tracked_aside (tracked : Tracked events s p) (away : event.owner ≠ some p)
    (procs : s'.procs p = s.procs p) (lock : s.lockFile = true → s'.lockFile = true)
    (path : s'.path = s.path ∨ event.swaps = true)
    (live : s'.listening ∪ s'.foreign ⊆ s.listening ∪ s.foreign ∨ event.listens = true) :
    Tracked (events ++ [event]) s' p := by
  have unbound := bound_none p event away
  have bind : lastBind p (events ++ [event]) = lastBind p events := by
    rw [lastBind_concat, unbound, Option.none_or]
  have swap : swapped p (events ++ [event]) = (event.swaps || swapped p events) := by
    rw [swapped, since_concat, unbound]
    rfl
  have last (mark : Event) (kind : Event → Bool) (own : mark.owner = some p) :
      sinceLast mark kind (events ++ [event]) = (kind event || sinceLast mark kind events) := by
    have apart : event ≠ mark := by
      rintro rfl
      exact away own
    rw [sinceLast, since_concat, decide_eq_false apart]
    rfl
  have moved (holds : Prop) (id : Nat) (there : s'.path = .socket id)
      (kept : s.path = .socket id → holds) : holds ∨ event.swaps = true :=
    path.imp_left fun same => kept (same.symm.trans there)
  constructor
  · rw [procs]
    exact fun busy => lock (tracked.lock busy)
  · rw [procs]
    exact tracked.starting
  · rw [procs]
    exact tracked.quiet
  · rw [procs]
    exact tracked.opened
  · rw [procs, bind]
    exact tracked.listener
  · rw [procs, swap]
    intro id listens
    rcases path with same | swaps
    · rw [same]
      exact (tracked.reached id listens).imp_left fun before => by rw [before, Bool.or_true]
    · rw [swaps]
      exact .inl rfl
  · rw [procs, bind, swap]
    intro id identity
    exact (tracked.own id identity).imp_right fun before => by rw [before, Bool.or_true]
  · rw [procs, last (.go p) _ rfl, last (.go p) _ rfl]
    intro phase id there
    rcases moved _ id there (tracked.stale phase id) with (silent | heard | before) | swaps
    · rcases live with fewer | listens
      · exact .inl fun held => silent (fewer held)
      · exact .inr (.inl (by rw [listens]; rfl))
    · exact .inr (.inl (by rw [heard, Bool.or_true]))
    · exact .inr (.inr (by rw [before, Bool.or_true]))
    · exact .inr (.inr (by rw [swaps]; rfl))
  · rw [procs, last (.go p) _ rfl]
    intro phase id there
    rcases moved _ id there (tracked.main phase id) with (own | before) | swaps
    · exact .inl own
    · exact .inr (by rw [before, Bool.or_true])
    · exact .inr (by rw [swaps]; rfl)
  · rw [procs, last (.watch p) _ rfl]
    intro watch id there
    rcases moved _ id there (tracked.watcher watch id) with (own | before) | swaps
    · exact .inl own
    · exact .inr (by rw [before, Bool.or_true])
    · exact .inr (by rw [swaps]; rfl)

theorem own_plain (owner : event.owner = some p) :
    event.swaps = false ∧ event.listens = false := by
  cases event with
  | swap | listen => cases owner
  | _ => exact ⟨rfl, rfl⟩

theorem lastBind_plain (plain : event.bound p = none) :
    lastBind p (events ++ [event]) = lastBind p events := by
  rw [lastBind_concat, plain, Option.none_or]

theorem swapped_plain (owner : event.owner = some p) (plain : event.bound p = none) :
    swapped p (events ++ [event]) = swapped p events := by
  rw [swapped, since_concat, plain, (own_plain p event owner).1]
  rfl

theorem sinceLast_other (mark : Event) (kind : Event → Bool) (plain : kind event = false)
    (apart : event ≠ mark) :
    sinceLast mark kind (events ++ [event]) = sinceLast mark kind events := by
  rw [sinceLast, since_concat, decide_eq_false apart, plain]
  rfl

theorem tracked_moved (tracked : Tracked events s p) (owner : event.owner = some p)
    (plain : event.bound p = none) (inside : (s.procs p).phase ≠ .idle)
    (lock : s'.lockFile = s.lockFile) (path : s'.path = s.path)
    (listener : (s'.procs p).listener = (s.procs p).listener)
    (identity : (s'.procs p).identity = (s.procs p).identity)
    (closing : (s.procs p).phase = .closing → (s'.procs p).phase = .closing)
    (exiting : (s.procs p).watch = .exiting → (s'.procs p).watch = .exiting)
    (starting : (s'.procs p).phase.starting = true →
      (s.procs p).phase.starting = true ∧ (s'.procs p).watch = (s.procs p).watch)
    (quiet : (s'.procs p).phase = .setup → (s'.procs p).watch = .none)
    (opened : (s'.procs p).phase = .securing ∨ (s'.procs p).phase = .identifying →
      (s.procs p).phase = .securing ∨ (s.procs p).phase = .identifying)
    (stale : (s'.procs p).phase = .unlinking → ∀ id, s.path = .socket id →
      id ∉ s'.listening ∪ s'.foreign)
    (main : (s'.procs p).phase = .removing → ∀ id, s.path = .socket id →
      (s.procs p).identity = some id ∨
        sinceLast (.go p) Event.swaps (events ++ [event]) = true)
    (watcher : (s'.procs p).watch = .removing → ∀ id, s.path = .socket id →
      (s.procs p).identity = some id ∨
        sinceLast (.watch p) Event.swaps (events ++ [event]) = true) :
    Tracked (events ++ [event]) s' p := by
  have bind := lastBind_plain events p event plain
  have swap := swapped_plain events p event owner plain
  constructor
  · rw [lock]
    exact fun _ => tracked.lock inside
  · intro early
    obtain ⟨before, watch⟩ := starting early
    rw [identity, watch]
    exact tracked.starting before
  · exact quiet
  · rw [listener]
    exact fun early => tracked.opened (opened early)
  · rw [listener, bind]
    exact tracked.listener
  · rw [listener, swap, path]
    intro id listens
    refine (tracked.reached id listens).imp_right (Or.imp_right fun gone => ⟨gone.1, ?_⟩)
    exact gone.2.imp closing exiting
  · rw [identity, bind, swap]
    exact tracked.own
  · rw [path]
    exact fun phase id there => .inl (stale phase id there)
  · rw [path, identity]
    exact main
  · rw [path, identity]
    exact watcher

/-- A step of the process that leaves nothing at the path. -/
theorem tracked_unlinked (tracked : Tracked events s p) (owner : event.owner = some p)
    (plain : event.bound p = none) (inside : (s.procs p).phase ≠ .idle)
    (lock : s'.lockFile = s.lockFile) (path : s'.path = .absent)
    (listener : (s'.procs p).listener = (s.procs p).listener)
    (identity : (s'.procs p).identity = (s.procs p).identity)
    (ends : (s.procs p).listener ≠ none →
      (s'.procs p).phase = .closing ∨ (s'.procs p).watch = .exiting)
    (starting : (s'.procs p).phase.starting = true →
      (s.procs p).phase.starting = true ∧ (s'.procs p).watch = (s.procs p).watch)
    (settled : (s'.procs p).phase ≠ .setup ∧ (s'.procs p).phase ≠ .securing ∧
      (s'.procs p).phase ≠ .identifying) : Tracked (events ++ [event]) s' p := by
  have bind := lastBind_plain events p event plain
  have swap := swapped_plain events p event owner plain
  constructor
  · rw [lock]
    exact fun _ => tracked.lock inside
  · intro early
    obtain ⟨before, watch⟩ := starting early
    rw [identity, watch]
    exact tracked.starting before
  · exact fun setup => absurd setup settled.1
  · exact fun early => (early.elim settled.2.1 settled.2.2).elim
  · rw [listener, bind]
    exact tracked.listener
  · rw [listener]
    intro id listens
    exact .inr (.inr ⟨path, ends (by rw [listens]; exact Option.some_ne_none id)⟩)
  · rw [identity, bind, swap]
    exact tracked.own
  · rw [path]
    exact fun _ id there => by cases there
  · rw [path]
    exact fun _ id there => by cases there
  · rw [path]
    exact fun _ id there => by cases there

theorem tracked_phase (tracked : Tracked events s p) (phase : Phase)
    (owner : event.owner = some p) (plain : event.bound p = none) (apart : event ≠ .watch p)
    (inside : (s.procs p).phase ≠ .idle)
    (closing : (s.procs p).phase = .closing → phase = .closing)
    (starting : phase.starting = true → (s.procs p).phase.starting = true)
    (settled : phase ≠ .setup)
    (opened : phase = .securing ∨ phase = .identifying →
      (s.procs p).phase = .securing ∨ (s.procs p).phase = .identifying)
    (stale : phase = .unlinking → ∀ id, s.path = .socket id → id ∉ s.listening ∪ s.foreign)
    (main : phase = .removing → ∀ id, s.path = .socket id → (s.procs p).identity = some id) :
    Tracked (events ++ [event]) (s.move p phase) p := by
  have own : (s.move p phase).procs p = { s.procs p with phase } := State.put_self s p _
  apply tracked_moved events s (s.move p phase) p event tracked owner plain inside rfl rfl
  · rw [own]
  · rw [own]
  · rw [own]
    exact closing
  · rw [own]
    exact id
  · rw [own]
    exact fun early => ⟨starting early, rfl⟩
  · rw [own]
    exact fun setup => absurd setup settled
  · rw [own]
    exact opened
  · rw [own]
    exact stale
  · rw [own]
    exact fun removing id there => .inl (main removing id there)
  · rw [own, sinceLast_other events event _ _ (own_plain p event owner).1 apart]
    exact tracked.watcher

theorem tracked_released : Tracked events (s.release p) p := by
  have new : (s.release p).procs p = .new := Function.update_self p _ _
  apply tracked_bare events _ p (.inl new)
  rw [new]
  exact fun busy => absurd rfl busy

theorem tracked_identified (tracked : Tracked events s p)
    (phase : (s.procs p).phase = .identifying) (id : Nat)
    (there : s.path = .socket id ∨ s.path = .other id) :
    Tracked (events ++ [.go p])
      (s.put p { s.procs p with phase := .setup, identity := some id }) p := by
  have own := State.put_self s p { s.procs p with phase := .setup, identity := some id }
  have bind := lastBind_plain events p (.go p) rfl
  have swap := swapped_plain events p (.go p) rfl rfl
  have quiet := (tracked.starting (by rw [phase]; rfl)).2
  have awake {watch : Watch} (some : watch ≠ .none) (same : (s.procs p).watch = watch) : False :=
    some (same.symm.trans quiet)
  have reached (listener : Nat) (listens : (s.procs p).listener = some listener) :
      swapped p events = true ∨ s.path = .socket listener := by
    refine (tracked.reached listener listens).imp_right ?_
    rintro (same | ⟨-, closing | exiting⟩)
    · exact same
    · rw [phase] at closing
      cases closing
    · exact (awake Watch.noConfusion exiting).elim
  constructor
  · exact fun _ => tracked.lock (by rw [phase]; exact Phase.noConfusion)
  · rw [own]
    intro never
    cases never
  · rw [own]
    exact fun _ => quiet
  · rw [own]
    rintro (never | never) <;> cases never
  · rw [own, bind]
    exact tracked.listener
  · rw [own, swap]
    exact fun listener listens => (reached listener listens).imp_right .inl
  · rw [own, bind, swap]
    rintro _ ⟨⟩
    obtain ⟨listener, listens⟩ := Option.ne_none_iff_exists'.1 (tracked.opened (.inr phase))
    rcases reached listener listens with swaps | same
    · exact .inr swaps
    · rw [same] at there
      rcases there with ⟨⟨⟩⟩ | never
      · exact .inl (tracked.listener id listens)
      · cases never
  · rw [own]
    intro never
    cases never
  · rw [own]
    intro never
    cases never
  · rw [own]
    exact fun removing => (awake Watch.noConfusion removing).elim

theorem tracked_hungUp (tracked : Tracked events s p) (phase : (s.procs p).phase = .closing) :
    Tracked (events ++ [.go p]) (s.hangUp p) p := by
  have own : (s.hangUp p).procs p = { s.procs p with phase := .draining, listener := none } :=
    State.put_self s p _
  have bind := lastBind_plain events p (.go p) rfl
  have swap := swapped_plain events p (.go p) rfl rfl
  have last := sinceLast_other events (.go p) (.watch p) Event.swaps rfl Event.noConfusion
  constructor
  · exact fun _ => tracked.lock (by rw [phase]; exact Phase.noConfusion)
  · rw [own]
    intro never
    cases never
  · rw [own]
    intro never
    cases never
  · rw [own]
    rintro (never | never) <;> cases never
  · rw [own]
    intro id never
    cases never
  · rw [own]
    intro id never
    cases never
  · rw [own, bind, swap]
    exact tracked.own
  · rw [own]
    intro never
    cases never
  · rw [own]
    intro never
    cases never
  · rw [own, last]
    exact tracked.watcher

/-- The next operation of a main thread past the lock. -/
theorem go_tracked (tracked : Tracked events s p) (holds : Holds (s.procs p) s.listening)
    (taken : s.go p = some s') : Tracked (events ++ [.go p]) s' p := by
  have move (phase : Phase) := tracked_phase events s p (.go p) tracked phase rfl rfl
    Event.noConfusion holds.inside.1
  unfold State.go at taken
  cases phase : (s.procs p).phase with
  | idle => exact absurd phase holds.inside.1
  | opened => exact absurd phase holds.inside.2
  | looking =>
    rw [phase] at taken move
    cases there : s.path with
    | socket | other | absent =>
      rw [there] at taken
      cases taken
      apply move <;> simp [Phase.starting]
  | probing =>
    rw [phase] at taken move
    cases there : s.path with
    | socket id =>
      rw [there] at taken move
      dsimp only at taken
      split_ifs at taken with live
      · cases taken
        apply move <;> simp [Phase.starting]
      · cases taken
        apply move <;> simp [Phase.starting]
        simpa using live
    | other | absent =>
      rw [there] at taken move
      cases taken
      apply move <;> simp [Phase.starting]
  | unlinking =>
    have bare := holds.early (by rw [phase]; rfl)
    rw [phase] at taken move
    dsimp only at taken
    split_ifs at taken
    · cases taken
      apply move <;> simp [Phase.starting]
    · cases taken
      have own : (s.unlink.move p .binding).procs p = { s.procs p with phase := .binding } :=
        State.put_self s.unlink p _
      apply tracked_unlinked events s (s.unlink.move p .binding) p (.go p) tracked rfl rfl
        holds.inside.1 rfl rfl
      · rw [own]
      · rw [own]
      · exact fun listens => absurd bare listens
      · rw [own, phase]
        exact fun _ => ⟨rfl, rfl⟩
      · rw [own]
        simp
  | binding | securing =>
    rw [phase] at taken move
    dsimp only at taken
    split_ifs at taken
    all_goals
      cases taken
      apply move <;> simp [Phase.starting]
  | identifying =>
    rw [phase] at taken move
    cases there : s.path with
    | absent =>
      rw [there] at taken
      cases taken
      apply move <;> simp [Phase.starting]
    | socket id =>
      rw [there] at taken
      cases taken
      exact tracked_identified events s p tracked phase id (.inl there)
    | other id =>
      rw [there] at taken
      cases taken
      exact tracked_identified events s p tracked phase id (.inr there)
  | setup =>
    rw [phase] at taken
    cases taken
    have quiet := tracked.quiet phase
    apply tracked_moved events s (s.put p _) p (.go p) tracked rfl rfl holds.inside.1 rfl rfl
    all_goals simp [phase, quiet, Phase.starting]
  | serving =>
    rw [phase] at taken move
    dsimp only at taken
    split_ifs at taken
    cases taken
    apply move <;> simp [Phase.starting]
  | checking =>
    rw [phase] at taken move
    dsimp only at taken
    split_ifs at taken with owned
    · cases taken
      obtain ⟨id, there, identity⟩ := (isOwned_socket s.path _).1 owned
      apply move <;> simp [Phase.starting, there, identity]
    · cases taken
      apply move <;> simp [Phase.starting]
  | removing =>
    rw [phase] at taken
    cases taken
    have own : (s.unlink.move p .closing).procs p = { s.procs p with phase := .closing } :=
      State.put_self s.unlink p _
    apply tracked_unlinked events s (s.unlink.move p .closing) p (.go p) tracked rfl rfl
      holds.inside.1 rfl rfl
    all_goals rw [own]
    all_goals simp [Phase.starting]
  | closing =>
    rw [phase] at taken
    cases taken
    exact tracked_hungUp events s p tracked phase
  | draining =>
    rw [phase] at taken
    dsimp only at taken
    split_ifs at taken
    cases taken
    exact tracked_released _ s p

/-- The socket that a start binds is at the path, and is its last. -/
theorem bind_tracked (id : Nat) (tracked : Tracked events s p)
    (taken : step s (.bind p id) = some s') : Tracked (events ++ [.bind p id]) s' p := by
  unfold step at taken
  dsimp only at taken
  split_ifs at taken with ready
  cases taken
  obtain ⟨phase, -, -⟩ := ready
  obtain ⟨unnamed, quiet⟩ := tracked.starting (by rw [phase]; rfl)
  have own : (s.put p { s.procs p with phase := .securing, listener := some id }).procs p =
      { s.procs p with phase := .securing, listener := some id } := State.put_self s p _
  have bind : lastBind p (events ++ [.bind p id]) = some id := by
    rw [lastBind_concat, Event.bound, if_pos rfl]
    rfl
  constructor
  · exact fun _ => tracked.lock (by rw [phase]; exact Phase.noConfusion)
  · rw [own]
    exact fun _ => ⟨unnamed, quiet⟩
  · rw [own]
    intro never
    cases never
  · rw [own]
    exact fun _ => Option.some_ne_none id
  · rw [own, bind]
    exact fun _ => fun listens => listens
  · rw [own]
    rintro _ ⟨⟩
    exact .inr (.inl rfl)
  · rw [own]
    intro other identity
    cases unnamed.symm.trans identity
  · rw [own]
    intro never
    cases never
  · rw [own]
    intro never
    cases never
  · rw [own]
    intro removing
    cases quiet.symm.trans removing

/-- A step of a process that is told to stop, or of its watcher. -/
theorem tracked_awake (tracked : Tracked events s p) (inside : (s.procs p).phase ≠ .idle)
    (owner : event.owner = some p) (plain : event.bound p = none) (apart : event ≠ .go p)
    (awake : (s.procs p).watch ≠ .none) (watch : Watch) (running : Bool)
    (exiting : (s.procs p).watch = .exiting → watch = .exiting)
    (watcher : watch = .removing → ∀ id, s.path = .socket id →
      (s.procs p).identity = some id ∨
        sinceLast (.watch p) Event.swaps (events ++ [event]) = true) :
    Tracked (events ++ [event]) (s.put p { s.procs p with watch, running }) p := by
  have own := State.put_self s p { s.procs p with watch, running }
  apply tracked_moved events s (s.put p _) p event tracked owner plain inside rfl rfl
  · rw [own]
  · rw [own]
  · rw [own]
    exact id
  · rw [own]
    exact exiting
  · rw [own]
    exact fun early => absurd (tracked.starting early).2 awake
  · rw [own]
    exact fun setup => absurd (tracked.quiet setup) awake
  · rw [own]
    exact id
  · rw [own]
    intro unlinking
    refine absurd (tracked.starting ?_).2 awake
    change (s.procs p).phase = .unlinking at unlinking
    rw [unlinking]
    rfl
  · rw [own, sinceLast_other events event _ _ (own_plain p event owner).1 apart]
    exact tracked.main
  · rw [own]
    exact watcher

/-- The next operation of a watcher. -/
theorem watch_tracked (tracked : Tracked events s p) (inside : (s.procs p).phase ≠ .idle)
    (taken : s.watch p = some s') : Tracked (events ++ [.watch p]) s' p := by
  unfold State.watch at taken
  cases watch : (s.procs p).watch with
  | none | watching =>
    rw [watch] at taken
    cases taken
  | checking =>
    have awake : (s.procs p).watch ≠ .none := by simp [watch]
    rw [watch] at taken
    dsimp only at taken
    split_ifs at taken with owned
    · cases taken
      obtain ⟨id, there, identity⟩ := (isOwned_socket s.path _).1 owned
      apply tracked_awake events s p (.watch p) tracked inside rfl rfl Event.noConfusion awake
      · simp [watch]
      · simp [there, identity]
    · cases taken
      apply tracked_awake events s p (.watch p) tracked inside rfl rfl Event.noConfusion awake
      · simp
      · simp
  | removing =>
    have awake : (s.procs p).watch ≠ .none := by simp [watch]
    rw [watch] at taken
    cases taken
    have own : (s.unlink.put p { s.procs p with watch := .exiting }).procs p =
        { s.procs p with watch := .exiting } := State.put_self s.unlink p _
    apply tracked_unlinked events s (s.unlink.put p _) p (.watch p) tracked rfl rfl inside rfl rfl
    · rw [own]
    · rw [own]
    · rw [own]
      exact fun _ => .inr rfl
    · rw [own]
      exact fun early => absurd (tracked.starting early).2 awake
    · rw [own]
      refine ⟨fun setup => awake (tracked.quiet setup), ?_, ?_⟩
      · intro (securing : (s.procs p).phase = .securing)
        exact awake (tracked.starting (by rw [securing]; rfl)).2
      · intro (identifying : (s.procs p).phase = .identifying)
        exact awake (tracked.starting (by rw [identifying]; rfl)).2
  | exiting =>
    rw [watch] at taken
    cases taken
    exact tracked_released _ s p

theorem held_tracked (tracked : Tracked events s p) (holds : Holds (s.procs p) s.listening)
    (owner : event.owner = some p) (taken : step s event = some s') :
    Tracked (events ++ [event]) s' p := by
  have inside := holds.inside.1
  have watcher (apart : event ≠ .watch p) (removing : (s.procs p).watch = .removing) (id : Nat)
      (there : s.path = .socket id) : (s.procs p).identity = some id ∨
        sinceLast (.watch p) Event.swaps (events ++ [event]) = true := by
    rw [sinceLast_other events event _ _ (own_plain p event owner).1 apart]
    exact tracked.watcher removing id there
  cases event with
  | await | grant | drop | tell | quit | leave | swap | listen | unlisten => cases owner
  | go q =>
    cases owner
    exact go_tracked events s s' p tracked holds taken
  | bind q id =>
    cases owner
    exact bind_tracked events s s' p id tracked taken
  | stop q =>
    cases owner
    unfold step at taken
    dsimp only at taken
    split_ifs at taken with awake
    cases taken
    exact tracked_awake events s p (.stop p) tracked inside rfl rfl Event.noConfusion awake _ false
      id (watcher Event.noConfusion)
  | signal q =>
    cases owner
    unfold step at taken
    dsimp only at taken
    split_ifs at taken with watched running
    · cases taken
      have awake : (s.procs p).watch ≠ .none := by simp [not_not.1 watched]
      exact tracked_awake events s p (.signal p) tracked inside rfl rfl Event.noConfusion awake _
        false id (watcher Event.noConfusion)
    · cases taken
      have awake : (s.procs p).watch ≠ .none := by simp [not_not.1 watched]
      apply tracked_awake events s p (.signal p) tracked inside rfl rfl Event.noConfusion awake
      · simp [not_not.1 watched]
      · simp
  | watch q =>
    cases owner
    exact watch_tracked events s s' p tracked inside taken
  | fail q =>
    cases owner
    change s.fail p = some s' at taken
    have close := tracked_phase events s p (.fail p) tracked .closing rfl rfl Event.noConfusion inside
    unfold State.fail at taken
    cases phase : (s.procs p).phase with
    | opened => exact absurd phase holds.inside.2
    | looking | probing | unlinking | binding | securing | identifying =>
      rw [phase] at taken
      cases taken
      apply close <;> simp [Phase.starting]
    | _ =>
      rw [phase] at taken
      cases taken
  | abort q =>
    cases owner
    change s.abort p = some s' at taken
    have check := tracked_phase events s p (.abort p) tracked .checking rfl rfl Event.noConfusion
      inside
    unfold State.abort at taken
    cases phase : (s.procs p).phase with
    | setup | serving =>
      rw [phase] at taken check
      cases taken
      apply check <;> simp [Phase.starting]
    | _ =>
      rw [phase] at taken
      cases taken
  | crash q =>
    cases owner
    cases taken
    exact tracked_released _ s p

/-- A step of a process that does not hold the lock keeps what is at the path. -/
theorem bare_tracked (tracked : Tracked events s p) (bare : Bare (s.procs p))
    (owner : event.owner = some p) (taken : step s event = some s') :
    s'.path = s.path ∧ s'.listening = s.listening ∧ Tracked (events ++ [event]) s' p := by
  obtain ⟨same, rfl⟩ | ⟨same, -, -, rfl⟩ | rfl := bare_cases s s' p event bare owner taken
  · refine ⟨rfl, rfl, tracked_bare _ _ p (.inr ?_) fun _ => rfl⟩
    change (s.move p .opened).procs p = _
    rw [State.move, State.put_self, same]
  · have lock := tracked.lock (by rw [same]; exact Phase.noConfusion)
    have own : (s.move p .looking).procs p = { Process.new with phase := .looking } := by
      rw [State.move, State.put_self, same]
    refine ⟨rfl, rfl, ?_⟩
    constructor
    · exact fun _ => lock
    all_goals simp [own, Process.new, Phase.starting]
  · refine ⟨rfl, ?_, tracked_released _ s p⟩
    unfold State.release
    rcases bare with same | same <;> rw [same] <;> rfl

end

/-! ### What is left alone -/

structure Framed (s s' : State) (p : Nat) : Prop where
  others : ∀ q, q ≠ p → s'.procs q = s.procs q
  foreign : s'.foreign = s.foreign
  clients : s'.sharing = s.sharing ∧ s'.waiters = s.waiters ∧ s'.answers = s.answers
  lock : s.lockFile = true → s'.lockFile = true

section
variable (s s' : State) (p : Nat) (event : Event)

theorem framed_of (proc : Process) (procs : s'.procs = Function.update s.procs p proc)
    (foreign : s'.foreign = s.foreign)
    (clients : s'.sharing = s.sharing ∧ s'.waiters = s.waiters ∧ s'.answers = s.answers)
    (lock : s'.lockFile = s.lockFile ∨ s'.lockFile = true) : Framed s s' p where
  others q apart := by rw [procs, Function.update_of_ne apart]
  foreign := foreign
  clients := clients
  lock := fun made => lock.elim (fun same => same.trans made) id

theorem release_framed : Framed s (s.release p) p :=
  framed_of s _ p .new rfl rfl ⟨rfl, rfl, rfl⟩ (.inl rfl)

theorem put_framed (proc : Process) : Framed s (s.put p proc) p :=
  framed_of s _ p proc rfl rfl ⟨rfl, rfl, rfl⟩ (.inl rfl)

theorem unlink_framed (proc : Process) : Framed s (s.unlink.put p proc) p :=
  framed_of s _ p proc rfl rfl ⟨rfl, rfl, rfl⟩ (.inl rfl)

/-- The main thread takes what is at the path away after a stale socket, or at a stop. -/
theorem go_framed (taken : s.go p = some s') : Framed s s' p ∧
    (s'.path = s.path ∨ (s.procs p).phase = .unlinking ∨ (s.procs p).phase = .removing) := by
  have moved (phase : Phase) : Framed s (s.move p phase) p := put_framed s p _
  unfold State.go at taken
  cases phase : (s.procs p).phase with
  | idle =>
    rw [phase] at taken
    cases taken
    exact ⟨framed_of s _ p _ rfl rfl ⟨rfl, rfl, rfl⟩ (.inr rfl), .inl rfl⟩
  | opened =>
    rw [phase] at taken
    dsimp only at taken
    split_ifs at taken
    · cases taken
      exact ⟨framed_of s _ p _ rfl rfl ⟨rfl, rfl, rfl⟩ (.inl rfl), .inl rfl⟩
    · cases taken
      exact ⟨release_framed s p, .inl rfl⟩
  | looking =>
    rw [phase] at taken
    cases there : s.path with
    | socket | other | absent =>
      rw [there] at taken
      cases taken
      exact ⟨moved _, .inl there⟩
  | probing =>
    rw [phase] at taken
    cases there : s.path with
    | socket id =>
      rw [there] at taken
      dsimp only at taken
      split_ifs at taken
      all_goals
        cases taken
        exact ⟨moved _, .inl there⟩
    | other | absent =>
      rw [there] at taken
      cases taken
      exact ⟨moved _, .inl there⟩
  | identifying =>
    rw [phase] at taken
    cases there : s.path with
    | absent =>
      rw [there] at taken
      cases taken
      exact ⟨moved _, .inl there⟩
    | socket | other =>
      rw [there] at taken
      cases taken
      exact ⟨put_framed s p _, .inl there⟩
  | unlinking =>
    rw [phase] at taken
    dsimp only at taken
    split_ifs at taken
    · cases taken
      exact ⟨moved _, .inl rfl⟩
    · cases taken
      exact ⟨unlink_framed s p _, .inr (.inl rfl)⟩
  | binding | securing | serving | checking =>
    rw [phase] at taken
    dsimp only at taken
    split_ifs at taken
    all_goals
      cases taken
      exact ⟨moved _, .inl rfl⟩
  | setup =>
    rw [phase] at taken
    cases taken
    exact ⟨put_framed s p _, .inl rfl⟩
  | removing =>
    rw [phase] at taken
    cases taken
    exact ⟨unlink_framed s p _, .inr (.inr rfl)⟩
  | closing =>
    rw [phase] at taken
    cases taken
    exact ⟨framed_of s _ p _ rfl rfl ⟨rfl, rfl, rfl⟩ (.inl rfl), .inl rfl⟩
  | draining =>
    rw [phase] at taken
    dsimp only at taken
    split_ifs at taken
    cases taken
    exact ⟨release_framed s p, .inl rfl⟩

/-- A watcher takes the process's own socket away. -/
theorem watch_framed (taken : s.watch p = some s') :
    Framed s s' p ∧ (s'.path = s.path ∨ (s.procs p).watch = .removing) := by
  unfold State.watch at taken
  cases watch : (s.procs p).watch with
  | none | watching =>
    rw [watch] at taken
    cases taken
  | checking =>
    rw [watch] at taken
    dsimp only at taken
    split_ifs at taken
    all_goals
      cases taken
      exact ⟨put_framed s p _, .inl rfl⟩
  | removing =>
    rw [watch] at taken
    cases taken
    exact ⟨unlink_framed s p _, .inr rfl⟩
  | exiting =>
    rw [watch] at taken
    cases taken
    exact ⟨release_framed s p, .inl rfl⟩

def Takes (s : State) (event : Event) (p : Nat) : Prop :=
  event = .go p ∧ ((s.procs p).phase = .unlinking ∨ (s.procs p).phase = .removing) ∨
    event = .watch p ∧ (s.procs p).watch = .removing

theorem step_framed (owner : event.owner = some p) (taken : step s event = some s') :
    Framed s s' p ∧ (s'.path = s.path ∨ s.path = .absent ∨ Takes s event p) := by
  cases event with
  | await | grant | drop | tell | quit | leave | swap | listen | unlisten => cases owner
  | go q =>
    cases owner
    obtain ⟨framed, path⟩ := go_framed s s' p taken
    exact ⟨framed, path.imp_right fun takes => .inr (.inl ⟨rfl, takes⟩)⟩
  | watch q =>
    cases owner
    obtain ⟨framed, path⟩ := watch_framed s s' p taken
    exact ⟨framed, path.imp_right fun takes => .inr (.inr ⟨rfl, takes⟩)⟩
  | bind q id =>
    cases owner
    unfold step at taken
    dsimp only at taken
    split_ifs at taken with ready
    cases taken
    exact ⟨framed_of s _ p _ rfl rfl ⟨rfl, rfl, rfl⟩ (.inl rfl), .inr (.inl ready.2.1)⟩
  | stop q | signal q =>
    cases owner
    unfold step at taken
    dsimp only at taken
    split_ifs at taken
    all_goals
      cases taken
      exact ⟨put_framed s p _, .inl rfl⟩
  | fail q =>
    cases owner
    change s.fail p = some s' at taken
    unfold State.fail at taken
    split at taken
    · cases taken
      exact ⟨release_framed s p, .inl rfl⟩
    all_goals
      cases taken
      try exact ⟨put_framed s p _, .inl rfl⟩
  | abort q =>
    cases owner
    change s.abort p = some s' at taken
    unfold State.abort at taken
    split at taken
    all_goals
      cases taken
      try exact ⟨put_framed s p _, .inl rfl⟩
  | crash q =>
    cases owner
    cases taken
    exact ⟨release_framed s p, .inl rfl⟩

end

/-! ### Runs -/

section
variable (start : Entry) (foreign : Finset Nat) (events : List Event) (s s' : State)

theorem step_tracked (calm tidy : Prop) (event : Event) (inv : Inv start calm tidy s)
    (tracked : ∀ p, Tracked events s p) (taken : step s event = some s') (p : Nat) :
    Tracked (events ++ [event]) s' p := by
  cases owner : event.owner with
  | none =>
    have aside := step_aside s s' event owner taken
    apply tracked_aside events s s' p event (tracked p)
    · rw [owner]
      exact (Option.some_ne_none p).symm
    · rw [aside.procs]
    · rw [aside.lockFile]
      exact id
    · exact aside.path
    · rw [aside.listening]
      exact aside.foreign.imp_left (Finset.union_subset_union_right ·)
  | some q =>
    obtain ⟨framed, -⟩ := step_framed s s' q event owner taken
    by_cases same : p = q
    · rw [← same] at owner
      by_cases held : s.holder = some p
      · exact held_tracked events s s' p event (tracked p) (inv.holds p held) owner taken
      · exact (bare_tracked events s s' p event (tracked p) (inv.bare p held) owner taken).2.2
    · have kept := framed.others p same
      by_cases bare : Bare (s.procs p)
      · rw [← kept] at bare
        apply tracked_bare _ s' p bare
        rw [kept]
        exact fun busy => framed.lock ((tracked p).lock busy)
      · -- The other process has no lock, so it moves nothing here.
        have held : s.holder = some p := by
          by_contra free
          exact bare (inv.bare p free)
        have idle : Bare (s.procs q) := inv.bare q fun other =>
          same (Option.some.inj (held.symm.trans other))
        obtain ⟨path, listening, -⟩ := bare_tracked events s s' q event (tracked q) idle owner taken
        apply tracked_aside events s s' p event (tracked p)
        · rw [owner]
          exact fun own => same (Option.some.inj own).symm
        · exact kept
        · exact framed.lock
        · exact .inl path
        · rw [listening, framed.foreign]
          exact .inl subset_rfl

theorem run_tracked (reached : run step (initial start foreign) events = some s) (p : Nat) :
    Tracked events s p := by
  apply run_history step (initial start foreign) (fun events s => ∀ p, Tracked events s p)
  · intro p
    exact tracked_bare [] _ p (.inl rfl) fun busy => absurd rfl busy
  · intro events middle event next before tracked taken
    exact step_tracked start events middle next _ _ event (run_kept start foreign events middle before)
      tracked taken
  · exact reached

/-- Why a process takes a socket off the path: it is its own, or no one listens on it, unless
someone began to, or swapped what is there, after it looked. -/
inductive Removal (s : State) (event : Event) (p id : Nat) : Prop where
  | own (identity : (s.procs p).identity = some id)
  | stale (start : (s.procs p).identity = none) (silent : id ∉ s.listening ∪ s.foreign)
  | late (start : (s.procs p).identity = none) (heard : sinceLast event Event.listens events = true)
  | raced (swap : sinceLast event Event.swaps events = true)

theorem step_removed (event : Event) (id : Nat) (tracked : ∀ p, Tracked events s p)
    (taken : step s event = some s') (there : s.path = .socket id) (gone : s'.path ≠ .socket id)
    (kept : event.swaps = false) : ∃ p, event.owner = some p ∧ Removal events s event p id := by
  cases owner : event.owner with
  | none =>
    rcases (step_aside s s' event owner taken).path with same | swaps
    · exact absurd (same.trans there) gone
    · rw [kept] at swaps
      cases swaps
  | some p =>
    refine ⟨p, rfl, ?_⟩
    rcases (step_framed s s' p event owner taken).2 with same | empty |
      ⟨rfl, unlinking | removing⟩ | ⟨rfl, removing⟩
    · exact absurd (same.trans there) gone
    · rw [empty] at there
      cases there
    · have fresh := ((tracked p).starting (by rw [unlinking]; rfl)).1
      rcases (tracked p).stale unlinking id there with silent | heard | swap
      · exact .stale fresh silent
      · exact .late fresh heard
      · exact .raced swap
    · rcases (tracked p).main removing id there with own | swap
      · exact .own own
      · exact .raced swap
    · rcases (tracked p).watcher removing id there with own | swap
      · exact .own own
      · exact .raced swap

/-- A client that shares the lock has it open, and one that is past it, or was told that the daemon
stopped, saw a moment when no one held it. -/
structure Heard : Prop where
  shares : ∀ w ∈ s.sharing, s.waiters w = .opened
  told : ∀ w, s.waiters w = .unlocked ∨ s.waiters w = .released ∨ s.answers w = some true →
    ∃ m, Passed step (initial start foreign) events m ∧ m.waiters w ≠ .new ∧ m.holder = none

theorem heard_initial : Heard start foreign [] (initial start foreign) where
  shares w shared := absurd shared (Finset.notMem_empty w)
  told w := by
    rintro (never | never | never) <;> cases never

theorem free_unlocked (calm tidy : Prop) (inv : Inv start calm tidy s)
    (tracked : ∀ p, Tracked events s p) (lock : s.lockFile = false) : s.holder = none := by
  by_contra held
  obtain ⟨p, held⟩ := Option.ne_none_iff_exists'.1 held
  rw [(tracked p).lock (inv.holds p held).inside.1] at lock
  cases lock

theorem step_heard (event : Event) (before : run step (initial start foreign) events = some s)
    (heard : Heard start foreign events s) (taken : step s event = some s') :
    Heard start foreign (events ++ [event]) s' := by
  have inv := run_kept start foreign events s before
  have tracked := run_tracked start foreign events s before
  have after := (run_concat step (initial start foreign) s' events event).2 ⟨s, before, taken⟩
  have passed {m : State} := (passed_concat step (initial start foreign) s' m events event after).2
  have told (w : Nat) (past : s.waiters w = .unlocked ∨ s.waiters w = .released ∨
      s.answers w = some true) : ∃ m, Passed step (initial start foreign) (events ++ [event]) m ∧
        m.waiters w ≠ .new ∧ m.holder = none := by
    obtain ⟨m, through, seen⟩ := heard.told w past
    exact ⟨m, passed (.inl through), seen⟩
  cases owner : event.owner with
  | some p =>
    obtain ⟨sharing, waiters, answers⟩ := (step_framed s s' p event owner taken).1.clients
    constructor
    · rw [sharing, waiters]
      exact heard.shares
    · rw [waiters, answers]
      exact told
  | none =>
    -- A client that is told had its moment at an earlier step, of its own.
    cases event with
    | await w =>
      change s.await w = some s' at taken
      unfold State.await at taken
      rw [Option.ite_none_right_eq_some] at taken
      obtain ⟨fresh, same⟩ := taken
      cases same
      constructor
      · intro v shared
        have opened := heard.shares v shared
        have apart : v ≠ w := by
          rintro rfl
          rw [fresh] at opened
          cases opened
        exact (Function.update_of_ne apart _ _).trans opened
      · intro v past
        by_cases same : v = w
        · rw [same] at past ⊢
          dsimp only at past
          rw [Function.update_self] at past
          cases lock : s.lockFile with
          | true =>
            rw [lock] at past
            rcases past with never | never | answered
            · cases never
            · cases never
            · exact told w (.inr (.inr answered))
          | false =>
            refine ⟨_, passed (.inr rfl), ?_, free_unlocked start events s _ _ inv tracked lock⟩
            dsimp only
            rw [Function.update_self, lock]
            exact Waiter.noConfusion
        · apply told v
          dsimp only at past
          rw [Function.update_of_ne same] at past
          exact past
    | grant w =>
      unfold step at taken
      dsimp only at taken
      split_ifs at taken with granted
      cases taken
      constructor
      · intro v shared
        rcases Finset.mem_insert.1 shared with rfl | before
        · exact granted.1
        · exact heard.shares v before
      · exact told
    | drop w =>
      unfold step at taken
      dsimp only at taken
      split_ifs at taken with shared
      cases taken
      have opened := heard.shares w shared
      have free := inv.shared (Finset.ne_empty_of_mem shared)
      constructor
      · intro v kept
        obtain ⟨apart, shared⟩ := Finset.mem_erase.1 kept
        exact (Function.update_of_ne apart _ _).trans (heard.shares v shared)
      · intro v past
        by_cases same : v = w
        · rw [same]
          refine ⟨s, passed (.inl (passed_last step _ s events before)), ?_, free⟩
          rw [opened]
          exact Waiter.noConfusion
        · apply told v
          dsimp only [State.close] at past
          rw [Function.update_of_ne same] at past
          exact past
    | tell w =>
      unfold step at taken
      dsimp only at taken
      split_ifs at taken with ready
      cases taken
      constructor
      · exact heard.shares
      · intro v past
        by_cases same : v = w
        · rw [same]
          exact told w (ready.1.imp_right .inl)
        · apply told v
          dsimp only [State.answer] at past
          rw [Function.update_of_ne same] at past
          exact past
    | quit w =>
      unfold step at taken
      dsimp only at taken
      split_ifs at taken with ready
      cases taken
      constructor
      · exact heard.shares
      · intro v past
        by_cases same : v = w
        · rw [same] at past ⊢
          dsimp only [State.answer] at past
          rw [Function.update_self] at past
          rcases past with unlocked | released | never
          · exact told w (.inl unlocked)
          · exact told w (.inr (.inl released))
          · cases never
        · apply told v
          dsimp only [State.answer] at past
          rw [Function.update_of_ne same] at past
          exact past
    | leave w =>
      cases taken
      constructor
      · intro v kept
        obtain ⟨apart, shared⟩ := Finset.mem_erase.1 kept
        exact (Function.update_of_ne apart _ _).trans (heard.shares v shared)
      · intro v past
        apply told v
        by_cases same : v = w
        · rw [same] at past ⊢
          dsimp only [State.close] at past
          rw [Function.update_self] at past
          rcases past with never | never | answered
          · cases never
          · cases never
          · exact .inr (.inr answered)
        · dsimp only [State.close] at past
          rw [Function.update_of_ne same] at past
          exact past
    | swap entry | unlisten id =>
      cases taken
      exact ⟨heard.shares, told⟩
    | listen id =>
      unfold step at taken
      dsimp only at taken
      split_ifs at taken
      cases taken
      exact ⟨heard.shares, told⟩
    | _ => cases owner

theorem run_heard (reached : run step (initial start foreign) events = some s) :
    Heard start foreign events s := by
  apply run_history step (initial start foreign) (Heard start foreign)
  · exact heard_initial start foreign
  · intro events middle event next before heard taken
    exact step_heard start foreign events middle next event before heard taken
  · exact reached

/-- What holds whenever the daemons and their clients stand where they do: one daemon is past the
lock and listens, its socket is reached, and what is at the path is removed by whom it belongs to. -/
structure Alone : Prop where
  one : ∀ p q, ¬Bare (s.procs p) → ¬Bare (s.procs q) → p = q
  listens : ∀ p id, (s.procs p).listener = some id →
    s.holder = some p ∧ s.listening = {id} ∧ lastBind p events = some id
  stopped : s.sharing ≠ ∅ → ∀ p, Bare (s.procs p)
  told : ∀ w, s.answers w = some true →
    ∃ m, Passed step (initial start foreign) events m ∧ m.waiters w ≠ .new ∧ m.holder = none
  reachable : ∀ p id, (s.procs p).listener = some id → swapped p events = true ∨
    s.path = .socket id ∨
      s.path = .absent ∧ ((s.procs p).phase = .closing ∨ (s.procs p).watch = .exiting)
  recorded : ∀ p id, (s.procs p).identity = some id →
    lastBind p events = some id ∨ swapped p events = true
  removed : ∀ before event after m n id, events = before ++ event :: after →
    run step (initial start foreign) before = some m → step m event = some n →
      m.path = .socket id → n.path ≠ .socket id → event.swaps = false →
        ∃ p, event.owner = some p ∧ Removal before m event p id
  spared : (∀ event ∈ events, event.tidy = true) → start.isOther = true → s.path = start
  cleaned : (∀ event ∈ events, event.tidy = true) → (∀ event ∈ events, event.calm = true) →
    s.holder = none → s.path = start ∨ s.path = .absent

end

/-- However the starts, stops, signals, errors and crashes of any number of daemons interleave, one
of them at most is past the start lock and only it listens, and a client is told that the daemon
stopped only after a moment when none held the lock. Unless someone else swapped what is at the path,
the daemon's socket is reached there until it removes it, and what a daemon removes is its own or a
socket that no one listens on. -/
theorem started_alone (start : Entry) (foreign : Finset Nat) (events : List Event) (s : State)
    (reached : run step (initial start foreign) events = some s) :
    Alone start foreign events s := by
  have inv := run_kept start foreign events s reached
  have tracked := run_tracked start foreign events s reached
  have holder (p : Nat) (busy : ¬Bare (s.procs p)) : s.holder = some p := by
    by_contra free
    exact busy (inv.bare p free)
  exact {
    one := by
      intro p q busy busy'
      exact Option.some.inj ((holder p busy).symm.trans (holder q busy'))
    listens := by
      intro p id listener
      have held := holder p (by
        rintro (same | same)
        · rw [same] at listener
          cases listener
        · rw [same] at listener
          cases listener)
      refine ⟨held, ?_, (tracked p).listener id listener⟩
      rw [(inv.holds p held).listens, listener]
      rfl
    stopped := by
      intro shared p
      apply inv.bare
      rw [inv.shared shared]
      simp
    told := fun w answered => (run_heard start foreign events s reached).told w (.inr (.inr answered))
    reachable := fun p => (tracked p).reached
    recorded := fun p => (tracked p).own
    removed := by
      intro before event after m n id _ ran
      exact step_removed before m n event id (run_tracked start foreign before m ran)
    spared := by
      intro tidy other
      have left : Left start False s.path := by
        cases held : s.holder with
        | none => exact left_weaken start _ False s.path False.elim (inv.left tidy held)
        | some p => exact left_of_placed start _ s.path _ (inv.placed tidy p held)
      rcases left with same | ⟨plain, -⟩
      · exact same
      · rw [other] at plain
        cases plain
    cleaned := by
      intro tidy calm free
      rcases inv.left tidy free with same | ⟨-, gone | ⟨wild, -⟩⟩
      · exact .inl same
      · exact .inr gone
      · exact absurd calm wild }

/-- A client before any start, a start over a socket left behind while a second one finds the lock
taken, a stop, and a client that is told of it. -/
theorem started_alone_twice :
    ∃ s, run step (initial (.socket 3) {5}) [.await 0, .go 0, .go 1, .go 0, .tell 0, .go 0, .go 1,
        .go 0, .go 0, .bind 0 7, .go 0, .go 0, .go 0, .await 1, .stop 0, .go 0, .go 0, .go 0, .go 0,
        .go 0, .grant 1, .drop 1, .tell 1] = some s ∧
      Alone (.socket 3) {5} [.await 0, .go 0, .go 1, .go 0, .tell 0, .go 0, .go 1, .go 0, .go 0,
        .bind 0 7, .go 0, .go 0, .go 0, .await 1, .stop 0, .go 0, .go 0, .go 0, .go 0, .go 0,
        .grant 1, .drop 1, .tell 1] s ∧ s.answers 1 = some true ∧ s.path = .absent :=
  ⟨_, rfl, started_alone (.socket 3) {5} _ _ rfl, rfl, rfl⟩

end DeepDiffForge.Daemon.Startup
