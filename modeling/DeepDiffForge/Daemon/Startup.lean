import DeepDiffForge.Lib.Machine
import Mathlib.Data.Finset.Option

/-! Daemons that start, serve and stop at one socket path under one start lock, among clients that
wait for a stop and others that put files there and listen on sockets of their own. Each event is
one operation on the file system, or the end of a process. -/

namespace DeepDiffForge.Daemon.Startup
open Machine

/-- What is at the socket path, by its device and inode. -/
inductive Entry where
  | absent
  | socket (id : Nat)
  | other (id : Nat)
  deriving DecidableEq, Repr

/-- Where the main thread of a process stands: the next operation of `bind_locked` and of
`serve_bound`. -/
inductive Phase where
  | idle | opened
  | looking | probing | unlinking | binding | securing | identifying | setup
  | serving | checking | removing | closing | draining
  deriving DecidableEq, Repr

inductive Watch where
  | none | watching | checking | removing | exiting
  deriving DecidableEq, Repr

structure Process where
  phase : Phase
  listener : Option Nat
  identity : Option Nat
  watch : Watch
  running : Bool
  deriving DecidableEq

def Process.new : Process := ⟨.idle, none, none, .none, false⟩

/-- Where a client stands that waits for a stop: it found no lock file, or has it open, or has closed
it again, or is gone. -/
inductive Waiter where
  | new | unlocked | opened | released | gone
  deriving DecidableEq, Repr

/-- The lock file with its exclusive holder and the clients that share it, where each client stands
and what it was told, what is at the socket path, the sockets that daemons and others listen on,
and the processes. -/
structure State where
  lockFile : Bool
  holder : Option Nat
  sharing : Finset Nat
  waiters : Nat → Waiter
  answers : Nat → Option Bool
  path : Entry
  listening : Finset Nat
  foreign : Finset Nat
  procs : Nat → Process

def initial (path : Entry) (foreign : Finset Nat) : State :=
  ⟨false, none, ∅, fun _ => .new, fun _ => none, path, ∅, foreign, fun _ => .new⟩

/-- The bind of a start is given a socket no one listens on. A start can fail at each of its steps,
a serving process can abort. A client opens the lock, is granted its share, drops it, is told that
the daemon stopped, gives up or leaves. Someone else can swap what is at the path, and begin and
end to listen on a socket. -/
inductive Event where
  | go (p : Nat)
  | bind (p id : Nat)
  | stop (p : Nat)
  | signal (p : Nat)
  | watch (p : Nat)
  | fail (p : Nat)
  | abort (p : Nat)
  | crash (p : Nat)
  | await (w : Nat)
  | grant (w : Nat)
  | drop (w : Nat)
  | tell (w : Nat)
  | quit (w : Nat)
  | leave (w : Nat)
  | swap (entry : Entry)
  | listen (id : Nat)
  | unlisten (id : Nat)
  deriving DecidableEq

def State.put (s : State) (p : Nat) (proc : Process) : State :=
  { s with procs := Function.update s.procs p proc }

@[simp] theorem State.put_self (s : State) (p : Nat) (proc : Process) :
    (s.put p proc).procs p = proc := by
  simp [State.put]

def State.move (s : State) (p : Nat) (phase : Phase) : State :=
  s.put p { s.procs p with phase }

/-- The end of a process, which closes its files. -/
def State.release (s : State) (p : Nat) : State where
  lockFile := s.lockFile
  holder := if s.holder = some p then none else s.holder
  sharing := s.sharing
  waiters := s.waiters
  answers := s.answers
  path := s.path
  listening := (s.procs p).listener.elim s.listening s.listening.erase
  foreign := s.foreign
  procs := Function.update s.procs p .new

def Entry.isOwned (identity : Option Nat) : Entry → Bool
  | .socket id => identity = some id
  | _ => false

/-- `remove_file`, of whatever is at the path by now. -/
def State.unlink (s : State) : State := { s with path := .absent }

/-- The listener is closed, and the answers in progress go on. -/
def State.hangUp (s : State) (p : Nat) : State :=
  { s.put p { s.procs p with phase := .draining, listener := none } with
    listening := (s.procs p).listener.elim s.listening s.listening.erase }

def State.go (s : State) (p : Nat) : Option State :=
  match (s.procs p).phase with
  | .idle => some { s.move p .opened with lockFile := true }
  | .opened =>
      if s.holder = none ∧ s.sharing = ∅ then some { s.move p .looking with holder := some p }
      else some (s.release p)
  | .looking =>
      match s.path with
      | .socket _ => some (s.move p .probing)
      | .other _ => some (s.move p .closing)
      | .absent => some (s.move p .binding)
  | .probing =>
      match s.path with
      | .socket id =>
          if id ∈ s.listening ∪ s.foreign then some (s.move p .closing)
          else some (s.move p .unlinking)
      | .other _ => some (s.move p .unlinking)
      | .absent => some (s.move p .closing)
  | .unlinking =>
      if s.path = .absent then some (s.move p .closing) else some (s.unlink.move p .binding)
  | .binding => if s.path = .absent then none else some (s.move p .closing)
  | .securing =>
      if s.path = .absent then some (s.move p .closing) else some (s.move p .identifying)
  | .identifying =>
      match s.path with
      | .absent => some (s.move p .closing)
      | .socket id | .other id =>
          some (s.put p { s.procs p with phase := .setup, identity := some id })
  | .setup =>
      some (s.put p { s.procs p with phase := .serving, watch := .watching, running := true })
  | .serving => if (s.procs p).running then none else some (s.move p .checking)
  | .checking =>
      if s.path.isOwned (s.procs p).identity then some (s.move p .removing)
      else some (s.move p .closing)
  | .removing => some (s.unlink.move p .closing)
  | .closing => some (s.hangUp p)
  | .draining =>
      -- The watcher is joined before the lock is released.
      if (s.procs p).watch = .none ∨ (s.procs p).watch = .watching then some (s.release p) else none

/-- The next operation of a watcher that a second signal has come to. -/
def State.watch (s : State) (p : Nat) : Option State :=
  match (s.procs p).watch with
  | .checking =>
      if s.path.isOwned (s.procs p).identity then
        some (s.put p { s.procs p with watch := .removing })
      else some (s.put p { s.procs p with watch := .exiting })
  | .removing => some (s.unlink.put p { s.procs p with watch := .exiting })
  | .exiting => some (s.release p)
  | _ => none

/-- An error of a start, whose listener is dropped before its lock. -/
def State.fail (s : State) (p : Nat) : Option State :=
  match (s.procs p).phase with
  | .opened => some (s.release p)
  | .looking | .probing | .unlinking | .binding | .securing | .identifying =>
      some (s.move p .closing)
  | _ => none

/-- An error of the setup or of the accept loop: the socket is removed as at a stop. -/
def State.abort (s : State) (p : Nat) : Option State :=
  match (s.procs p).phase with
  | .setup | .serving => some (s.move p .checking)
  | _ => none

def State.await (s : State) (w : Nat) : Option State :=
  if s.waiters w = .new then
    some { s with waiters := Function.update s.waiters w (if s.lockFile then .opened else .unlocked) }
  else none

def State.answer (s : State) (w : Nat) (stopped : Bool) : State :=
  { s with answers := Function.update s.answers w (some stopped) }

def State.close (s : State) (w : Nat) (waiter : Waiter) : State :=
  { s with sharing := s.sharing.erase w, waiters := Function.update s.waiters w waiter }

def step (s : State) : Event → Option State
  | .go p => s.go p
  | .bind p id =>
      if (s.procs p).phase = .binding ∧ s.path = .absent ∧ id ∉ s.listening ∪ s.foreign then
        some { s.put p { s.procs p with phase := .securing, listener := some id } with
          path := .socket id
          listening := insert id s.listening }
      else none
  | .stop p =>
      if (s.procs p).watch = .none then none
      else some (s.put p { s.procs p with running := false })
  | .signal p =>
      if (s.procs p).watch ≠ .watching then none
      else if (s.procs p).running then some (s.put p { s.procs p with running := false })
      else some (s.put p { s.procs p with watch := .checking })
  | .watch p => s.watch p
  | .fail p => s.fail p
  | .abort p => s.abort p
  | .crash p => some (s.release p)
  | .await w => s.await w
  | .grant w =>
      if s.waiters w = .opened ∧ s.holder = none then some { s with sharing := insert w s.sharing }
      else none
  | .drop w => if w ∈ s.sharing then some (s.close w .released) else none
  | .tell w =>
      if (s.waiters w = .unlocked ∨ s.waiters w = .released) ∧ s.answers w = none then
        some (s.answer w true)
      else none
  | .quit w =>
      if (s.waiters w = .opened ∨ s.waiters w = .released) ∧ s.answers w = none then
        some (s.answer w false)
      else none
  | .leave w => some (s.close w .gone)
  | .swap entry => some { s with path := entry }
  | .listen id =>
      if id ∉ s.listening then some { s with foreign := insert id s.foreign } else none
  | .unlisten id => some { s with foreign := s.foreign.erase id }

/-! ### One process at a time -/

def Bare (proc : Process) : Prop := proc = .new ∨ proc = { Process.new with phase := .opened }

def Phase.early : Phase → Bool
  | .looking | .probing | .unlinking | .binding => true
  | _ => false

structure Holds (proc : Process) (listening : Finset Nat) : Prop where
  inside : proc.phase ≠ .idle ∧ proc.phase ≠ .opened
  early : proc.phase.early = true → proc.listener = none
  listens : listening = proc.listener.toFinset

def Entry.isOther : Entry → Bool
  | .other _ => true
  | _ => false

def Entry.isSocket : Entry → Bool
  | .socket _ => true
  | _ => false

/-- What is at the path while no process has a socket there: what was there first, or nothing, or
what a process left that did not come to its end. -/
def Left (start : Entry) (calm : Prop) (path : Entry) : Prop :=
  path = start ∨ start.isOther = false ∧ (path = .absent ∨ ¬calm ∧ path.isSocket = true)

def Owned (start path : Entry) (proc : Process) : Prop :=
  start.isOther = false ∧ ∃ id, proc.listener = some id ∧ proc.identity = some id ∧
    (path = .socket id ∧ proc.watch ≠ .exiting ∨ path = .absent ∧ proc.watch = .exiting)

/-- What is at the path while a process holds the lock and no one else touches it. -/
def Placed (start : Entry) (calm : Prop) (path : Entry) (proc : Process) : Prop :=
  match proc.phase with
  | .idle | .opened => False
  | .looking => Left start calm path ∧ proc.watch = .none
  | .probing | .unlinking => Left start calm path ∧ path.isSocket = true ∧ proc.watch = .none
  | .binding => path = .absent ∧ start.isOther = false ∧ proc.watch = .none
  | .securing | .identifying =>
      start.isOther = false ∧ (∃ id, proc.listener = some id ∧ path = .socket id) ∧
        proc.watch = .none
  | .setup => Owned start path proc ∧ proc.watch = .none
  | .serving | .checking => Owned start path proc
  | .removing =>
      start.isOther = false ∧ (path = .absent ∨
        ∃ id, proc.identity = some id ∧ path = .socket id ∧ proc.watch ≠ .exiting)
  | .closing | .draining =>
      proc.watch = .none ∧ Left start calm path ∨ path = .absent ∧ start.isOther = false

/-- At most one process is past the lock, and what it keeps at the path. -/
structure Inv (start : Entry) (calm tidy : Prop) (s : State) : Prop where
  bare : ∀ p, s.holder ≠ some p → Bare (s.procs p)
  holds : ∀ p, s.holder = some p → Holds (s.procs p) s.listening
  placed : tidy → ∀ p, s.holder = some p → Placed start calm s.path (s.procs p)
  silent : s.holder = none → s.listening = ∅
  left : tidy → s.holder = none → Left start calm s.path
  shared : s.sharing ≠ ∅ → s.holder = none

section
variable (start : Entry) (calm calm' tidy tidy' : Prop) (path : Entry) (s s' : State) (p : Nat)

theorem inv_initial (foreign : Finset Nat) : Inv start calm tidy (initial start foreign) where
  bare p _ := .inl rfl
  holds p held := by cases held
  placed _ p held := by cases held
  silent _ := rfl
  left _ _ := .inl rfl
  shared present := absurd rfl present

theorem left_weaken (less : calm' → calm) (left : Left start calm path) :
    Left start calm' path := by
  rcases left with same | ⟨plain, absent | ⟨wild, socket⟩⟩
  · exact .inl same
  · exact .inr ⟨plain, .inl absent⟩
  · exact .inr ⟨plain, .inr ⟨fun now => wild (less now), socket⟩⟩

theorem placed_weaken (proc : Process) (less : calm' → calm)
    (placed : Placed start calm path proc) : Placed start calm' path proc := by
  have weak := left_weaken start calm calm' path less
  unfold Placed at placed ⊢
  cases phase : proc.phase with
  | looking | probing | unlinking =>
    rw [phase] at placed
    exact ⟨weak placed.1, placed.2⟩
  | closing | draining =>
    rw [phase] at placed
    exact placed.imp (fun bare => ⟨bare.1, weak bare.2⟩) id
  | _ =>
    rw [phase] at placed
    exact placed

theorem inv_weaken (less : calm' → calm) (fewer : tidy' → tidy) (inv : Inv start calm tidy s) :
    Inv start calm' tidy' s where
  bare := inv.bare
  holds := inv.holds
  placed now p held := placed_weaken start calm calm' s.path _ less (inv.placed (fewer now) p held)
  silent := inv.silent
  left now free := left_weaken start calm calm' s.path less (inv.left (fewer now) free)
  shared := inv.shared

/-- The path while a process is gone without its end: no file of another kind is lost. -/
theorem left_of_placed (proc : Process) (placed : Placed start calm path proc) :
    Left start False path := by
  unfold Placed at placed
  cases phase : proc.phase with
  | idle | opened =>
    rw [phase] at placed
    exact placed.elim
  | looking | probing | unlinking =>
    rw [phase] at placed
    exact left_weaken start calm False path False.elim placed.1
  | binding =>
    rw [phase] at placed
    exact .inr ⟨placed.2.1, .inl placed.1⟩
  | securing | identifying =>
    rw [phase] at placed
    obtain ⟨plain, ⟨id, -, there⟩, -⟩ := placed
    exact .inr ⟨plain, .inr ⟨not_false, by rw [there]; rfl⟩⟩
  | setup =>
    rw [phase] at placed
    obtain ⟨⟨plain, id, -, -, there | there⟩, -⟩ := placed
    · exact .inr ⟨plain, .inr ⟨not_false, by rw [there.1]; rfl⟩⟩
    · exact .inr ⟨plain, .inl there.1⟩
  | serving | checking =>
    rw [phase] at placed
    obtain ⟨plain, id, -, -, there | there⟩ := placed
    · exact .inr ⟨plain, .inr ⟨not_false, by rw [there.1]; rfl⟩⟩
    · exact .inr ⟨plain, .inl there.1⟩
  | removing =>
    rw [phase] at placed
    obtain ⟨plain, absent | ⟨id, -, there, -⟩⟩ := placed
    · exact .inr ⟨plain, .inl absent⟩
    · exact .inr ⟨plain, .inr ⟨not_false, by rw [there]; rfl⟩⟩
  | closing | draining =>
    rw [phase] at placed
    rcases placed with ⟨-, left⟩ | ⟨absent, plain⟩
    · exact left_weaken start calm False path False.elim left
    · exact .inr ⟨plain, .inl absent⟩

/-- A step of the holder that keeps the lock. -/
theorem inv_held (inv : Inv start calm tidy s) (held : s.holder = some p)
    (same : s'.holder = some p) (others : ∀ q, q ≠ p → s'.procs q = s.procs q)
    (shared : s'.sharing = s.sharing) (holds : Holds (s'.procs p) s'.listening)
    (placed : tidy → Placed start calm s'.path (s'.procs p)) : Inv start calm tidy s' where
  bare q free := by
    have apart : q ≠ p := by
      rintro rfl
      exact free same
    rw [others q apart]
    apply inv.bare q
    rw [held]
    exact fun eq => apart (Option.some.inj eq).symm
  holds q held' := by
    obtain rfl := Option.some.inj (same.symm.trans held')
    exact holds
  placed now q held' := by
    obtain rfl := Option.some.inj (same.symm.trans held')
    exact placed now
  silent free := by
    rw [same] at free
    cases free
  left _ free := by
    rw [same] at free
    cases free
  shared present := by
    rw [shared] at present
    have free := inv.shared present
    rw [held] at free
    cases free

theorem inv_released (inv : Inv start calm tidy s) (held : s.holder = some p)
    (left : tidy' → Left start calm' s.path) : Inv start calm' tidy' (s.release p) where
  bare q _ := by
    by_cases same : q = p
    · rw [same]
      exact .inl (Function.update_self p _ _)
    · have bare := inv.bare q (by rw [held]; exact fun eq => same (Option.some.inj eq).symm)
      change Bare (Function.update s.procs p .new q)
      rw [Function.update_of_ne same]
      exact bare
  holds q held' := by
    rw [State.release, if_pos held] at held'
    cases held'
  placed _ q held' := by
    rw [State.release, if_pos held] at held'
    cases held'
  silent _ := by
    have listens := (inv.holds p held).listens
    unfold State.release
    dsimp only
    rw [listens]
    cases (s.procs p).listener with
    | none => rfl
    | some id =>
      show ({id} : Finset Nat).erase id = ∅
      rw [Finset.erase_singleton]
  left now _ := left now
  shared _ := by
    rw [State.release, if_pos held]

/-- A step of a process without the lock. -/
theorem inv_bare (inv : Inv start calm tidy s) (free : s.holder ≠ some p)
    (same : s'.holder = s.holder) (others : ∀ q, q ≠ p → s'.procs q = s.procs q)
    (shared : s'.sharing = s.sharing) (path : s'.path = s.path)
    (listening : s'.listening = s.listening) (bare : Bare (s'.procs p)) :
    Inv start calm tidy s' where
  bare q free' := by
    by_cases eq : q = p
    · rw [eq]
      exact bare
    · rw [others q eq]
      exact inv.bare q (same ▸ free')
  holds q held := by
    rw [same] at held
    have eq : q ≠ p := by
      rintro rfl
      exact free held
    rw [others q eq, listening]
    exact inv.holds q held
  placed now q held := by
    rw [same] at held
    have eq : q ≠ p := by
      rintro rfl
      exact free held
    rw [others q eq, path]
    exact inv.placed now q held
  silent absent := listening.trans (inv.silent (same.symm.trans absent))
  left now absent := by
    rw [path]
    exact inv.left now (same.symm.trans absent)
  shared present := by
    rw [shared] at present
    exact same.trans (inv.shared present)

theorem inv_moved (inv : Inv start calm tidy s) (held : s.holder = some p) (proc : Process)
    (inside : proc.phase ≠ .idle ∧ proc.phase ≠ .opened)
    (early : proc.phase.early = true → proc.listener = none)
    (listener : proc.listener = (s.procs p).listener)
    (placed : tidy → Placed start calm s.path (s.procs p) → Placed start calm s.path proc) :
    Inv start calm tidy (s.put p proc) := by
  have own := State.put_self s p proc
  refine inv_held start calm tidy s _ p inv held held
    (fun q apart => Function.update_of_ne apart _ _) rfl ?_ ?_
  · rw [own]
    exact ⟨inside, early, by rw [listener]; exact (inv.holds p held).listens⟩
  · intro now
    rw [own]
    exact placed now (inv.placed now p held)

theorem inv_unlinked (inv : Inv start calm tidy s) (held : s.holder = some p) (proc : Process)
    (inside : proc.phase ≠ .idle ∧ proc.phase ≠ .opened)
    (early : proc.phase.early = true → proc.listener = none)
    (listener : proc.listener = (s.procs p).listener)
    (placed : tidy → Placed start calm s.path (s.procs p) → Placed start calm .absent proc) :
    Inv start calm tidy (s.unlink.put p proc) := by
  have own := State.put_self s.unlink p proc
  refine inv_held start calm tidy s _ p inv held held
    (fun q apart => Function.update_of_ne apart _ _) rfl ?_ ?_
  · rw [own]
    exact ⟨inside, early, by rw [listener]; exact (inv.holds p held).listens⟩
  · intro now
    rw [own]
    exact placed now (inv.placed now p held)

theorem isOwned_socket (identity : Option Nat) :
    path.isOwned identity = true ↔ ∃ id, path = .socket id ∧ identity = some id := by
  cases path with
  | socket id =>
    change decide (identity = some id) = true ↔ _
    rw [decide_eq_true_iff]
    constructor
    · intro same
      exact ⟨id, rfl, same⟩
    · rintro ⟨_, same, own⟩
      cases same
      exact own
  | absent | other =>
    constructor
    · intro never
      cases never
    · rintro ⟨_, same, -⟩
      cases same

/-- The holder's next operation before its bind. -/
theorem go_early (inv : Inv start calm tidy s) (held : s.holder = some p)
    (early : (s.procs p).phase.early = true) (taken : s.go p = some s') :
    Inv start calm tidy s' := by
  have missing := (inv.holds p held).early early
  have placed := fun now => inv.placed now p held
  unfold State.go at taken
  unfold Placed at placed
  cases phase : (s.procs p).phase with
  | looking =>
    rw [phase] at taken placed
    cases there : s.path with
    | socket id =>
      rw [there] at taken placed
      cases taken
      refine inv_moved start calm tidy s p inv held _ (by simp) (fun _ => missing) rfl ?_
      intro now _
      rw [there]
      exact ⟨(placed now).1, rfl, (placed now).2⟩
    | other id =>
      rw [there] at taken placed
      cases taken
      refine inv_moved start calm tidy s p inv held _ (by simp) (fun _ => missing) rfl ?_
      intro now _
      rw [there]
      exact .inl ⟨(placed now).2, (placed now).1⟩
    | absent =>
      rw [there] at taken placed
      cases taken
      refine inv_moved start calm tidy s p inv held _ (by simp) (fun _ => missing) rfl ?_
      intro now _
      rw [there]
      refine ⟨rfl, ?_, (placed now).2⟩
      rcases (placed now).1 with same | left
      · rw [← same]
        rfl
      · exact left.1
  | probing =>
    rw [phase] at taken placed
    cases there : s.path with
    | socket id =>
      rw [there] at taken placed
      dsimp only at taken
      split_ifs at taken with live
      · cases taken
        refine inv_moved start calm tidy s p inv held _ (by simp) (fun _ => missing) rfl ?_
        intro now _
        rw [there]
        exact .inl ⟨(placed now).2.2, (placed now).1⟩
      · cases taken
        refine inv_moved start calm tidy s p inv held _ (by simp) (fun _ => missing) rfl ?_
        intro now _
        rw [there]
        exact placed now
    | other id =>
      rw [there] at taken placed
      cases taken
      refine inv_moved start calm tidy s p inv held _ (by simp) (fun _ => missing) rfl ?_
      intro now _
      rw [there]
      exact placed now
    | absent =>
      rw [there] at taken placed
      cases taken
      refine inv_moved start calm tidy s p inv held _ (by simp) (fun _ => missing) rfl ?_
      intro now _
      rw [there]
      exact .inl ⟨(placed now).2.2, (placed now).1⟩
  | unlinking =>
    rw [phase] at taken placed
    dsimp only at taken placed
    split_ifs at taken with gone
    · cases taken
      refine inv_moved start calm tidy s p inv held _ (by simp) (fun _ => missing) rfl ?_
      intro now _
      exact .inl ⟨(placed now).2.2, (placed now).1⟩
    · cases taken
      refine inv_unlinked start calm tidy s p inv held _ (by simp) (fun _ => missing) rfl ?_
      intro now _
      obtain ⟨left, socket, quiet⟩ := placed now
      refine ⟨rfl, ?_, quiet⟩
      rcases left with same | left
      · rw [← same]
        cases there : s.path with
        | socket id => rfl
        | absent => rfl
        | other id =>
          rw [there] at socket
          cases socket
      · exact left.1
  | binding =>
    rw [phase] at taken placed
    dsimp only at taken placed
    split_ifs at taken with free
    cases taken
    refine inv_moved start calm tidy s p inv held _ (by simp) (fun _ => missing) rfl ?_
    intro now _
    exact absurd (placed now).1 free
  | _ =>
    rw [phase] at early
    cases early

/-- The holder's next operation after its bind. -/
theorem go_late (inv : Inv start calm tidy s) (held : s.holder = some p)
    (late : (s.procs p).phase.early = false) (taken : s.go p = some s') :
    Inv start calm tidy s' := by
  have holds := inv.holds p held
  have placed := fun now => inv.placed now p held
  unfold State.go at taken
  unfold Placed at placed
  cases phase : (s.procs p).phase with
  | idle => exact absurd phase holds.inside.1
  | opened => exact absurd phase holds.inside.2
  | looking | probing | unlinking | binding =>
    rw [phase] at late
    cases late
  | securing =>
    rw [phase] at taken placed
    dsimp only at taken placed
    split_ifs at taken with gone
    · cases taken
      refine inv_moved start calm tidy s p inv held _ (by simp) (fun never => by cases never) rfl ?_
      intro now _
      exact .inr ⟨gone, (placed now).1⟩
    · cases taken
      refine inv_moved start calm tidy s p inv held _ (by simp) (fun never => by cases never) rfl ?_
      intro now _
      exact placed now
  | identifying =>
    rw [phase] at taken placed
    cases there : s.path with
    | absent =>
      rw [there] at taken placed
      cases taken
      refine inv_moved start calm tidy s p inv held _ (by simp) (fun never => by cases never) rfl ?_
      intro now _
      rw [there]
      exact .inr ⟨rfl, (placed now).1⟩
    | socket id =>
      rw [there] at taken placed
      cases taken
      refine inv_moved start calm tidy s p inv held _ (by simp) (fun never => by cases never) rfl ?_
      intro now _
      obtain ⟨plain, ⟨own, listener, same⟩, quiet⟩ := placed now
      cases same
      rw [there]
      refine ⟨⟨plain, id, listener, rfl, .inl ⟨rfl, ?_⟩⟩, quiet⟩
      intro exiting
      change (s.procs p).watch = .exiting at exiting
      rw [quiet] at exiting
      cases exiting
    | other id =>
      rw [there] at taken placed
      cases taken
      refine inv_moved start calm tidy s p inv held _ (by simp) (fun never => by cases never) rfl ?_
      intro now _
      obtain ⟨-, ⟨own, -, same⟩, -⟩ := placed now
      cases same
  | setup =>
    rw [phase] at taken placed
    cases taken
    refine inv_moved start calm tidy s p inv held _ (by simp) (fun never => by cases never) rfl ?_
    intro now _
    obtain ⟨⟨plain, id, listener, identity, there | there⟩, quiet⟩ := placed now
    · exact ⟨plain, id, listener, identity, .inl ⟨there.1, Watch.noConfusion⟩⟩
    · rw [quiet] at there
      cases there.2
  | serving =>
    rw [phase] at taken placed
    dsimp only at taken placed
    split_ifs at taken with running
    cases taken
    refine inv_moved start calm tidy s p inv held _ (by simp) (fun never => by cases never) rfl ?_
    intro now _
    exact placed now
  | checking =>
    rw [phase] at taken placed
    dsimp only at taken placed
    split_ifs at taken with owned
    · cases taken
      refine inv_moved start calm tidy s p inv held _ (by simp) (fun never => by cases never) rfl ?_
      intro now _
      obtain ⟨plain, id, -, identity, there | there⟩ := placed now
      · exact ⟨plain, .inr ⟨id, identity, there⟩⟩
      · exact ⟨plain, .inl there.1⟩
    · cases taken
      refine inv_moved start calm tidy s p inv held _ (by simp) (fun never => by cases never) rfl ?_
      intro now _
      obtain ⟨plain, id, -, identity, there | there⟩ := placed now
      · exact absurd ((isOwned_socket s.path _).2 ⟨id, there.1, identity⟩) owned
      · exact .inr ⟨there.1, plain⟩
  | removing =>
    rw [phase] at taken placed
    cases taken
    refine inv_unlinked start calm tidy s p inv held _ (by simp) (fun never => by cases never) rfl ?_
    intro now _
    exact .inr ⟨rfl, (placed now).1⟩
  | closing =>
    rw [phase] at taken placed
    cases taken
    have own : (s.hangUp p).procs p = { s.procs p with phase := .draining, listener := none } :=
      State.put_self s p _
    refine inv_held start calm tidy s _ p inv held held
      (fun q apart => Function.update_of_ne apart _ _) rfl ?_ ?_
    · rw [own]
      refine ⟨by simp, fun _ => rfl, ?_⟩
      change (s.procs p).listener.elim s.listening s.listening.erase = ∅
      rw [holds.listens]
      cases (s.procs p).listener with
      | none => rfl
      | some id => exact Finset.erase_singleton id
    · intro now
      rw [own]
      exact placed now
  | draining =>
    rw [phase] at taken placed
    dsimp only at taken placed
    split_ifs at taken with joined
    cases taken
    apply inv_released start calm calm tidy tidy s p inv held
    intro now
    rcases placed now with ⟨-, left⟩ | ⟨gone, plain⟩
    · exact left
    · exact .inr ⟨plain, .inl gone⟩

theorem go_kept (inv : Inv start calm tidy s) (held : s.holder = some p)
    (taken : s.go p = some s') : Inv start calm tidy s' := by
  cases early : (s.procs p).phase.early with
  | true => exact go_early start calm tidy s s' p inv held early taken
  | false => exact go_late start calm tidy s s' p inv held early taken

theorem release_bare (inv : Inv start calm tidy s) (free : s.holder ≠ some p) :
    Inv start calm tidy (s.release p) := by
  refine inv_bare start calm tidy s _ p inv free (if_neg free)
    (fun q apart => Function.update_of_ne apart _ _) rfl rfl ?_ ?_
  · have absent : (s.procs p).listener = none := by
      rcases inv.bare p free with same | same
      · rw [same]
        rfl
      · rw [same]
        rfl
    rw [State.release, absent]
    rfl
  · left
    simp [State.release]

theorem inv_locked (inv : Inv start calm tidy s) (absent : s.holder = none)
    (unshared : s.sharing = ∅) (same : s.procs p = { Process.new with phase := .opened }) :
    Inv start calm tidy { s.move p .looking with holder := some p } := by
  have own : (s.move p .looking).procs p = { Process.new with phase := .looking } := by
    rw [State.move, State.put_self, same]
  exact {
    bare := by
      intro q other
      have apart : q ≠ p := by
        rintro rfl
        exact other rfl
      have others : (s.move p .looking).procs q = s.procs q :=
        Function.update_of_ne apart _ _
      change Bare ((s.move p .looking).procs q)
      rw [others]
      exact inv.bare q (by simp [absent])
    holds := by
      rintro q held
      obtain rfl := Option.some.inj held
      change Holds ((s.move p .looking).procs p) s.listening
      rw [own]
      exact ⟨by decide, fun _ => rfl, inv.silent absent⟩
    placed := by
      rintro now q held
      obtain rfl := Option.some.inj held
      change Placed start calm s.path ((s.move p .looking).procs p)
      rw [own]
      exact ⟨inv.left now absent, rfl⟩
    silent := by
      intro never
      cases never
    left := by
      intro _ never
      cases never
    shared := by
      intro present
      exact absurd unshared present }

theorem placed_woken (proc : Process) (placed : Placed start calm path proc)
    (woken : proc.watch ≠ .none) : start.isOther = false ∧
      ((proc.phase = .serving ∨ proc.phase = .checking) ∧ Owned start path proc ∨
        proc.phase = .removing ∧ (path = .absent ∨
          ∃ id, proc.identity = some id ∧ path = .socket id ∧ proc.watch ≠ .exiting) ∨
        (proc.phase = .closing ∨ proc.phase = .draining) ∧ path = .absent) := by
  unfold Placed at placed
  cases phase : proc.phase with
  | idle | opened =>
    rw [phase] at placed
    exact placed.elim
  | looking | setup =>
    rw [phase] at placed
    exact absurd placed.2 woken
  | probing | unlinking | binding | securing | identifying =>
    rw [phase] at placed
    exact absurd placed.2.2 woken
  | serving =>
    rw [phase] at placed
    exact ⟨placed.1, .inl ⟨.inl rfl, placed⟩⟩
  | checking =>
    rw [phase] at placed
    exact ⟨placed.1, .inl ⟨.inr rfl, placed⟩⟩
  | removing =>
    rw [phase] at placed
    exact ⟨placed.1, .inr (.inl ⟨rfl, placed.2⟩)⟩
  | closing =>
    rw [phase] at placed
    rcases placed with ⟨quiet, -⟩ | ⟨gone, plain⟩
    · exact absurd quiet woken
    · exact ⟨plain, .inr (.inr ⟨.inl rfl, gone⟩)⟩
  | draining =>
    rw [phase] at placed
    rcases placed with ⟨quiet, -⟩ | ⟨gone, plain⟩
    · exact absurd quiet woken
    · exact ⟨plain, .inr (.inr ⟨.inr rfl, gone⟩)⟩

/-- A watcher that goes on without an end of the process. -/
theorem placed_watch (proc : Process) (placed : Placed start calm path proc)
    (woken : proc.watch ≠ .none) (live : proc.watch ≠ .exiting) (watch : Watch)
    (live' : watch ≠ .exiting) : Placed start calm path { proc with watch } := by
  obtain ⟨plain, ⟨served, -, id, listener, identity, there⟩ | ⟨removed, there⟩ | ⟨closed, gone⟩⟩ :=
    placed_woken start calm path proc placed woken
  · have owned : Owned start path { proc with watch } := by
      refine ⟨plain, id, listener, identity, .inl ⟨?_, live'⟩⟩
      exact there.elim (fun socket => socket.1) fun gone => absurd gone.2 live
    unfold Placed
    rcases served with phase | phase
    · rw [phase]
      exact owned
    · rw [phase]
      exact owned
  · unfold Placed
    rw [removed]
    refine ⟨plain, there.imp id ?_⟩
    rintro ⟨id, identity, socket, -⟩
    exact ⟨id, identity, socket, live'⟩
  · unfold Placed
    rcases closed with phase | phase
    · rw [phase]
      exact .inr ⟨gone, plain⟩
    · rw [phase]
      exact .inr ⟨gone, plain⟩

theorem placed_exiting (proc : Process) (placed : Placed start calm path proc)
    (woken : proc.watch ≠ .none) :
    Placed start calm .absent { proc with watch := .exiting } := by
  obtain ⟨plain, ⟨served, -, id, listener, identity, -⟩ | ⟨removed, -⟩ | ⟨closed, -⟩⟩ :=
    placed_woken start calm path proc placed woken
  · have owned : Owned start .absent { proc with watch := .exiting } :=
      ⟨plain, id, listener, identity, .inr ⟨rfl, rfl⟩⟩
    unfold Placed
    rcases served with phase | phase
    · rw [phase]
      exact owned
    · rw [phase]
      exact owned
  · unfold Placed
    rw [removed]
    exact ⟨plain, .inl rfl⟩
  · unfold Placed
    rcases closed with phase | phase
    · rw [phase]
      exact .inr ⟨rfl, plain⟩
    · rw [phase]
      exact .inr ⟨rfl, plain⟩

/-- Nothing is at the path once a watcher ends its process, or does not find its socket there. -/
theorem woken_absent (proc : Process) (placed : Placed start calm path proc)
    (woken : proc.watch ≠ .none)
    (away : proc.watch = .exiting ∨ ¬path.isOwned proc.identity = true) :
    path = .absent ∧ start.isOther = false := by
  obtain ⟨plain, ⟨-, -, id, -, identity, there | gone⟩ | ⟨-, gone | ⟨id, identity, there⟩⟩ |
    ⟨-, gone⟩⟩ := placed_woken start calm path proc placed woken
  · rcases away with exiting | other
    · exact absurd exiting there.2
    · exact absurd ((isOwned_socket path _).2 ⟨id, there.1, identity⟩) other
  · exact ⟨gone.1, plain⟩
  · exact ⟨gone, plain⟩
  · rcases away with exiting | other
    · exact absurd exiting there.2
    · exact absurd ((isOwned_socket path _).2 ⟨id, there.1, identity⟩) other
  · exact ⟨gone, plain⟩

theorem watch_kept (inv : Inv start calm tidy s) (held : s.holder = some p)
    (taken : s.watch p = some s') : Inv start calm tidy s' := by
  have holds := inv.holds p held
  have early : (s.procs p).phase.early = true → (s.procs p).listener = none := holds.early
  unfold State.watch at taken
  cases watch : (s.procs p).watch with
  | none | watching =>
    rw [watch] at taken
    cases taken
  | checking =>
    have woken : (s.procs p).watch ≠ .none := by simp [watch]
    rw [watch] at taken
    dsimp only at taken
    split_ifs at taken with owned
    · cases taken
      refine inv_moved start calm tidy s p inv held _ holds.inside early rfl fun _ placed => ?_
      exact placed_watch start calm s.path _ placed woken (by simp [watch]) _ Watch.noConfusion
    · cases taken
      refine inv_moved start calm tidy s p inv held _ holds.inside early rfl fun _ placed => ?_
      rw [(woken_absent start calm s.path _ placed woken (.inr owned)).1]
      exact placed_exiting start calm s.path _ placed woken
  | removing =>
    rw [watch] at taken
    cases taken
    refine inv_unlinked start calm tidy s p inv held _ holds.inside early rfl fun _ placed => ?_
    exact placed_exiting start calm s.path _ placed (by simp [watch])
  | exiting =>
    rw [watch] at taken
    cases taken
    apply inv_released start calm calm tidy tidy s p inv held
    intro now
    obtain ⟨gone, plain⟩ := woken_absent start calm s.path _ (inv.placed now p held)
      (by simp [watch]) (.inl watch)
    exact .inr ⟨plain, .inl gone⟩

theorem bind_kept (id : Nat) (inv : Inv start calm tidy s) (held : s.holder = some p)
    (taken : step s (.bind p id) = some s') : Inv start calm tidy s' := by
  have holds := inv.holds p held
  unfold step at taken
  dsimp only at taken
  split_ifs at taken with ready
  cases taken
  obtain ⟨phase, -, -⟩ := ready
  have absent := holds.early (by rw [phase]; rfl)
  have own : (s.put p { s.procs p with phase := .securing, listener := some id }).procs p =
      { s.procs p with phase := .securing, listener := some id } := State.put_self s p _
  refine inv_held start calm tidy s _ p inv held held
    (fun q apart => Function.update_of_ne apart _ _) rfl ?_ ?_
  · rw [own]
    refine ⟨by simp, ?_, ?_⟩
    · intro never
      cases never
    · change insert id s.listening = {id}
      rw [holds.listens, absent]
      rfl
  · intro now
    have placed := inv.placed now p held
    unfold Placed at placed
    rw [phase] at placed
    rw [own]
    exact ⟨placed.2.1, ⟨id, rfl, rfl⟩, placed.2.2⟩

theorem signal_kept (inv : Inv start calm tidy s) (held : s.holder = some p)
    (taken : step s (.signal p) = some s' ∨ step s (.stop p) = some s') :
    Inv start calm tidy s' := by
  have holds := inv.holds p held
  have early : (s.procs p).phase.early = true → (s.procs p).listener = none := holds.early
  unfold step at taken
  rcases taken with taken | taken
  · dsimp only at taken
    split_ifs at taken with watched running
    · cases taken
      exact inv_moved start calm tidy s p inv held _ holds.inside early rfl fun _ placed => placed
    · cases taken
      rw [not_not] at watched
      refine inv_moved start calm tidy s p inv held _ holds.inside early rfl fun _ placed => ?_
      exact placed_watch start calm s.path _ placed (by simp [watched]) (by simp [watched]) _
        Watch.noConfusion
  · dsimp only at taken
    split_ifs at taken
    cases taken
    exact inv_moved start calm tidy s p inv held _ holds.inside early rfl fun _ placed => placed

/-- An error of the holder: before its setup the socket may stay behind, after it is removed. -/
theorem fail_kept (inv : Inv start calm tidy s) (held : s.holder = some p)
    (taken : step s (.fail p) = some s') : Inv start False tidy s' := by
  have inv' := inv_weaken start calm False tidy tidy s False.elim id inv
  have holds := inv.holds p held
  have closed (phase : (s.procs p).phase ≠ .idle ∧ (s.procs p).phase ≠ .opened)
      (quiet : Placed start False s.path (s.procs p) → (s.procs p).watch = .none) :
      Inv start False tidy (s.move p .closing) := by
    refine inv_moved start False tidy s p inv' held _ (by simp) (fun never => by cases never) rfl ?_
    intro _ placed
    exact .inl ⟨quiet placed, left_of_placed start False s.path _ placed⟩
  change s.fail p = some s' at taken
  unfold State.fail at taken
  cases phase : (s.procs p).phase with
  | opened => exact absurd phase holds.inside.2
  | idle | setup | serving | checking | removing | closing | draining =>
    rw [phase] at taken
    cases taken
  | looking =>
    rw [phase] at taken
    cases taken
    refine closed holds.inside fun placed => ?_
    unfold Placed at placed
    rw [phase] at placed
    exact placed.2
  | probing | unlinking | binding | securing | identifying =>
    rw [phase] at taken
    cases taken
    refine closed holds.inside fun placed => ?_
    unfold Placed at placed
    rw [phase] at placed
    exact placed.2.2

theorem abort_kept (inv : Inv start calm tidy s) (held : s.holder = some p)
    (taken : step s (.abort p) = some s') : Inv start calm tidy s' := by
  change s.abort p = some s' at taken
  unfold State.abort at taken
  cases phase : (s.procs p).phase with
  | setup | serving =>
    rw [phase] at taken
    cases taken
    refine inv_moved start calm tidy s p inv held _ (by simp) (fun never => by cases never) rfl ?_
    intro _ placed
    unfold Placed at placed
    rw [phase] at placed
    first
      | exact placed
      | exact placed.1
  | _ =>
    rw [phase] at taken
    cases taken

end

/-! ### Runs -/

def Event.calm : Event → Bool
  | .crash _ | .fail _ => false
  | _ => true

def Event.swaps : Event → Bool
  | .swap _ => true
  | _ => false

/-- An event after which what is at the path is still what daemons put there. -/
def Event.tidy (event : Event) : Bool := !event.swaps

def Event.owner : Event → Option Nat
  | .go p | .bind p _ | .stop p | .signal p | .watch p | .fail p | .abort p | .crash p => some p
  | _ => none

/-- A process without the lock opens the lock file, then takes the lock where no one has it, or
ends. -/
theorem bare_cases (s s' : State) (p : Nat) (event : Event) (bare : Bare (s.procs p))
    (owner : event.owner = some p) (taken : step s event = some s') :
    (s.procs p = .new ∧ s' = { s.move p .opened with lockFile := true }) ∨
    (s.procs p = { Process.new with phase := .opened } ∧ s.holder = none ∧ s.sharing = ∅ ∧
      s' = { s.move p .looking with holder := some p }) ∨ s' = s.release p := by
  cases event with
  | await | grant | drop | tell | quit | leave | swap | listen | unlisten => cases owner
  | go q =>
    cases owner
    change s.go p = some s' at taken
    unfold State.go at taken
    rcases bare with same | same
    · rw [same] at taken
      cases taken
      exact .inl ⟨same, rfl⟩
    · rw [same] at taken
      dsimp only at taken
      split_ifs at taken with lock
      · cases taken
        exact .inr (.inl ⟨same, lock.1, lock.2, rfl⟩)
      · cases taken
        exact .inr (.inr rfl)
  | crash q =>
    cases owner
    cases taken
    exact .inr (.inr rfl)
  | fail q =>
    cases owner
    rcases bare with same | same
    · simp [step, State.fail, same, Process.new] at taken
    · simp [step, State.fail, same, Process.new] at taken
      exact .inr (.inr taken.symm)
  | bind q | stop q | signal q | watch q | abort q =>
    cases owner
    rcases bare with same | same
    · simp [step, State.watch, State.abort, same, Process.new] at taken
    · simp [step, State.watch, State.abort, same, Process.new] at taken

theorem step_bare (start : Entry) (calm tidy : Prop) (s s' : State) (p : Nat) (event : Event)
    (inv : Inv start calm tidy s) (free : s.holder ≠ some p) (owner : event.owner = some p)
    (taken : step s event = some s') : Inv start calm tidy s' := by
  obtain ⟨same, rfl⟩ | ⟨same, absent, unshared, rfl⟩ | rfl :=
    bare_cases s s' p event (inv.bare p free) owner taken
  · refine inv_bare start calm tidy s _ p inv free rfl
      (fun q apart => Function.update_of_ne apart _ _) rfl rfl rfl (.inr ?_)
    change (s.move p .opened).procs p = _
    rw [State.move, State.put_self, same]
  · exact inv_locked start calm tidy s p inv absent unshared same
  · exact release_bare start calm tidy s p inv free

def Event.listens : Event → Bool
  | .listen _ => true
  | _ => false

/-- What an event that no daemon takes leaves alone. -/
structure Aside (s s' : State) (event : Event) : Prop where
  lockFile : s'.lockFile = s.lockFile
  holder : s'.holder = s.holder
  sharing : s'.sharing ⊆ s.sharing ∨ s.holder = none
  procs : s'.procs = s.procs
  listening : s'.listening = s.listening
  path : s'.path = s.path ∨ event.swaps = true
  foreign : s'.foreign ⊆ s.foreign ∨ event.listens = true

theorem step_aside (s s' : State) (event : Event) (owner : event.owner = none)
    (taken : step s event = some s') : Aside s s' event := by
  cases event with
  | await w =>
    change s.await w = some s' at taken
    unfold State.await at taken
    rw [Option.ite_none_right_eq_some] at taken
    cases taken.2
    exact ⟨rfl, rfl, .inl subset_rfl, rfl, rfl, .inl rfl, .inl subset_rfl⟩
  | grant w =>
    unfold step at taken
    dsimp only at taken
    split_ifs at taken with granted
    cases taken
    exact ⟨rfl, rfl, .inr granted.2, rfl, rfl, .inl rfl, .inl subset_rfl⟩
  | drop w =>
    unfold step at taken
    dsimp only at taken
    split_ifs at taken
    cases taken
    exact ⟨rfl, rfl, .inl (Finset.erase_subset w s.sharing), rfl, rfl, .inl rfl, .inl subset_rfl⟩
  | tell w | quit w =>
    unfold step at taken
    dsimp only at taken
    split_ifs at taken
    cases taken
    exact ⟨rfl, rfl, .inl subset_rfl, rfl, rfl, .inl rfl, .inl subset_rfl⟩
  | leave w =>
    cases taken
    exact ⟨rfl, rfl, .inl (Finset.erase_subset w s.sharing), rfl, rfl, .inl rfl, .inl subset_rfl⟩
  | swap entry =>
    cases taken
    exact ⟨rfl, rfl, .inl subset_rfl, rfl, rfl, .inr rfl, .inl subset_rfl⟩
  | listen id =>
    unfold step at taken
    dsimp only at taken
    split_ifs at taken
    cases taken
    exact ⟨rfl, rfl, .inl subset_rfl, rfl, rfl, .inl rfl, .inr rfl⟩
  | unlisten id =>
    cases taken
    exact ⟨rfl, rfl, .inl subset_rfl, rfl, rfl, .inl rfl,
      .inl (Finset.erase_subset id s.foreign)⟩
  | _ => cases owner

theorem inv_aside (start : Entry) (calm tidy : Prop) (s s' : State) (event : Event)
    (inv : Inv start calm tidy s) (aside : Aside s s' event) (still : tidy → event.swaps = false) :
    Inv start calm tidy s' := by
  have path (now : tidy) : s'.path = s.path :=
    aside.path.resolve_right (Bool.eq_false_iff.1 (still now))
  constructor
  · rw [aside.holder, aside.procs]
    exact inv.bare
  · rw [aside.holder, aside.procs, aside.listening]
    exact inv.holds
  · intro now
    rw [aside.holder, aside.procs, path now]
    exact inv.placed now
  · rw [aside.holder, aside.listening]
    exact inv.silent
  · intro now
    rw [aside.holder, path now]
    exact inv.left now
  · rw [aside.holder]
    intro present
    rcases aside.sharing with fewer | free
    · exact inv.shared fun empty => present (Finset.subset_empty.1 (empty ▸ fewer))
    · exact free

/-- What a step keeps: an error that leaves a socket ends the calm, and a swap the tidiness. -/
theorem step_kept (start : Entry) (calm tidy : Prop) (s s' : State) (event : Event)
    (inv : Inv start calm tidy s) (taken : step s event = some s') :
    Inv start (calm ∧ event.calm = true) (tidy ∧ event.tidy = true) s' := by
  have weak (s : State) (inv : Inv start calm tidy s) :
      Inv start (calm ∧ event.calm = true) (tidy ∧ event.tidy = true) s :=
    inv_weaken start calm _ tidy _ s And.left And.left inv
  cases owner : event.owner with
  | none =>
    exact inv_aside start _ _ s s' event (weak s inv) (step_aside s s' event owner taken)
      fun now => by simpa [Event.tidy] using now.2
  | some p =>
    by_cases held : s.holder = some p
    · cases event with
      | await | grant | drop | tell | quit | leave | swap | listen | unlisten => cases owner
      | go q =>
        cases owner
        exact weak s' (go_kept start calm tidy s s' p inv held taken)
      | bind q id =>
        cases owner
        exact weak s' (bind_kept start calm tidy s s' p id inv held taken)
      | stop q =>
        cases owner
        exact weak s' (signal_kept start calm tidy s s' p inv held (.inr taken))
      | signal q =>
        cases owner
        exact weak s' (signal_kept start calm tidy s s' p inv held (.inl taken))
      | watch q =>
        cases owner
        exact weak s' (watch_kept start calm tidy s s' p inv held taken)
      | abort q =>
        cases owner
        exact weak s' (abort_kept start calm tidy s s' p inv held taken)
      | fail q =>
        cases owner
        exact inv_weaken start False _ tidy _ s' (fun never => by cases never.2) And.left
          (fail_kept start calm tidy s s' p inv held taken)
      | crash q =>
        cases owner
        cases taken
        apply inv_released start calm _ tidy _ s p inv held
        intro now
        apply left_weaken start False _ s.path (fun never => by cases never.2)
        exact left_of_placed start calm s.path _ (inv.placed now.1 p held)
    · exact weak s' (step_bare start calm tidy s s' p event inv held owner taken)

theorem run_kept (start : Entry) (foreign : Finset Nat) (events : List Event) (s : State)
    (reached : run step (initial start foreign) events = some s) :
    Inv start (∀ event ∈ events, event.calm = true) (∀ event ∈ events, event.tidy = true) s := by
  apply run_history step (initial start foreign)
    (fun events s => Inv start (∀ event ∈ events, event.calm = true)
      (∀ event ∈ events, event.tidy = true) s)
  · exact inv_initial start _ _ foreign
  · intro events middle event next _ inv taken
    have kept := step_kept start _ _ middle next event inv taken
    simp only [List.forall_mem_append, List.forall_mem_singleton]
    exact kept
  · exact reached

end DeepDiffForge.Daemon.Startup
