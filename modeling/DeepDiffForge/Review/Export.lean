import DeepDiffForge.Lib.Machine
import DeepDiffForge.Review.Session

/-! The export of notes to a tuicr session, one durable step at a time. A run may stop after any
step, an add may land whatever it reports, and the next run starts from what is on disk. -/

namespace DeepDiffForge.Review.Export
open Text DeepDiffForge.Core DeepDiffForge.Machine

structure PlannedNote where
  key : Str
  content : Str
  deriving DecidableEq, Repr

structure Record where
  key : Str
  tuicrCommentId : Str
  contentSha256 : Str
  recovered : Bool
  deriving DecidableEq, Repr

def fileName (key : Str) : Str := sha256Hex (Utf8.encode key)

inductive ExportError where
  | tuicr
  | sessionDiverged (commentId : Str)
  | interruptedExport (key pending : Str)
  | run (done : Str)
  deriving DecidableEq, Repr

inductive Phase where
  | ended (error : Option ExportError)
  | looking (notes planned : List PlannedNote)
  | next (planned : List PlannedNote)
  | adopting (note : PlannedNote) (planned : List PlannedNote)
  | adding (note : PlannedNote) (planned : List PlannedNote)
  | failing (note : PlannedNote)
  | removing (note : PlannedNote)
  | reading (note : PlannedNote) (id : Str) (recovered : Bool) (planned : List PlannedNote)
  | recording (note : PlannedNote) (id : Str) (recovered : Bool) (planned : List PlannedNote)
  deriving DecidableEq

/-- The comments of the session, the markers and the records on disk, and the notes an add was called
for and those it created a comment of. -/
structure State where
  comments : List (Str × Str)
  pending : Finset Str
  done : SortedMap Str Record
  adds : List Str
  created : List Str
  phase : Phase

def initial (comments : List (Str × Str)) : State :=
  ⟨comments, ∅, SortedMap.empty, [], [], .ended none⟩

/-- An add lands as a comment somewhere in the session, or not at all, and replies with an id, or
with none that can be used. -/
inductive Event where
  | start
  | crash
  | go
  | add (landed : Option (Nat × Str)) (reply : Option Str)
  deriving DecidableEq

def find (comments : List (Str × Str)) (content : Str) : Option Str :=
  (comments.find? fun comment => comment.2 = content).map (·.1)

def land (comments : List (Str × Str)) (content : Str) : Option (Nat × Str) → List (Str × Str)
  | none => comments
  | some (place, id) => comments.take place ++ (id, content) :: comments.drop place

def State.go (s : State) : Option State :=
  match s.phase with
  | .ended _ | .adding .. => none
  | .looking [] planned => some { s with phase := .next planned }
  | .looking (note :: notes) planned =>
      if (s.done.get (fileName note.key)).isSome then some { s with phase := .looking notes planned }
      else some { s with phase := .looking notes (planned ++ [note]) }
  | .next [] => some { s with phase := .ended none }
  | .next (note :: planned) =>
      if fileName note.key ∈ s.pending then some { s with phase := .adopting note planned }
      else
        some { s with pending := insert (fileName note.key) s.pending, phase := .adding note planned }
  | .adopting note planned =>
      match find s.comments note.content with
      | some id => some { s with phase := .reading note id true planned }
      | none =>
          some { s with phase := .ended (some (.interruptedExport note.key (fileName note.key))) }
  | .failing note =>
      match find s.comments note.content with
      | some _ => some { s with phase := .ended (some .tuicr) }
      | none => some { s with phase := .removing note }
  | .removing note =>
      some { s with pending := s.pending.erase (fileName note.key), phase := .ended (some .tuicr) }
  | .reading note id recovered planned =>
      if (id, note.content) ∈ s.comments then
        some { s with phase := .recording note id recovered planned }
      else some { s with phase := .ended (some (.sessionDiverged id)) }
  | .recording note id recovered planned =>
      if (s.done.get (fileName note.key)).isSome then
        some { s with phase := .ended (some (.run (fileName note.key))) }
      else
        some { s with
          done := s.done.insert (fileName note.key)
            ⟨note.key, id, sha256Hex (Utf8.encode note.content), recovered⟩
          phase := .next planned }

def step (notes : List PlannedNote) (s : State) : Event → Option State
  | .start =>
      match s.phase with
      | .ended _ => some { s with phase := .looking notes [] }
      | _ => none
  | .crash => some { s with phase := .ended none }
  | .go => s.go
  | .add landed reply =>
      match s.phase with
      | .adding note planned =>
          some { s with
            comments := land s.comments note.content landed
            adds := s.adds ++ [note.key]
            created := if landed.isSome then s.created ++ [note.key] else s.created
            phase := match reply with
              | some id => .reading note id false planned
              | none => .failing note }
      | _ => none

def State.recorded (s : State) (note : PlannedNote) : Prop :=
  (s.done.get (fileName note.key)).isSome

/-- Notes a run has still to see to: every other one has a record. -/
def State.Covers (s : State) (notes planned : List PlannedNote) : Prop :=
  planned ⊆ notes ∧ ∀ note ∈ notes, note ∈ planned ∨ s.recorded note

def Phase.Good (notes : List PlannedNote) (s : State) : Phase → Prop
  | .ended _ => True
  | .looking todo planned => s.Covers notes (planned ++ todo)
  | .next planned => s.Covers notes planned
  | .adopting note planned => s.Covers notes (note :: planned)
  | .adding note planned => s.Covers notes (note :: planned) ∧ fileName note.key ∈ s.pending ∧
      ∀ key ∈ s.created, fileName key ≠ fileName note.key
  | .failing note => ∀ key ∈ s.created, fileName key = fileName note.key →
      ∃ id, (id, note.content) ∈ s.comments
  | .removing note => ∀ key ∈ s.created, fileName key ≠ fileName note.key
  | .reading note _ _ planned => s.Covers notes (note :: planned)
  | .recording note id _ planned =>
      s.Covers notes (note :: planned) ∧ (id, note.content) ∈ s.comments

structure Inv (notes : List PlannedNote) (s : State) : Prop where
  once : (s.created.map fileName).Nodup
  marked : ∀ key ∈ s.created, fileName key ∈ s.pending
  recorded : ∀ name record, s.done.get name = some record → ∃ note ∈ notes,
    name = fileName note.key ∧ record.key = note.key ∧
      (record.tuicrCommentId, note.content) ∈ s.comments
  phase : s.phase.Good notes s

theorem find_some (comments : List (Str × Str)) (content id : Str)
    (found : find comments content = some id) : (id, content) ∈ comments := by
  obtain ⟨comment, first, rfl⟩ := Option.map_eq_some_iff.1 found
  have same : comment.2 = content := by simpa using List.find?_some first
  rw [← same]
  exact List.mem_of_find?_eq_some first

theorem find_none (comments : List (Str × Str)) (content : Str)
    (missing : find comments content = none) (id : Str) : (id, content) ∉ comments := by
  intro listed
  rw [find, Option.map_eq_none_iff, List.find?_eq_none] at missing
  exact missing _ listed (by simp)

theorem land_keeps (comments : List (Str × Str)) (content : Str) (landed : Option (Nat × Str))
    (comment : Str × Str) (listed : comment ∈ comments) : comment ∈ land comments content landed := by
  cases landed with
  | none => exact listed
  | some entry =>
    rw [← List.take_append_drop entry.1 comments] at listed
    rw [land, List.mem_append, List.mem_cons]
    rcases List.mem_append.1 listed with early | late
    · exact .inl early
    · exact .inr (.inr late)

theorem land_lands (comments : List (Str × Str)) (content : Str) (entry : Nat × Str) :
    (entry.2, content) ∈ land comments content (some entry) := by
  rw [land, List.mem_append, List.mem_cons]
  exact .inr (.inl rfl)

theorem inv_initial (notes : List PlannedNote) (comments : List (Str × Str)) :
    Inv notes (initial comments) where
  once := List.Pairwise.nil
  marked := by simp [initial]
  recorded := by simp [initial]
  phase := trivial

section Keeps
variable (notes : List PlannedNote) (s s' : State) (inv : Inv notes s)
include inv

/-- A step that only moves on to another phase. -/
theorem inv_phase (phase : Phase) (good : phase.Good notes s) :
    Inv notes { s with phase } where
  once := inv.once
  marked := inv.marked
  recorded := inv.recorded
  phase := by cases phase <;> exact good

theorem inv_mark (note : PlannedNote) (planned : List PlannedNote)
    (covers : s.Covers notes (note :: planned)) (unmarked : fileName note.key ∉ s.pending) :
    Inv notes { s with
      pending := insert (fileName note.key) s.pending, phase := .adding note planned } where
  once := inv.once
  marked key listed := Finset.mem_insert_of_mem (inv.marked key listed)
  recorded := inv.recorded
  phase := by
    refine ⟨covers, Finset.mem_insert_self .., ?_⟩
    intro key listed same
    have marked := inv.marked key listed
    rw [same] at marked
    exact unmarked marked

theorem inv_remove (note : PlannedNote)
    (absent : ∀ key ∈ s.created, fileName key ≠ fileName note.key) :
    Inv notes { s with
      pending := s.pending.erase (fileName note.key), phase := .ended (some .tuicr) } where
  once := inv.once
  marked key listed := Finset.mem_erase.2 ⟨absent key listed, inv.marked key listed⟩
  recorded := inv.recorded
  phase := trivial

theorem inv_record (note : PlannedNote) (id : Str) (recovered : Bool)
    (planned : List PlannedNote) (covers : s.Covers notes (note :: planned))
    (held : (id, note.content) ∈ s.comments) :
    Inv notes { s with
      done := s.done.insert (fileName note.key)
        ⟨note.key, id, sha256Hex (Utf8.encode note.content), recovered⟩
      phase := .next planned } where
  once := inv.once
  marked := inv.marked
  recorded name record found := by
    rw [SortedMap.get_insert] at found
    split_ifs at found with own
    · obtain rfl := Option.some.inj found
      exact ⟨note, covers.1 (List.mem_cons_self ..), own.symm, rfl, held⟩
    · exact inv.recorded name record found
  phase := by
    refine ⟨fun other listed => covers.1 (List.mem_cons_of_mem _ listed), ?_⟩
    intro other listed
    have kept (record : Record) (known : s.recorded other ∨ other = note) :
        ((s.done.insert (fileName note.key) record).get (fileName other.key)).isSome := by
      rw [SortedMap.get_insert]
      split_ifs with own
      · rfl
      · rcases known with before | rfl
        · exact before
        · exact absurd rfl own
    rcases covers.2 other listed with ahead | before
    · rcases List.mem_cons.1 ahead with same | later
      · exact .inr (kept _ (.inr same))
      · exact .inl later
    · exact .inr (kept _ (.inl before))

theorem inv_add (note : PlannedNote) (planned : List PlannedNote) (landed : Option (Nat × Str))
    (reply : Option Str) (here : s.phase = .adding note planned) :
    Inv notes { s with
      comments := land s.comments note.content landed
      adds := s.adds ++ [note.key]
      created := if landed.isSome then s.created ++ [note.key] else s.created
      phase := match reply with
        | some id => .reading note id false planned
        | none => .failing note } := by
  have good := inv.phase
  rw [here] at good
  obtain ⟨covers, marked, absent⟩ := good
  constructor
  case once =>
    split_ifs
    · rw [List.map_append, List.map_singleton]
      refine List.nodup_append.2 ⟨inv.once, List.nodup_singleton _, ?_⟩
      intro name early name' late
      obtain ⟨key, listed, rfl⟩ := List.mem_map.1 early
      rw [List.mem_singleton.1 late]
      exact absent key listed
    · exact inv.once
  case marked =>
    intro key listed
    split_ifs at listed
    · rcases List.mem_append.1 listed with early | late
      · exact inv.marked key early
      · rw [List.mem_singleton.1 late]
        exact marked
    · exact inv.marked key listed
  case recorded =>
    intro name record found
    obtain ⟨other, member, name', key, held⟩ := inv.recorded name record found
    exact ⟨other, member, name', key, land_keeps _ _ _ _ held⟩
  case phase =>
    cases reply with
    | some id => exact covers
    | none =>
      intro key listed same
      dsimp only at listed ⊢
      cases landed with
      | none => exact absurd same (absent key listed)
      | some entry => exact ⟨entry.2, land_lands s.comments note.content entry⟩

theorem inv_go (gone : s.go = some s') : Inv notes s' := by
  have good := inv.phase
  unfold State.go at gone
  cases here : s.phase with
  | ended error => rw [here] at gone; cases gone
  | adding note planned => rw [here] at gone; cases gone
  | looking todo planned =>
    rw [here] at gone good
    cases todo with
    | nil =>
      obtain rfl := Option.some.inj gone
      rw [Phase.Good, List.append_nil] at good
      exact inv_phase notes s inv (.next planned) good
    | cons note todo =>
      dsimp only at gone
      split_ifs at gone with known
      · obtain rfl := Option.some.inj gone
        refine inv_phase notes s inv (.looking todo planned) ⟨?_, fun other listed => ?_⟩
        · intro other listed
          apply good.1
          rw [List.mem_append] at listed ⊢
          exact listed.imp_right (List.mem_cons_of_mem _)
        · rcases good.2 other listed with ahead | before
          · rw [List.mem_append, List.mem_cons] at ahead
            rcases ahead with first | rfl | later
            · exact .inl (List.mem_append_left _ first)
            · exact .inr known
            · exact .inl (List.mem_append_right _ later)
          · exact .inr before
      · obtain rfl := Option.some.inj gone
        refine inv_phase notes s inv (.looking todo (planned ++ [note])) ?_
        rwa [Phase.Good, List.append_assoc]
  | next planned =>
    rw [here] at gone good
    cases planned with
    | nil =>
      obtain rfl := Option.some.inj gone
      exact inv_phase notes s inv (.ended none) trivial
    | cons note planned =>
      dsimp only at gone
      split_ifs at gone with marked
      · obtain rfl := Option.some.inj gone
        exact inv_phase notes s inv (.adopting note planned) good
      · obtain rfl := Option.some.inj gone
        exact inv_mark notes s inv note planned good marked
  | adopting note planned =>
    rw [here] at gone good
    dsimp only at gone
    cases found : find s.comments note.content with
    | some id =>
      rw [found] at gone
      obtain rfl := Option.some.inj gone
      exact inv_phase notes s inv (.reading note id true planned) good
    | none =>
      rw [found] at gone
      obtain rfl := Option.some.inj gone
      exact inv_phase notes s inv (.ended _) trivial
  | failing note =>
    rw [here] at gone good
    dsimp only at gone
    cases found : find s.comments note.content with
    | some id =>
      rw [found] at gone
      obtain rfl := Option.some.inj gone
      exact inv_phase notes s inv (.ended _) trivial
    | none =>
      rw [found] at gone
      obtain rfl := Option.some.inj gone
      refine inv_phase notes s inv (.removing note) ?_
      intro key listed same
      obtain ⟨id, held⟩ := good key listed same
      exact find_none s.comments note.content found id held
  | removing note =>
    rw [here] at gone good
    obtain rfl := Option.some.inj gone
    exact inv_remove notes s inv note good
  | reading note id recovered planned =>
    rw [here] at gone good
    dsimp only at gone
    split_ifs at gone with held
    · obtain rfl := Option.some.inj gone
      exact inv_phase notes s inv (.recording note id recovered planned) ⟨good, held⟩
    · obtain rfl := Option.some.inj gone
      exact inv_phase notes s inv (.ended _) trivial
  | recording note id recovered planned =>
    rw [here] at gone good
    dsimp only at gone
    split_ifs at gone with known
    · obtain rfl := Option.some.inj gone
      exact inv_phase notes s inv (.ended _) trivial
    · obtain rfl := Option.some.inj gone
      exact inv_record notes s inv note id recovered planned good.1 good.2

theorem inv_step (event : Event) (taken : step notes s event = some s') : Inv notes s' := by
  cases event with
  | start =>
    unfold step at taken
    cases here : s.phase with
    | ended error =>
      rw [here] at taken
      obtain rfl := Option.some.inj taken
      refine inv_phase notes s inv (.looking notes []) ?_
      exact ⟨List.Subset.refl _, fun note listed => .inl listed⟩
    | _ => rw [here] at taken; cases taken
  | crash =>
    obtain rfl := Option.some.inj taken
    exact inv_phase notes s inv (.ended none) trivial
  | go => exact inv_go notes s s' inv taken
  | add landed reply =>
    unfold step at taken
    cases here : s.phase with
    | adding note planned =>
      rw [here] at taken
      obtain rfl := Option.some.inj taken
      exact inv_add notes s inv note planned landed reply here
    | _ => rw [here] at taken; cases taken

end Keeps

section Later
variable (notes : List PlannedNote) (key : Str) (count : Nat) (s s' : State)

/-- A marker no run is about to remove, and how often an add was called for its key. -/
structure Left : Prop where
  marked : fileName key ∈ s.pending
  adds : s.adds.count key = count
  phase : ∀ note planned, s.phase = .adding note planned ∨ s.phase = .failing note ∨
    s.phase = .removing note → fileName note.key ≠ fileName key

variable (left : Left key count s)
include left

theorem left_phase (phase : Phase) (other : ∀ note planned, phase = .adding note planned ∨
    phase = .failing note ∨ phase = .removing note → fileName note.key ≠ fileName key) :
    Left key count { s with phase } :=
  ⟨left.marked, left.adds, other⟩

theorem left_go (gone : s.go = some s') : Left key count s' := by
  have apart := left.phase
  unfold State.go at gone
  cases here : s.phase with
  | ended error => rw [here] at gone; cases gone
  | adding note planned => rw [here] at gone; cases gone
  | looking todo planned =>
    rw [here] at gone
    cases todo with
    | nil =>
      obtain rfl := Option.some.inj gone
      exact left_phase key count s left _ (by simp)
    | cons note todo =>
      dsimp only at gone
      split_ifs at gone <;> obtain rfl := Option.some.inj gone <;>
        exact left_phase key count s left _ (by simp)
  | next planned =>
    rw [here] at gone
    cases planned with
    | nil =>
      obtain rfl := Option.some.inj gone
      exact left_phase key count s left _ (by simp)
    | cons note planned =>
      dsimp only at gone
      split_ifs at gone with marked
      · obtain rfl := Option.some.inj gone
        exact left_phase key count s left _ (by simp)
      · obtain rfl := Option.some.inj gone
        refine ⟨Finset.mem_insert_of_mem left.marked, left.adds, ?_⟩
        intro other planned' now same
        obtain ⟨rfl, -⟩ : note = other ∧ planned = planned' := by simpa using now
        rw [same] at marked
        exact marked left.marked
  | adopting note planned =>
    rw [here] at gone
    dsimp only at gone
    split at gone <;> obtain rfl := Option.some.inj gone <;>
      exact left_phase key count s left _ (by simp)
  | failing note =>
    rw [here] at gone
    dsimp only at gone
    split at gone
    · obtain rfl := Option.some.inj gone
      exact left_phase key count s left _ (by simp)
    · obtain rfl := Option.some.inj gone
      refine left_phase key count s left _ ?_
      intro other planned now
      obtain rfl : note = other := by simpa using now
      exact apart note planned (.inr (.inl here))
  | removing note =>
    rw [here] at gone
    obtain rfl := Option.some.inj gone
    have other := apart note [] (.inr (.inr here))
    exact ⟨Finset.mem_erase.2 ⟨other.symm, left.marked⟩, left.adds, by simp⟩
  | reading note id recovered planned =>
    rw [here] at gone
    dsimp only at gone
    split_ifs at gone <;> obtain rfl := Option.some.inj gone <;>
      exact left_phase key count s left _ (by simp)
  | recording note id recovered planned =>
    rw [here] at gone
    dsimp only at gone
    split_ifs at gone <;> obtain rfl := Option.some.inj gone
    · exact left_phase key count s left _ (by simp)
    · exact ⟨left.marked, left.adds, by simp⟩

theorem left_step (event : Event) (taken : step notes s event = some s') : Left key count s' := by
  cases event with
  | start =>
    unfold step at taken
    cases here : s.phase with
    | ended error =>
      rw [here] at taken
      obtain rfl := Option.some.inj taken
      exact left_phase key count s left _ (by simp)
    | _ => rw [here] at taken; cases taken
  | crash =>
    obtain rfl := Option.some.inj taken
    exact left_phase key count s left _ (by simp)
  | go => exact left_go key count s s' left taken
  | add landed reply =>
    unfold step at taken
    cases here : s.phase with
    | adding note planned =>
      rw [here] at taken
      obtain rfl := Option.some.inj taken
      have other := left.phase note planned (.inl here)
      have apart : note.key ≠ key := fun same => other (congrArg fileName same)
      refine ⟨left.marked, ?_, ?_⟩
      · rw [List.count_append, List.count_singleton, left.adds]
        simp [apart]
      · intro another planned' now
        cases reply with
        | some id => simp at now
        | none =>
          obtain rfl : note = another := by simpa using now
          exact other
    | _ => rw [here] at taken; cases taken

end Later

structure ExportedOnce (notes : List PlannedNote) (s : State) : Prop where
  once : ∀ key, s.created.count key ≤ 1
  recorded : ∀ name record, s.done.get name = some record → ∃ note ∈ notes,
    name = fileName note.key ∧ record.key = note.key ∧
      (record.tuicrCommentId, note.content) ∈ s.comments
  never : ∀ error key, s.phase = .ended error → fileName key ∈ s.pending →
    ∀ events later, run (step notes) s events = some later →
      later.adds.count key = s.adds.count key ∧ fileName key ∈ later.pending
  adopted : ∀ note planned id, s.phase = .next (note :: planned) →
    fileName note.key ∈ s.pending → s.done.get (fileName note.key) = none →
    (id, note.content) ∈ s.comments → ∃ record later,
      run (step notes) s [.go, .go, .go, .go] = some later ∧
        later.phase = .next planned ∧ later.adds = s.adds ∧
          later.done.get (fileName note.key) = some record ∧ record.recovered = true
  interrupted : ∀ note planned, s.phase = .next (note :: planned) →
    fileName note.key ∈ s.pending → (∀ id, (id, note.content) ∉ s.comments) →
    run (step notes) s [.go, .go] = some { s with
      phase := .ended (some (.interruptedExport note.key (fileName note.key))) }
  complete : s.phase = .next [] → ∀ note ∈ notes, s.recorded note

section Once
variable (notes : List PlannedNote) (s : State)

theorem adopts (note : PlannedNote) (planned : List PlannedNote) (id : Str)
    (here : s.phase = .next (note :: planned)) (marked : fileName note.key ∈ s.pending)
    (unrecorded : s.done.get (fileName note.key) = none) (held : (id, note.content) ∈ s.comments) :
    ∃ record later, run (step notes) s [.go, .go, .go, .go] = some later ∧
      later.phase = .next planned ∧ later.adds = s.adds ∧
        later.done.get (fileName note.key) = some record ∧ record.recovered = true := by
  obtain ⟨found, adopted⟩ : ∃ found, find s.comments note.content = some found := by
    cases search : find s.comments note.content with
    | some found => exact ⟨found, rfl⟩
    | none => exact absurd held (find_none s.comments note.content search id)
  have listed := find_some s.comments note.content found adopted
  have first : step notes s .go = some { s with phase := .adopting note planned } := by
    rw [step, State.go, here]
    exact if_pos marked
  have second : step notes { s with phase := .adopting note planned } .go =
      some { s with phase := .reading note found true planned } := by
    simp only [step, State.go, adopted]
  have third : step notes { s with phase := .reading note found true planned } .go =
      some { s with phase := .recording note found true planned } := if_pos listed
  obtain ⟨record, own⟩ : ∃ record : Record,
      record = ⟨note.key, found, sha256Hex (Utf8.encode note.content), true⟩ := ⟨_, rfl⟩
  have fourth : step notes { s with phase := .recording note found true planned } .go =
      some { s with
        done := s.done.insert (fileName note.key) record, phase := .next planned } := by
    rw [own]
    exact if_neg (by simp [unrecorded])
  refine ⟨record, { s with
    done := s.done.insert (fileName note.key) record, phase := .next planned }, ?_, rfl, rfl, ?_, ?_⟩
  · rw [run, first, Option.bind_some, run, second, Option.bind_some, run, third, Option.bind_some,
      run, fourth]
    rfl
  · rw [SortedMap.get_insert, if_pos rfl]
  · rw [own]

theorem interrupts (note : PlannedNote) (planned : List PlannedNote)
    (here : s.phase = .next (note :: planned)) (marked : fileName note.key ∈ s.pending)
    (absent : ∀ id, (id, note.content) ∉ s.comments) :
    run (step notes) s [.go, .go] = some { s with
      phase := .ended (some (.interruptedExport note.key (fileName note.key))) } := by
  have missing : find s.comments note.content = none := by
    cases found : find s.comments note.content with
    | none => rfl
    | some id => exact absurd (find_some s.comments note.content id found) (absent id)
  have first : step notes s .go = some { s with phase := .adopting note planned } := by
    rw [step, State.go, here]
    exact if_pos marked
  rw [run, first, Option.bind_some, run, step, State.go]
  simp only [missing]
  rfl

theorem inv_run (comments : List (Str × Str)) (events : List Event)
    (reached : run (step notes) (initial comments) events = some s) : Inv notes s :=
  run_keeps (step notes) (fun state _ => Inv notes state)
    (fun state event _ state' inv taken => inv_step notes state state' inv event taken)
    (initial comments) s events (inv_initial notes comments) reached

theorem left_run (key : Str) (count : Nat) (events : List Event) (later : State)
    (left : Left key count s) (reached : run (step notes) s events = some later) :
    Left key count later :=
  run_keeps (step notes) (fun state _ => Left key count state)
    (fun state event _ state' left taken => left_step notes key count state state' left event taken)
    s later events left reached

/-- Over any runs of the export, whatever crashes and whatever an add does and reports, a note's
comment is created once at most, and a record names a comment with its note's text. -/
theorem exported_once (comments : List (Str × Str)) (events : List Event)
    (reached : run (step notes) (initial comments) events = some s) : ExportedOnce notes s := by
  have inv := inv_run notes s comments events reached
  constructor
  case once =>
    intro key
    exact List.nodup_iff_count_le_one.1 (List.Nodup.of_map fileName inv.once) key
  case recorded => exact inv.recorded
  case never =>
    intro error key ended marked events later reached'
    have left : Left key (s.adds.count key) s := ⟨marked, rfl, by simp [ended]⟩
    have after := left_run notes s key _ events later left reached'
    exact ⟨after.adds, after.marked⟩
  case adopted =>
    intro note planned id here marked unrecorded held
    exact adopts notes s note planned id here marked unrecorded held
  case interrupted => exact interrupts notes s
  case complete =>
    intro here note listed
    have good := inv.phase
    rw [here] at good
    exact (good.2 note listed).resolve_left List.not_mem_nil

end Once

/-- An add that lands and reports a failure, and the run after it. -/
def landedUnseen : List Event :=
  [.start, .go, .go, .go, .add (some (0, "c1".toList)) none, .go, .start, .go, .go]

theorem exported_once_sample : ∃ s,
    run (step [⟨"k".toList, "x".toList⟩]) (initial []) landedUnseen = some s ∧
      ExportedOnce [⟨"k".toList, "x".toList⟩] s :=
  ⟨_, rfl, exported_once [⟨"k".toList, "x".toList⟩] _ [] landedUnseen rfl⟩

end DeepDiffForge.Review.Export
