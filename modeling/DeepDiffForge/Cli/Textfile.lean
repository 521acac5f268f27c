import DeepDiffForge.Lib.Decimal
import DeepDiffForge.Lib.Machine
import Mathlib.Logic.Function.Basic

/-! A file that is replaced whole by writers, while others read it and change its directory. Each
event is one operation on a file, or the end of a process. -/

namespace DeepDiffForge.Cli.Textfile
open Text Machine

def mode : Nat := 0o644

def temporaryAttempts : Nat := 8

def refuse (why : Str) : Str := why ++ "; refusing to replace it".toList

def temporaryName (name : Str) (pid attempt : Nat) : Str :=
  '.' :: (name ++ '.' :: (decimal pid ++ '.' :: (decimal attempt ++ ".tmp".toList)))

def taken : Str :=
  "all ".toList ++ decimal temporaryAttempts ++
    " temporary names beside it are taken; stale `.*.tmp` files there can be deleted".toList

structure File where
  bytes : List UInt8
  mode : Nat
  deriving DecidableEq

inductive Entry where
  | file (inode : Nat)
  | symlink
  | directory
  | special
  deriving DecidableEq

/-- The next operation of `write_atomically`. -/
inductive Phase where
  | examining
  | creating (attempt : Nat)
  | permitting (temporary : Str) (inode : Nat)
  | writing (temporary : Str) (inode : Nat) (rest : List UInt8)
  | syncing (temporary : Str) (inode : Nat)
  | swapping (temporary : Str) (inode : Nat)
  | removing (temporary : Str) (inode : Nat) (why : Str)
  | returned (failure : Option Str)
  | killed
  deriving DecidableEq

structure Call where
  pid : Nat
  umask : Nat
  contents : List UInt8
  phase : Phase

/-- The file that a read has open, what it got so far, and whether it has seen the end. -/
structure Reader where
  inode : Nat
  got : List UInt8
  ended : Bool

structure Version where
  inode : Nat
  writer : Option Nat
  deriving DecidableEq

structure State where
  entries : Str → Option Entry
  files : List File
  calls : List Call
  readers : List Reader
  versions : List Version

structure Start where
  entries : Str → Option Entry
  files : List File
  linked : ∀ place inode, entries place = some (.file inode) → inode < files.length

inductive Planted where
  | file (bytes : List UInt8) (mode : Nat)
  | symlink
  | directory
  | special

inductive Event where
  | start (pid umask : Nat) (contents : List UInt8)
  | go (w : Nat)
  | write (w count : Nat)
  | fail (w : Nat) (why : Str)
  | kill (w : Nat)
  | opens
  | read (r count : Nat)
  | plant (place : Str) (planted : Planted)
  | clear (place : Str)

/-- The call that an event is a step of. -/
def Event.actor : Event → Option Nat
  | .go w | .write w _ | .fail w _ | .kill w => some w
  | _ => none

/-- The temporary file that a call has made and not yet renamed or removed. -/
def Phase.holds : Phase → Option (Str × Nat)
  | .permitting temporary inode | .writing temporary inode _ | .syncing temporary inode
  | .swapping temporary inode | .removing temporary inode _ => some (temporary, inode)
  | _ => none

def State.move (s : State) (w : Nat) (call : Call) (phase : Phase) : State :=
  { s with calls := s.calls.set w { call with phase } }

def State.link (s : State) (place : Str) (entry : Option Entry) : State :=
  { s with entries := Function.update s.entries place entry }

def State.setFile (s : State) (inode : Nat) (file : File) : State :=
  { s with files := s.files.set inode file }

def narrowed (umask : Nat) : Nat := mode ^^^ (mode &&& umask)

section
variable (name : Str)

def initial (start : Start) : State where
  entries := start.entries
  files := start.files
  calls := []
  readers := []
  versions :=
    match start.entries name with
    | some (.file inode) => [⟨inode, none⟩]
    | _ => []

def State.place (s : State) (entry : Entry) (writer : Option Nat) : State :=
  { s.link name (some entry) with
    versions := s.versions ++
      match entry with
      | .file inode => [⟨inode, writer⟩]
      | _ => [] }

def State.go (s : State) (w : Nat) (call : Call) : Option State :=
  match call.phase with
  | .examining =>
      match s.entries name with
      | some .symlink => some (s.move w call (.returned (some (refuse "is a symlink".toList))))
      | some .directory | some .special =>
          some (s.move w call (.returned (some (refuse "is not a regular file".toList))))
      | _ => some (s.move w call (.creating 0))
  | .creating attempt =>
      let temporary := temporaryName name call.pid attempt
      match s.entries temporary with
      | none =>
          some { s.link temporary (some (.file s.files.length)) with
            files := s.files ++ [⟨[], narrowed call.umask⟩]
            calls := s.calls.set w { call with phase := .permitting temporary s.files.length } }
      | some _ =>
          if attempt + 1 < temporaryAttempts then some (s.move w call (.creating (attempt + 1)))
          else some (s.move w call (.returned (some taken)))
  | .permitting temporary inode =>
      (s.files[inode]?).map fun file =>
        (s.setFile inode { file with mode }).move w call (.writing temporary inode call.contents)
  | .writing temporary inode rest =>
      if rest = [] then some (s.move w call (.syncing temporary inode)) else none
  | .syncing temporary inode => some (s.move w call (.swapping temporary inode))
  | .swapping temporary inode =>
      match s.entries temporary, s.entries name with
      | some _, some .directory =>
          some (s.move w call (.removing temporary inode "Is a directory".toList))
      | some entry, _ =>
          some (((s.place name entry (some w)).link temporary none).move w call (.returned none))
      | none, _ => some (s.move w call (.removing temporary inode "No such file".toList))
  | .removing temporary _ why =>
      some ((s.link temporary none).move w call (.returned (some why)))
  | .returned _ | .killed => none

def State.fail (s : State) (w : Nat) (call : Call) (why : Str) : Option State :=
  match call.phase with
  | .examining => some (s.move w call (.creating 0))
  | .creating _ => some (s.move w call (.returned (some why)))
  | .permitting temporary inode | .writing temporary inode _ | .syncing temporary inode
  | .swapping temporary inode => some (s.move w call (.removing temporary inode why))
  | .removing _ _ why => some (s.move w call (.returned (some why)))
  | .returned _ | .killed => none

def State.plant (s : State) (place : Str) (planted : Planted) : State :=
  let entry : Entry :=
    match planted with
    | .file .. => .file s.files.length
    | .symlink => .symlink
    | .directory => .directory
    | .special => .special
  let s : State :=
    match planted with
    | .file bytes mode => { s with files := s.files ++ [⟨bytes, mode⟩] }
    | _ => s
  if place = name then s.place name entry none else s.link place (some entry)

def step (s : State) : Event → Option State
  | .start pid umask contents =>
      some { s with calls := s.calls ++ [⟨pid, umask, contents, .examining⟩] }
  | .go w => (s.calls[w]?).bind fun call => s.go name w call
  | .write w count =>
      (s.calls[w]?).bind fun call =>
        match call.phase with
        | .writing temporary inode rest =>
            if 0 < count ∧ count ≤ rest.length then
              (s.files[inode]?).map fun file =>
                (s.setFile inode { file with bytes := file.bytes ++ rest.take count }).move w call
                  (.writing temporary inode (rest.drop count))
            else none
        | _ => none
  | .fail w why => (s.calls[w]?).bind fun call => s.fail w call why
  | .kill w =>
      (s.calls[w]?).bind fun call =>
        match call.phase with
        | .returned _ | .killed => none
        | _ => some (s.move w call .killed)
  | .opens =>
      match s.entries name with
      | some (.file inode) => some { s with readers := s.readers ++ [⟨inode, [], false⟩] }
      | _ => none
  | .read r count =>
      (s.readers[r]?).bind fun reader =>
        if reader.ended ∨ count = 0 then none
        else
          (s.files[reader.inode]?).map fun file =>
            let chunk := (file.bytes.drop reader.got.length).take count
            let reader := { reader with got := reader.got ++ chunk, ended := chunk = [] }
            { s with readers := s.readers.set r reader }
  | .plant place planted =>
      if s.entries place = none ∨ place = name then some (s.plant name place planted) else none
  | .clear place =>
      -- only a temporary that no call holds
      if s.calls.all fun call => (call.phase.holds.map Prod.fst) ≠ some place then
        some (s.link place none)
      else none

end

/-! ### What a run keeps -/

def Holds (s : State) (w : Nat) (temporary : Str) (inode : Nat) : Prop :=
  ∃ call, s.calls[w]? = some call ∧ call.phase.holds = some (temporary, inode)

structure Held (name : Str) (s : State) (temporary : Str) (inode : Nat) : Prop where
  there : s.entries temporary = some (.file inode)
  only : ∀ place, s.entries place = some (.file inode) → place = temporary
  fresh : ∀ version ∈ s.versions, version.inode ≠ inode
  named : ∃ pid attempt, temporary = temporaryName name pid attempt

def Fits (files : List File) (call : Call) : Prop :=
  match call.phase with
  | .permitting _ inode => ∃ narrow, files[inode]? = some ⟨[], narrow⟩
  | .writing _ inode rest =>
      ∃ out, files[inode]? = some ⟨out, mode⟩ ∧ out ++ rest = call.contents
  | .syncing _ inode | .swapping _ inode => files[inode]? = some ⟨call.contents, mode⟩
  | _ => True

def Put (s : State) (inode w : Nat) : Prop :=
  ∃ call, s.calls[w]? = some call ∧ call.phase = .returned none ∧
    s.files[inode]? = some ⟨call.contents, mode⟩

structure Inv (name : Str) (s : State) : Prop where
  linked : ∀ place inode, s.entries place = some (.file inode) → inode < s.files.length
  versioned : ∀ version ∈ s.versions, version.inode < s.files.length
  held : ∀ w temporary inode, Holds s w temporary inode → Held name s temporary inode
  apart : ∀ w w' temporary inode inode', Holds s w temporary inode →
    Holds s w' temporary inode' → w = w'
  fits : ∀ (w : Nat) (call : Call), s.calls[w]? = some call → Fits s.files call
  current : ∀ inode, s.entries name = some (.file inode) →
    s.versions.getLast?.map Version.inode = some inode
  put : ∀ version ∈ s.versions, ∀ w, version.writer = some w → Put s version.inode w
  once : ∀ (w : Nat) (call : Call), s.calls[w]? = some call → s.versions.countP (·.writer = some w) =
    if call.phase = .returned none then 1 else 0
  reading : ∀ reader ∈ s.readers, ∃ version ∈ s.versions, version.inode = reader.inode ∧
    ∃ file, s.files[reader.inode]? = some file ∧ reader.got <+: file.bytes ∧
      (reader.ended = true → reader.got = file.bytes)

section
variable {name : Str} {s s' : State}

theorem temporaryName_ne (pid attempt : Nat) : temporaryName name pid attempt ≠ name := by
  intro same
  have length := congrArg List.length same
  unfold temporaryName at length
  rw [List.length_cons, List.length_append] at length
  omega

theorem Held.hidden (temporary : Str) (inode : Nat) (held : Held name s temporary inode) :
    temporary ≠ name := by
  obtain ⟨pid, attempt, rfl⟩ := held.named
  exact temporaryName_ne pid attempt

theorem holds_lt (w : Nat) (temporary : Str) (inode : Nat) (inv : Inv name s)
    (holds : Holds s w temporary inode) : inode < s.files.length :=
  inv.linked temporary inode (inv.held w temporary inode holds).there

theorem holds_inode (inv : Inv name s) (w w' : Nat) (temporary temporary' : Str) (inode : Nat)
    (one : Holds s w temporary inode) (two : Holds s w' temporary' inode) : w = w' := by
  have same := (inv.held w temporary inode one).only temporary'
    (inv.held w' temporary' inode two).there
  rw [same] at two
  exact inv.apart w w' temporary inode inode one two

theorem fits_files (files files' : List File) (call : Call)
    (same : ∀ temporary inode, call.phase.holds = some (temporary, inode) →
      files'[inode]? = files[inode]?) (fits : Fits files call) : Fits files' call := by
  unfold Fits at fits ⊢
  cases phase : call.phase with
  | permitting temporary inode =>
    rw [phase] at fits
    show ∃ narrow, files'[inode]? = some ⟨[], narrow⟩
    rw [same temporary inode (by rw [phase]; rfl)]
    exact fits
  | writing temporary inode rest =>
    rw [phase] at fits
    show ∃ out, files'[inode]? = some ⟨out, mode⟩ ∧ out ++ rest = call.contents
    rw [same temporary inode (by rw [phase]; rfl)]
    exact fits
  | syncing temporary inode =>
    rw [phase] at fits
    show files'[inode]? = some ⟨call.contents, mode⟩
    rw [same temporary inode (by rw [phase]; rfl)]
    exact fits
  | swapping temporary inode =>
    rw [phase] at fits
    show files'[inode]? = some ⟨call.contents, mode⟩
    rw [same temporary inode (by rw [phase]; rfl)]
    exact fits
  | _ => exact trivial

theorem calls_set (w w' : Nat) (call call' found : Call) (there : s.calls[w]? = some call)
    (found' : (s.calls.set w call')[w']? = some found) :
    (w' = w ∧ found = call') ∨ (w' ≠ w ∧ s.calls[w']? = some found) := by
  by_cases same : w' = w
  · subst same
    rw [List.getElem?_set_self (List.getElem?_eq_some_iff.1 there).1] at found'
    exact .inl ⟨rfl, (Option.some.inj found').symm⟩
  · rw [List.getElem?_set_ne fun eq => same eq.symm] at found'
    exact .inr ⟨same, found'⟩

theorem calls_set_self (w : Nat) (call call' : Call) (there : s.calls[w]? = some call) :
    (s.calls.set w call')[w]? = some call' :=
  List.getElem?_set_self (List.getElem?_eq_some_iff.1 there).1

theorem inv_own (inv : Inv name s) (w : Nat) (call : Call) (there : s.calls[w]? = some call)
    (out : call.phase ≠ .returned none) (phase : Phase) (out' : phase ≠ .returned none)
    (files : List File) (length : files.length = s.files.length)
    (others : ∀ inode, (∀ temporary, call.phase.holds ≠ some (temporary, inode)) →
      files[inode]? = s.files[inode]?)
    (takes : ∀ temporary inode, phase.holds = some (temporary, inode) →
      Held name s temporary inode ∧ ∀ w' inode', Holds s w' temporary inode' → w' = w)
    (fits : Fits files { call with phase }) :
    Inv name { s with files, calls := s.calls.set w { call with phase } } := by
  have before (w' : Nat) (temporary : Str) (inode : Nat)
      (holds : Holds { s with files, calls := s.calls.set w { call with phase } } w' temporary
        inode) :
      (w' = w ∧ phase.holds = some (temporary, inode)) ∨
        (w' ≠ w ∧ Holds s w' temporary inode) := by
    obtain ⟨found, found', holding⟩ := holds
    rcases calls_set w w' call _ found there found' with ⟨same, rfl⟩ | ⟨other, old⟩
    · exact .inl ⟨same, holding⟩
    · exact .inr ⟨other, found, old, holding⟩
  have unheld (version : Version) (listed : version ∈ s.versions) (temporary : Str) :
      call.phase.holds ≠ some (temporary, version.inode) := by
    intro holding
    exact (inv.held w temporary version.inode ⟨call, there, holding⟩).fresh version listed rfl
  constructor
  case linked =>
    intro place inode listed
    show inode < files.length
    rw [length]
    exact inv.linked place inode listed
  case versioned =>
    intro version listed
    show version.inode < files.length
    rw [length]
    exact inv.versioned version listed
  case held =>
    intro w' temporary inode holds
    have held : Held name s temporary inode := by
      rcases before w' temporary inode holds with ⟨-, holding⟩ | ⟨-, old⟩
      · exact (takes temporary inode holding).1
      · exact inv.held w' temporary inode old
    exact ⟨held.there, held.only, held.fresh, held.named⟩
  case apart =>
    intro w' w'' temporary inode inode' holds holds'
    rcases before w' temporary inode holds with ⟨same, holding⟩ | ⟨other, old⟩ <;>
      rcases before w'' temporary inode' holds' with ⟨same', holding'⟩ | ⟨other', old'⟩
    · exact same.trans same'.symm
    · exact absurd ((takes temporary inode holding).2 w'' inode' old') other'
    · exact absurd ((takes temporary inode' holding').2 w' inode old) other
    · exact inv.apart w' w'' temporary inode inode' old old'
  case fits =>
    intro w' found found'
    rcases calls_set w w' call _ found there found' with ⟨-, rfl⟩ | ⟨other, old⟩
    · exact fits
    · apply fits_files s.files files found _ (inv.fits w' found old)
      intro temporary inode holding
      apply others
      intro temporary' holding'
      exact other (holds_inode inv w' w temporary temporary' inode ⟨found, old, holding⟩
        ⟨call, there, holding'⟩)
  case current => exact inv.current
  case put =>
    intro version listed w' writer
    obtain ⟨found, old, returned, filled⟩ := inv.put version listed w' writer
    refine ⟨found, ?_, returned, ?_⟩
    · show (s.calls.set w { call with phase })[w']? = some found
      rw [List.getElem?_set_ne, old]
      rintro rfl
      rw [there] at old
      cases old
      exact out returned
    · show files[version.inode]? = _
      rw [others version.inode (unheld version listed)]
      exact filled
  case once =>
    intro w' found found'
    rcases calls_set w w' call _ found there found' with ⟨rfl, rfl⟩ | ⟨-, old⟩
    · have zero := inv.once w' call there
      rw [if_neg out] at zero
      rw [if_neg out']
      exact zero
    · exact inv.once w' found old
  case reading =>
    intro reader listed
    obtain ⟨version, among, same, file, opened, got, ended⟩ := inv.reading reader listed
    refine ⟨version, among, same, file, ?_, got, ended⟩
    show files[reader.inode]? = some file
    rw [← same, others version.inode (unheld version among), same]
    exact opened

/-- A call that goes on, and keeps its temporary file or leaves it. -/
theorem inv_move (inv : Inv name s) (w : Nat) (call : Call) (there : s.calls[w]? = some call)
    (out : call.phase ≠ .returned none) (phase : Phase) (out' : phase ≠ .returned none)
    (keeps : ∀ held, phase.holds = some held → call.phase.holds = some held)
    (fits : Fits s.files { call with phase }) : Inv name (s.move w call phase) := by
  apply inv_own inv w call there out phase out' s.files rfl (fun _ _ => rfl) _ fits
  intro temporary inode holding
  have holds : Holds s w temporary inode := ⟨call, there, keeps _ holding⟩
  exact ⟨inv.held w temporary inode holds,
    fun w' inode' other => inv.apart w' w temporary inode' inode other holds⟩

theorem inv_files (inv : Inv name s) (file : File) :
    Inv name { s with files := s.files ++ [file] } := by
  have same (inode : Nat) (small : inode < s.files.length) :
      (s.files ++ [file])[inode]? = s.files[inode]? := List.getElem?_append_left small
  have longer (inode : Nat) (small : inode < s.files.length) :
      inode < (s.files ++ [file]).length := by
    rw [List.length_append]
    exact Nat.lt_add_right _ small
  constructor
  case linked => exact fun place inode listed => longer inode (inv.linked place inode listed)
  case versioned => exact fun version listed => longer _ (inv.versioned version listed)
  case held =>
    intro w temporary inode holds
    have held := inv.held w temporary inode holds
    exact ⟨held.there, held.only, held.fresh, held.named⟩
  case apart => exact inv.apart
  case fits =>
    intro w call there
    apply fits_files s.files _ call _ (inv.fits w call there)
    intro temporary inode holding
    exact same inode (holds_lt w temporary inode inv ⟨call, there, holding⟩)
  case current => exact inv.current
  case put =>
    intro version listed w writer
    obtain ⟨call, there, returned, filled⟩ := inv.put version listed w writer
    exact ⟨call, there, returned, (same _ (inv.versioned version listed)).trans filled⟩
  case once => exact inv.once
  case reading =>
    intro reader listed
    obtain ⟨version, among, place, file', opened, got, ended⟩ := inv.reading reader listed
    refine ⟨version, among, place, file', ?_, got, ended⟩
    exact (same _ (place ▸ inv.versioned version among)).trans opened

def Foreign (s : State) (entry : Entry) : Prop :=
  ∀ inode, entry = .file inode → inode < s.files.length ∧
    ∀ w temporary inode', Holds s w temporary inode' → inode ≠ inode'

theorem update_entry (place place' : Str) (entry entry' : Option Entry)
    (found : Function.update s.entries place entry place' = entry') :
    (place' = place ∧ entry' = entry) ∨ (place' ≠ place ∧ s.entries place' = entry') := by
  by_cases same : place' = place
  · subst same
    rw [Function.update_self] at found
    exact .inl ⟨rfl, found.symm⟩
  · rw [Function.update_of_ne same] at found
    exact .inr ⟨same, found⟩

theorem held_link (place : Str) (entry : Option Entry) (temporary : Str) (inode : Nat)
    (held : Held name s temporary inode) (apart : temporary ≠ place)
    (foreign : entry ≠ some (.file inode)) : Held name (s.link place entry) temporary inode := by
  constructor
  case there =>
    show Function.update s.entries place entry temporary = _
    rw [Function.update_of_ne apart]
    exact held.there
  case only =>
    intro place' found
    rcases update_entry place place' entry _ found with ⟨-, same⟩ | ⟨-, old⟩
    · exact absurd same.symm foreign
    · exact held.only place' old
  case fresh => exact held.fresh
  case named => exact held.named

/-- A new name, or one that is removed and no call's. -/
theorem inv_link (inv : Inv name s) (place : Str) (entry : Option Entry)
    (foreign : ∀ made, entry = some made → Foreign s made)
    (free : ∀ w inode, ¬ Holds s w place inode) (hidden : place = name → entry = none) :
    Inv name (s.link place entry) := by
  constructor
  case linked =>
    intro place' inode found
    rcases update_entry place place' entry _ found with ⟨-, same⟩ | ⟨-, old⟩
    · exact (foreign _ same.symm inode rfl).1
    · exact inv.linked place' inode old
  case versioned => exact inv.versioned
  case held =>
    intro w temporary inode holds
    have holds : Holds s w temporary inode := holds
    apply held_link place entry temporary inode (inv.held w temporary inode holds)
    · rintro rfl
      exact free w inode holds
    · intro made
      exact (foreign _ made inode rfl).2 w temporary inode holds rfl
  case apart => exact inv.apart
  case fits => exact inv.fits
  case current =>
    intro inode found
    rcases update_entry place name entry _ found with ⟨same, made⟩ | ⟨-, old⟩
    · rw [hidden same.symm] at made
      cases made
    · exact inv.current inode old
  case put => exact inv.put
  case once => exact inv.once
  case reading => exact inv.reading

theorem versions_place (name : Str) (entry : Entry) (version : Version) (writer : Option Nat)
    (listed : version ∈ (s.place name entry writer).versions) :
    version ∈ s.versions ∨ (entry = .file version.inode ∧ version.writer = writer) := by
  rcases List.mem_append.1 listed with old | new
  · exact .inl old
  · cases entry with
    | file inode =>
      obtain rfl := List.mem_singleton.1 new
      exact .inr ⟨rfl, rfl⟩
    | _ => cases new

theorem current_place (entry : Entry) (writer : Option Nat) (inode : Nat)
    (found : (s.place name entry writer).entries name = some (.file inode)) :
    (s.place name entry writer).versions.getLast?.map Version.inode = some inode := by
  rcases update_entry name name _ _ found with ⟨-, same⟩ | ⟨other, -⟩
  · obtain rfl := Option.some.inj same
    show (s.versions ++ [Version.mk inode writer]).getLast?.map Version.inode = some inode
    rw [List.getLast?_concat]
    rfl
  · exact absurd rfl other

/-- Someone else's entry at the path. -/
theorem inv_place (inv : Inv name s) (entry : Entry) (foreign : Foreign s entry) :
    Inv name (s.place name entry none) := by
  constructor
  case linked =>
    intro place inode found
    rcases update_entry name place _ _ found with ⟨-, same⟩ | ⟨-, old⟩
    · exact (foreign inode (Option.some.inj same).symm).1
    · exact inv.linked place inode old
  case versioned =>
    intro version listed
    rcases versions_place name entry version none listed with old | ⟨made, -⟩
    · exact inv.versioned version old
    · exact (foreign _ made).1
  case held =>
    intro w temporary inode holds
    have holds : Holds s w temporary inode := holds
    have held := inv.held w temporary inode holds
    have linked := held_link name (some entry) temporary inode held held.hidden fun made =>
      (foreign inode (Option.some.inj made)).2 w temporary inode holds rfl
    refine ⟨linked.there, linked.only, ?_, held.named⟩
    intro version listed
    rcases versions_place name entry version none listed with old | ⟨made, -⟩
    · exact held.fresh version old
    · exact (foreign _ made).2 w temporary inode holds
  case apart => exact inv.apart
  case fits => exact inv.fits
  case current => exact current_place entry none
  case put =>
    intro version listed w writer
    rcases versions_place name entry version none listed with old | ⟨-, no⟩
    · exact inv.put version old w writer
    · rw [writer] at no
      cases no
  case once =>
    intro w call there
    rw [← inv.once w call there]
    show (s.versions ++ _).countP _ = _
    rw [List.countP_append, Nat.add_eq_left, List.countP_eq_zero]
    intro version new
    cases entry with
    | file inode =>
      obtain rfl := List.mem_singleton.1 new
      exact of_decide_eq_false rfl
    | _ => cases new
  case reading =>
    intro reader listed
    obtain ⟨version, among, rest⟩ := inv.reading reader listed
    exact ⟨version, List.mem_append_left _ among, rest⟩

theorem inv_swap (inv : Inv name s) (w : Nat) (call : Call) (there : s.calls[w]? = some call)
    (temporary : Str) (inode : Nat) (phase : call.phase = .swapping temporary inode) :
    Inv name (((s.place name (.file inode) (some w)).link temporary none).move w call
      (.returned none)) := by
  have holds : Holds s w temporary inode := ⟨call, there, by rw [phase]; rfl⟩
  have held := inv.held w temporary inode holds
  have small := holds_lt w temporary inode inv holds
  have filled : s.files[inode]? = some ⟨call.contents, mode⟩ := by
    have fits := inv.fits w call there
    unfold Fits at fits
    rw [phase] at fits
    exact fits
  have before (w' : Nat) (temporary' : Str) (inode' : Nat)
      (other : Holds (((s.place name (.file inode) (some w)).link temporary none).move w call
        (.returned none)) w' temporary' inode') : w' ≠ w ∧ Holds s w' temporary' inode' := by
    obtain ⟨found, found', holding⟩ := other
    rcases calls_set w w' call _ found there found' with ⟨-, rfl⟩ | ⟨other, old⟩
    · cases holding
    · exact ⟨other, found, old, holding⟩
  have entries (place : Str) (entry : Entry)
      (found : Function.update (Function.update s.entries name (some (.file inode))) temporary
        none place = some entry) :
      place ≠ temporary ∧ ((place = name ∧ entry = .file inode) ∨
        (place ≠ name ∧ s.entries place = some entry)) := by
    by_cases same : place = temporary
    · rw [same, Function.update_self] at found
      cases found
    · rw [Function.update_of_ne same] at found
      rcases update_entry name place _ _ found with ⟨pos, made⟩ | ⟨other, old⟩
      · exact ⟨same, .inl ⟨pos, Option.some.inj made⟩⟩
      · exact ⟨same, .inr ⟨other, old⟩⟩
  constructor
  case linked =>
    intro place inode' found
    rcases (entries place _ found).2 with ⟨-, made⟩ | ⟨-, old⟩
    · cases made
      exact small
    · exact inv.linked place inode' old
  case versioned =>
    intro version listed
    rcases versions_place name (.file inode) version (some w) listed with old | ⟨made, -⟩
    · exact inv.versioned version old
    · cases made
      exact small
  case held =>
    intro w' temporary' inode' other
    obtain ⟨apart, old⟩ := before w' temporary' inode' other
    have held' := inv.held w' temporary' inode' old
    have inodes : inode' ≠ inode := by
      rintro rfl
      exact apart (holds_inode inv w' w temporary' temporary inode' old holds)
    have names : temporary' ≠ temporary := by
      rintro rfl
      exact apart (inv.apart w' w temporary' inode' inode old holds)
    constructor
    case there =>
      show Function.update (Function.update s.entries name _) temporary none temporary' = _
      rw [Function.update_of_ne names, Function.update_of_ne held'.hidden]
      exact held'.there
    case only =>
      intro place found
      rcases (entries place _ found).2 with ⟨-, made⟩ | ⟨-, old⟩
      · cases made
        exact absurd rfl inodes
      · exact held'.only place old
    case fresh =>
      intro version listed
      rcases versions_place name (.file inode) version (some w) listed with old | ⟨made, -⟩
      · exact held'.fresh version old
      · cases made
        exact inodes.symm
    case named => exact held'.named
  case apart =>
    intro w' w'' temporary' inode' inode'' one two
    exact inv.apart w' w'' temporary' inode' inode'' (before w' temporary' inode' one).2
      (before w'' temporary' inode'' two).2
  case fits =>
    intro w' found found'
    rcases calls_set w w' call _ found there found' with ⟨-, rfl⟩ | ⟨-, old⟩
    · exact trivial
    · exact inv.fits w' found old
  case current =>
    intro inode' found
    obtain ⟨-, ⟨-, made⟩ | ⟨other, -⟩⟩ := entries name _ found
    · cases made
      show (s.versions ++ [Version.mk inode (some w)]).getLast?.map Version.inode = some inode
      rw [List.getLast?_concat]
      rfl
    · exact absurd rfl other
  case put =>
    intro version listed w' writer
    rcases versions_place name (.file inode) version (some w) listed with old | ⟨made, own⟩
    · obtain ⟨found, old', returned, filled'⟩ := inv.put version old w' writer
      refine ⟨found, ?_, returned, filled'⟩
      show (s.calls.set w _)[w']? = some found
      rw [List.getElem?_set_ne, old']
      rintro rfl
      rw [there] at old'
      cases old'
      rw [phase] at returned
      cases returned
    · rw [writer] at own
      cases own
      cases made
      exact ⟨_, calls_set_self w call _ there, rfl, filled⟩
  case once =>
    intro w' found found'
    show (s.versions ++ [Version.mk inode (some w)]).countP _ = _
    rw [List.countP_append, List.countP_singleton]
    rcases calls_set w w' call _ found there found' with ⟨rfl, rfl⟩ | ⟨other, old⟩
    · have zero := inv.once w' call there
      rw [phase, if_neg fun no => by cases no] at zero
      rw [zero, if_pos (decide_eq_true rfl), if_pos rfl]
    · rw [if_neg fun same => other (Option.some.inj (of_decide_eq_true same)).symm, Nat.add_zero]
      exact inv.once w' found old
  case reading =>
    intro reader listed
    obtain ⟨version, among, rest⟩ := inv.reading reader listed
    exact ⟨version, List.mem_append_left _ among, rest⟩

theorem inv_create (inv : Inv name s) (w : Nat) (call : Call) (there : s.calls[w]? = some call)
    (temporary : Str) (absent : s.entries temporary = none)
    (named : ∃ pid attempt, temporary = temporaryName name pid attempt)
    (opened : call.phase ≠ .returned none) (narrow : Nat) :
    Inv name { s.link temporary (some (.file s.files.length)) with
      files := s.files ++ [⟨[], narrow⟩]
      calls := s.calls.set w { call with phase := .permitting temporary s.files.length } } := by
  have larger := inv_files inv ⟨[], narrow⟩
  have linked := inv_link larger temporary (some (.file s.files.length))
    (by
      intro made same inode file
      cases same
      cases file
      constructor
      · show s.files.length < (s.files ++ [_]).length
        rw [List.length_append]
        exact Nat.lt_succ_self _
      · intro w' temporary' inode' holds
        exact (holds_lt w' temporary' inode' inv holds).ne')
    (by
      intro w' inode holds
      have pos := (inv.held w' temporary inode holds).there
      rw [absent] at pos
      cases pos)
    (by
      obtain ⟨pid, attempt, rfl⟩ := named
      exact fun same => absurd same (temporaryName_ne pid attempt))
  apply inv_own linked w call there opened (.permitting temporary s.files.length) (by nofun)
    (s.files ++ [File.mk [] narrow]) rfl (fun _ _ => rfl)
  · intro temporary' inode' holding
    cases holding
    refine ⟨⟨Function.update_self .., ?_, ?_, named⟩, ?_⟩
    · intro place found
      rcases update_entry temporary place _ _ found with ⟨same, -⟩ | ⟨-, old⟩
      · exact same
      · exact absurd (inv.linked place _ old) (lt_irrefl _)
    · exact fun version listed => (inv.versioned version listed).ne
    · intro w' inode' holds
      have pos := (inv.held w' temporary inode' holds).there
      rw [absent] at pos
      cases pos
  · exact ⟨narrow, List.getElem?_concat_length⟩

theorem inv_remove (inv : Inv name s) (w : Nat) (call : Call) (there : s.calls[w]? = some call)
    (temporary : Str) (inode : Nat) (why why' : Str)
    (phase : call.phase = .removing temporary inode why) :
    Inv name ((s.link temporary none).move w call (.returned (some why'))) := by
  have holds : Holds s w temporary inode := ⟨call, there, by rw [phase]; rfl⟩
  have moved : Inv name (s.move w call (.returned (some why'))) := by
    apply inv_move inv w call there (by rw [phase]; nofun) _ (by nofun) (by nofun)
    exact trivial
  apply inv_link moved temporary none (by nofun) _ (fun _ => rfl)
  intro w' inode' other
  obtain ⟨found, found', holding⟩ := other
  rcases calls_set w w' call _ found there found' with ⟨-, rfl⟩ | ⟨apart, old⟩
  · cases holding
  · exact apart (inv.apart w' w temporary inode' inode ⟨found, old, holding⟩ holds)

theorem go_kept (inv : Inv name s) (w : Nat) (call : Call) (there : s.calls[w]? = some call)
    (next : s.go name w call = some s') : Inv name s' := by
  have fits := inv.fits w call there
  unfold State.go at next
  cases phase : call.phase with
  | examining =>
    have moved (phase' : Phase) (out' : phase' ≠ .returned none) (free : phase'.holds = none)
        (fits' : Fits s.files { call with phase := phase' }) : Inv name (s.move w call phase') := by
      apply inv_move inv w call there (by rw [phase]; nofun) phase' out' _ fits'
      rw [free]
      nofun
    rw [phase] at next
    dsimp only at next
    split at next
    all_goals
      cases next
      exact moved _ (by nofun) rfl trivial
  | creating attempt =>
    rw [phase] at next
    dsimp only at next
    split at next
    · rename_i absent
      cases next
      exact inv_create inv w call there _ absent
        ⟨call.pid, attempt, rfl⟩ (by rw [phase]; nofun) _
    · split_ifs at next with more
      · cases next
        apply inv_move inv w call there (by rw [phase]; nofun) _ (by nofun) (by nofun)
        exact trivial
      · cases next
        apply inv_move inv w call there (by rw [phase]; nofun) _ (by nofun) (by nofun)
        exact trivial
  | permitting temporary inode =>
    rw [phase] at next
    obtain ⟨file, found, rfl⟩ := Option.map_eq_some_iff.1 next
    unfold Fits at fits
    rw [phase] at fits
    obtain ⟨narrow, empty⟩ := fits
    rw [empty] at found
    cases found
    have holds : Holds s w temporary inode := ⟨call, there, by rw [phase]; rfl⟩
    apply inv_own inv w call there (by rw [phase]; nofun)
      (.writing temporary inode call.contents) (by nofun) (s.files.set inode ⟨[], mode⟩)
      List.length_set
    · intro other apart
      apply List.getElem?_set_ne
      rintro rfl
      exact apart temporary (by rw [phase]; rfl)
    · intro temporary' inode' holding
      cases holding
      exact ⟨inv.held w temporary inode holds,
        fun w' inode' other => inv.apart w' w temporary inode' inode other holds⟩
    · exact ⟨[], List.getElem?_set_self (holds_lt w temporary inode inv holds), rfl⟩
  | writing temporary inode rest =>
    rw [phase] at next
    dsimp only at next
    split_ifs at next with empty
    cases next
    apply inv_move inv w call there (by rw [phase]; nofun) _ (by nofun)
    · intro held holding
      rw [phase]
      exact holding
    · unfold Fits at fits
      rw [phase] at fits
      obtain ⟨out, filled, whole⟩ := fits
      rw [empty, List.append_nil] at whole
      rw [whole] at filled
      exact filled
  | syncing temporary inode =>
    rw [phase] at next
    cases next
    apply inv_move inv w call there (by rw [phase]; nofun) _ (by nofun)
    · intro held holding
      rw [phase]
      exact holding
    · unfold Fits at fits
      rw [phase] at fits
      exact fits
  | swapping temporary inode =>
    have holds : Holds s w temporary inode := ⟨call, there, by rw [phase]; rfl⟩
    have entry := (inv.held w temporary inode holds).there
    rw [phase] at next
    dsimp only at next
    rw [entry] at next
    split at next
    · cases next
      apply inv_move inv w call there (by rw [phase]; nofun) _ (by nofun)
      · intro held holding
        rw [phase]
        exact holding
      · exact trivial
    · rename_i same _
      cases same
      cases next
      exact inv_swap inv w call there temporary inode phase
    · rename_i same
      cases same
  | removing temporary inode why =>
    rw [phase] at next
    cases next
    exact inv_remove inv w call there temporary inode why why phase
  | returned failure =>
    rw [phase] at next
    cases next
  | killed =>
    rw [phase] at next
    cases next

theorem fail_kept (inv : Inv name s) (w : Nat) (call : Call) (there : s.calls[w]? = some call)
    (why : Str) (next : s.fail w call why = some s') : Inv name s' := by
  have moved (phase' : Phase) (out : call.phase ≠ .returned none) (out' : phase' ≠ .returned none)
      (keeps : ∀ held, phase'.holds = some held → call.phase.holds = some held)
      (fits' : Fits s.files { call with phase := phase' }) : Inv name (s.move w call phase') :=
    inv_move inv w call there out phase' out' keeps fits'
  unfold State.fail at next
  cases phase : call.phase with
  | examining | creating attempt | removing temporary inode why' =>
    rw [phase] at next moved
    cases next
    exact moved _ (by nofun) (by nofun) (by nofun) trivial
  | permitting temporary inode | writing temporary inode rest | syncing temporary inode
  | swapping temporary inode =>
    rw [phase] at next moved
    cases next
    exact moved _ (by nofun) (by nofun) (fun held holding => holding) trivial
  | returned failure | killed =>
    rw [phase] at next
    cases next

theorem write_kept (inv : Inv name s) (w : Nat) (call : Call) (there : s.calls[w]? = some call)
    (temporary : Str) (inode count : Nat) (rest : List UInt8)
    (phase : call.phase = .writing temporary inode rest) (file : File)
    (found : s.files[inode]? = some file) :
    Inv name ((s.setFile inode { file with bytes := file.bytes ++ rest.take count }).move w call
      (.writing temporary inode (rest.drop count))) := by
  have holds : Holds s w temporary inode := ⟨call, there, by rw [phase]; rfl⟩
  have fits := inv.fits w call there
  unfold Fits at fits
  rw [phase] at fits
  obtain ⟨out, filled, whole⟩ := fits
  rw [found] at filled
  cases filled
  apply inv_own inv w call there (by rw [phase]; nofun)
    (.writing temporary inode (rest.drop count)) (by nofun)
    (s.files.set inode ⟨out ++ rest.take count, mode⟩) List.length_set
  · intro other apart
    apply List.getElem?_set_ne
    rintro rfl
    exact apart temporary (by rw [phase]; rfl)
  · intro temporary' inode' holding
    cases holding
    exact ⟨inv.held w temporary inode holds,
      fun w' inode' other => inv.apart w' w temporary inode' inode other holds⟩
  · refine ⟨out ++ rest.take count,
      List.getElem?_set_self (holds_lt w temporary inode inv holds), ?_⟩
    rw [List.append_assoc, List.take_append_drop]
    exact whole

theorem calls_concat (call found : Call) (w : Nat) (there : (s.calls ++ [call])[w]? = some found) :
    s.calls[w]? = some found ∨ (w = s.calls.length ∧ found = call) := by
  rw [List.getElem?_append] at there
  split_ifs at there with small
  · exact .inl there
  · obtain ⟨last, same⟩ := List.getElem?_eq_some_iff.1 there
    have last : w = s.calls.length := by
      rw [List.length_singleton] at last
      omega
    subst last
    simp at same
    exact .inr ⟨rfl, same.symm⟩

theorem inv_start (inv : Inv name s) (pid umask : Nat) (contents : List UInt8) :
    Inv name { s with calls := s.calls ++ [⟨pid, umask, contents, .examining⟩] } := by
  have before (w : Nat) (temporary : Str) (inode : Nat)
      (holds : Holds { s with calls := s.calls ++ [⟨pid, umask, contents, .examining⟩] } w
        temporary inode) : Holds s w temporary inode := by
    obtain ⟨call, there, holding⟩ := holds
    rcases calls_concat _ call w there with old | ⟨-, rfl⟩
    · exact ⟨call, old, holding⟩
    · cases holding
  constructor
  case linked => exact inv.linked
  case versioned => exact inv.versioned
  case held =>
    intro w temporary inode holds
    have held := inv.held w temporary inode (before w temporary inode holds)
    exact ⟨held.there, held.only, held.fresh, held.named⟩
  case apart =>
    intro w w' temporary inode inode' one two
    exact inv.apart w w' temporary inode inode' (before w temporary inode one)
      (before w' temporary inode' two)
  case fits =>
    intro w call there
    rcases calls_concat _ call w there with old | ⟨-, rfl⟩
    · exact inv.fits w call old
    · exact trivial
  case current => exact inv.current
  case put =>
    intro version listed w writer
    obtain ⟨call, there, rest⟩ := inv.put version listed w writer
    refine ⟨call, ?_, rest⟩
    show (s.calls ++ _)[w]? = some call
    rw [List.getElem?_append_left (List.getElem?_eq_some_iff.1 there).1]
    exact there
  case once =>
    intro w call there
    rcases calls_concat _ call w there with old | ⟨rfl, rfl⟩
    · exact inv.once w call old
    · rw [if_neg (by nofun), List.countP_eq_zero]
      intro version listed own
      obtain ⟨call, there, -⟩ := inv.put version listed _ (of_decide_eq_true own)
      exact absurd (List.getElem?_eq_some_iff.1 there).1 (lt_irrefl _)
  case reading => exact inv.reading

theorem inv_readers (inv : Inv name s) (readers : List Reader)
    (reading : ∀ reader ∈ readers, ∃ version ∈ s.versions, version.inode = reader.inode ∧
      ∃ file, s.files[reader.inode]? = some file ∧ reader.got <+: file.bytes ∧
        (reader.ended = true → reader.got = file.bytes)) :
    Inv name { s with readers } := by
  constructor
  case linked => exact inv.linked
  case versioned => exact inv.versioned
  case held =>
    intro w temporary inode holds
    have held := inv.held w temporary inode holds
    exact ⟨held.there, held.only, held.fresh, held.named⟩
  case apart => exact inv.apart
  case fits => exact inv.fits
  case current => exact inv.current
  case put => exact inv.put
  case once => exact inv.once
  case reading => exact reading

theorem open_kept (inv : Inv name s) (inode : Nat)
    (entry : s.entries name = some (.file inode)) :
    Inv name { s with readers := s.readers ++ [⟨inode, [], false⟩] } := by
  apply inv_readers inv
  apply List.forall_mem_append.2 ⟨inv.reading, List.forall_mem_singleton.2 _⟩
  obtain ⟨version, last, same⟩ := Option.map_eq_some_iff.1 (inv.current inode entry)
  refine ⟨version, List.mem_of_getLast? last, same, ?_⟩
  obtain ⟨file, found⟩ : ∃ file, s.files[inode]? = some file :=
    ⟨_, List.getElem?_eq_getElem (inv.linked name inode entry)⟩
  exact ⟨file, found, List.nil_prefix, by nofun⟩

theorem chunk_prefix (bytes got : List UInt8) (count : Nat) (sofar : got <+: bytes) :
    got ++ (bytes.drop got.length).take count <+: bytes := by
  obtain ⟨rest, rfl⟩ := sofar
  rw [List.drop_left]
  exact (List.prefix_append_right_inj got).2 (List.take_prefix count rest)

theorem chunk_last (bytes got : List UInt8) (count : Nat) (positive : count ≠ 0)
    (sofar : got <+: bytes) (empty : (bytes.drop got.length).take count = []) : got = bytes := by
  obtain ⟨rest, rfl⟩ := sofar
  rw [List.drop_left] at empty
  rcases List.take_eq_nil_iff.1 empty with zero | none
  · exact absurd zero positive
  · rw [none, List.append_nil]

theorem read_kept (inv : Inv name s) (r count : Nat) (reader : Reader)
    (there : s.readers[r]? = some reader) (positive : count ≠ 0) (file : File)
    (found : s.files[reader.inode]? = some file) :
    Inv name { s with
      readers := s.readers.set r
        { reader with
          got := reader.got ++ (file.bytes.drop reader.got.length).take count
          ended := (file.bytes.drop reader.got.length).take count = [] } } := by
  apply inv_readers inv
  intro other listed
  rcases List.mem_or_eq_of_mem_set listed with old | rfl
  · exact inv.reading other old
  · obtain ⟨version, among, same, file', found', sofar, -⟩ :=
      inv.reading reader (List.mem_of_getElem? there)
    rw [found] at found'
    cases found'
    refine ⟨version, among, same, file, found, chunk_prefix _ _ count sofar, fun ended => ?_⟩
    have empty := of_decide_eq_true ended
    show reader.got ++ _ = file.bytes
    rw [empty, List.append_nil]
    exact chunk_last file.bytes reader.got count positive sofar empty

theorem foreign_link (entry : Entry) (absent : ∀ inode, entry ≠ .file inode) : Foreign s entry :=
  fun inode same => absurd same (absent inode)

theorem foreign_new (inv : Inv name s) (file : File) :
    Foreign { s with files := s.files ++ [file] } (.file s.files.length) := by
  intro inode same
  cases same
  constructor
  · show s.files.length < (s.files ++ [file]).length
    rw [List.length_append]
    exact Nat.lt_succ_self _
  · intro w temporary inode' holds
    exact (holds_lt w temporary inode' inv holds).ne'

theorem planted_kept (inv : Inv name s) (place : Str) (entry : Entry) (foreign : Foreign s entry)
    (free : s.entries place = none ∨ place = name) :
    Inv name (if place = name then s.place name entry none else s.link place (some entry)) := by
  split_ifs with path
  · exact inv_place inv entry foreign
  · apply inv_link inv place (some entry)
    · intro made same
      cases same
      exact foreign
    · intro w inode holds
      have pos := (inv.held w place inode holds).there
      rw [free.resolve_right path] at pos
      cases pos
    · exact fun same => absurd same path

theorem plant_kept (inv : Inv name s) (place : Str) (planted : Planted)
    (free : s.entries place = none ∨ place = name) : Inv name (s.plant name place planted) := by
  cases planted with
  | file bytes mode =>
    exact planted_kept (inv_files inv ⟨bytes, mode⟩) place _ (foreign_new inv ⟨bytes, mode⟩) free
  | symlink => exact planted_kept inv place _ (foreign_link _ (by nofun)) free
  | directory => exact planted_kept inv place _ (foreign_link _ (by nofun)) free
  | special => exact planted_kept inv place _ (foreign_link _ (by nofun)) free

theorem clear_kept (inv : Inv name s) (place : Str)
    (free : (s.calls.all fun call => call.phase.holds.map Prod.fst ≠ some place) = true) :
    Inv name (s.link place none) := by
  apply inv_link inv place none (by nofun) _ fun _ => rfl
  intro w inode holds
  obtain ⟨call, there, holding⟩ := holds
  have apart := of_decide_eq_true (List.all_eq_true.1 free call (List.mem_of_getElem? there))
  rw [holding] at apart
  exact apart rfl

theorem step_kept (inv : Inv name s) (event : Event) (next : step name s event = some s') :
    Inv name s' := by
  unfold step at next
  cases event with
  | start pid umask contents =>
    cases next
    exact inv_start inv pid umask contents
  | go w =>
    obtain ⟨call, there, next⟩ := Option.bind_eq_some_iff.1 next
    exact go_kept inv w call there next
  | write w count =>
    obtain ⟨call, there, next⟩ := Option.bind_eq_some_iff.1 next
    split at next
    · rename_i temporary inode rest phase
      split_ifs at next
      obtain ⟨file, found, rfl⟩ := Option.map_eq_some_iff.1 next
      exact write_kept inv w call there temporary inode count rest phase file found
    · cases next
  | fail w why =>
    obtain ⟨call, there, next⟩ := Option.bind_eq_some_iff.1 next
    exact fail_kept inv w call there why next
  | kill w =>
    obtain ⟨call, there, next⟩ := Option.bind_eq_some_iff.1 next
    split at next
    · cases next
    · cases next
    · rename_i out _
      cases next
      apply inv_move inv w call there (out none) .killed (by nofun) (by nofun)
      exact trivial
  | opens =>
    dsimp only at next
    split at next
    · rename_i inode entry
      cases next
      exact open_kept inv inode entry
    · cases next
  | read r count =>
    obtain ⟨reader, there, next⟩ := Option.bind_eq_some_iff.1 next
    split_ifs at next with stop
    obtain ⟨file, found, rfl⟩ := Option.map_eq_some_iff.1 next
    exact read_kept inv r count reader there (fun zero => stop (.inr zero)) file found
  | plant place planted =>
    dsimp only at next
    split_ifs at next with free
    cases next
    exact plant_kept inv place planted free
  | clear place =>
    dsimp only at next
    split_ifs at next with free
    cases next
    exact clear_kept inv place free

theorem inv_initial (start : Start) : Inv name (initial name start) := by
  have first (version : Version) (listed : version ∈ (initial name start).versions) :
      start.entries name = some (.file version.inode) ∧ version.writer = none := by
    unfold initial at listed
    dsimp only at listed
    split at listed
    · rename_i inode entry
      obtain rfl := List.mem_singleton.1 listed
      exact ⟨entry, rfl⟩
    · cases listed
  constructor
  case linked => exact start.linked
  case versioned => exact fun version listed => start.linked name _ (first version listed).1
  case held => exact fun w temporary inode ⟨call, there, _⟩ => by cases there
  case apart => exact fun w w' temporary inode inode' ⟨call, there, _⟩ => by cases there
  case fits => exact fun w call there => by cases there
  case current =>
    intro inode entry
    have entry : start.entries name = some (.file inode) := entry
    unfold initial
    dsimp only
    rw [entry]
    rfl
  case put =>
    intro version listed w writer
    rw [(first version listed).2] at writer
    cases writer
  case once => exact fun w call there => by cases there
  case reading => exact fun reader listed => by cases listed

theorem run_kept (start : Start) (events : List Event)
    (reached : run (step name) (initial name start) events = some s) : Inv name s :=
  run_keeps (step name) (fun state _ => Inv name state)
    (fun _ event _ _ inv next => step_kept inv event next) _ _ _ (inv_initial start) reached

/-! ### What a step leaves alone -/

structure Frame (name : Str) (s s' : State) (held : Option (Str × Nat)) : Prop where
  versions : s.versions <+: s'.versions
  files : ∀ inode < s.files.length, (∀ temporary, held ≠ some (temporary, inode)) →
    s'.files[inode]? = s.files[inode]?
  entries : ∀ place entry, s.entries place = some entry → place ≠ name →
    (∀ inode, held ≠ some (place, inode)) → s'.entries place = some entry
  path : s'.versions = s.versions → s'.entries name = s.entries name

theorem frame_calls (calls : List Call) (held : Option (Str × Nat)) :
    Frame name s { s with calls } held :=
  ⟨List.prefix_rfl, fun _ _ _ => rfl, fun _ _ there _ _ => there, fun _ => rfl⟩

theorem frame_file (calls : List Call) (temporary : Str) (inode : Nat) (file : File) :
    Frame name s { s with files := s.files.set inode file, calls } (some (temporary, inode)) := by
  refine ⟨List.prefix_rfl, ?_, fun _ _ there _ _ => there, fun _ => rfl⟩
  intro other _ apart
  apply List.getElem?_set_ne
  rintro rfl
  exact apart temporary rfl

theorem frame_remove (calls : List Call) (temporary : Str) (inode : Nat)
    (hidden : temporary ≠ name) :
    Frame name s { s.link temporary none with calls } (some (temporary, inode)) := by
  refine ⟨List.prefix_rfl, fun _ _ _ => rfl, ?_, fun _ => Function.update_of_ne hidden.symm ..⟩
  intro place entry there _ apart
  show Function.update s.entries temporary none place = some entry
  rw [Function.update_of_ne]
  · exact there
  · rintro rfl
    exact apart inode rfl

theorem go_frame (inv : Inv name s) (w : Nat) (call : Call) (there : s.calls[w]? = some call)
    (next : s.go name w call = some s') : Frame name s s' call.phase.holds := by
  unfold State.go at next
  cases phase : call.phase with
  | examining =>
    rw [phase] at next
    dsimp only at next
    split at next
    all_goals
      cases next
      exact frame_calls _ _
  | creating attempt =>
    rw [phase] at next
    dsimp only at next
    split at next
    · rename_i absent
      cases next
      refine ⟨List.prefix_rfl, fun inode small _ => List.getElem?_append_left small, ?_, ?_⟩
      · intro place entry found _ _
        show Function.update s.entries _ _ place = some entry
        rw [Function.update_of_ne]
        · exact found
        · rintro rfl
          rw [absent] at found
          cases found
      · exact fun _ => Function.update_of_ne (temporaryName_ne call.pid attempt).symm ..
    · split_ifs at next
      all_goals
        cases next
        exact frame_calls _ _
  | permitting temporary inode =>
    rw [phase] at next
    obtain ⟨file, -, rfl⟩ := Option.map_eq_some_iff.1 next
    exact frame_file _ temporary inode _
  | writing temporary inode rest =>
    rw [phase] at next
    dsimp only at next
    split_ifs at next
    cases next
    exact frame_calls _ _
  | syncing temporary inode =>
    rw [phase] at next
    cases next
    exact frame_calls _ _
  | swapping temporary inode =>
    have held := inv.held w temporary inode ⟨call, there, by rw [phase]; rfl⟩
    rw [phase] at next
    dsimp only at next
    rw [held.there] at next
    split at next
    · cases next
      exact frame_calls _ _
    · rename_i same _
      cases same
      cases next
      refine ⟨List.prefix_append .., fun _ _ _ => rfl, ?_, ?_⟩
      · intro place entry found other apart
        show Function.update (Function.update s.entries name _) temporary none place = some entry
        rw [Function.update_of_ne, Function.update_of_ne other]
        · exact found
        · rintro rfl
          exact apart inode rfl
      · intro same
        have length := congrArg List.length same
        change (s.versions ++ [_]).length = _ at length
        rw [List.length_append] at length
        exact absurd length (Nat.succ_ne_self _)
    · rename_i same
      cases same
  | removing temporary inode why =>
    have held := inv.held w temporary inode ⟨call, there, by rw [phase]; rfl⟩
    rw [phase] at next
    cases next
    exact frame_remove _ temporary inode held.hidden
  | returned failure =>
    rw [phase] at next
    cases next
  | killed =>
    rw [phase] at next
    cases next

theorem fail_frame (w : Nat) (call : Call) (why : Str) (next : s.fail w call why = some s') :
    Frame name s s' call.phase.holds := by
  unfold State.fail at next
  cases phase : call.phase with
  | returned failure | killed =>
    rw [phase] at next
    cases next
  | _ =>
    rw [phase] at next
    cases next
    exact frame_calls _ _

/-- What a step keeps of the versions and of what the call it is of has not made, but for what
someone else puts there or removes. -/
structure Kept (name : Str) (s s' : State) (event : Event) : Prop where
  versions : s.versions <+: s'.versions
  bytes : ∀ version ∈ s.versions, s'.files[version.inode]? = s.files[version.inode]?
  others : ∀ place entry, s.entries place = some entry → place ≠ name →
    (∀ w call, event.actor = some w → s.calls[w]? = some call →
      ∀ inode, call.phase.holds ≠ some (place, inode)) →
    event ≠ .clear place →
    s'.entries place = some entry ∧
      ∀ inode, entry = .file inode → s'.files[inode]? = s.files[inode]?
  path : s'.versions = s.versions → (∀ planted, event ≠ .plant name planted) →
    event ≠ .clear name → s'.entries name = s.entries name

theorem kept_frame (inv : Inv name s) (w : Nat) (call : Call) (there : s.calls[w]? = some call)
    (event : Event) (acts : event.actor = some w) (frame : Frame name s s' call.phase.holds) :
    Kept name s s' event := by
  constructor
  case versions => exact frame.versions
  case bytes =>
    intro version listed
    apply frame.files version.inode (inv.versioned version listed)
    intro temporary holding
    exact (inv.held w temporary _ ⟨call, there, holding⟩).fresh version listed rfl
  case others =>
    intro place entry found other free _
    have own := free w call acts there
    refine ⟨frame.entries place entry found other own, ?_⟩
    rintro inode rfl
    apply frame.files inode (inv.linked place inode found)
    intro temporary holding
    have same := (inv.held w temporary inode ⟨call, there, holding⟩).only place found
    rw [← same] at holding
    exact own inode holding
  case path => exact fun same _ _ => frame.path same

theorem kept_plant (inv : Inv name s) (place : Str) (planted : Planted)
    (free : s.entries place = none ∨ place = name) :
    Kept name s (s.plant name place planted) (.plant place planted) := by
  have files : ∀ inode < s.files.length,
      (s.plant name place planted).files[inode]? = s.files[inode]? := by
    intro inode small
    unfold State.plant
    cases planted with
    | file bytes mode =>
      dsimp only
      split_ifs
      · exact List.getElem?_append_left small
      · exact List.getElem?_append_left small
    | _ =>
      dsimp only
      split_ifs
      · rfl
      · rfl
  have entries (place' : Str) (apart : place' ≠ place) :
      (s.plant name place planted).entries place' = s.entries place' := by
    unfold State.plant
    cases planted with
    | _ =>
      dsimp only
      split_ifs with path
      · subst path
        exact Function.update_of_ne apart ..
      · exact Function.update_of_ne apart ..
  have versions : s.versions <+: (s.plant name place planted).versions := by
    unfold State.plant
    cases planted with
    | _ =>
      dsimp only
      split_ifs with path
      · exact List.prefix_append ..
      · exact List.prefix_rfl
  constructor
  case versions => exact versions
  case bytes => exact fun version listed => files _ (inv.versioned version listed)
  case others =>
    intro place' entry found other _ _
    have apart : place' ≠ place := by
      rintro rfl
      rcases free with absent | path
      · rw [absent] at found
        cases found
      · exact other path
    refine ⟨(entries place' apart).trans found, ?_⟩
    rintro inode rfl
    exact files inode (inv.linked place' inode found)
  case path =>
    intro _ other _
    apply entries
    rintro rfl
    exact other planted rfl

theorem kept_clear (place : Str) : Kept name s (s.link place none) (.clear place) := by
  have entries (place' : Str) (apart : place' ≠ place) :
      (s.link place none).entries place' = s.entries place' := Function.update_of_ne apart ..
  constructor
  case versions => exact List.prefix_rfl
  case bytes => exact fun _ _ => rfl
  case others =>
    intro place' entry found _ _ other
    have apart : place' ≠ place := by
      rintro rfl
      exact other rfl
    exact ⟨(entries place' apart).trans found, fun _ _ => rfl⟩
  case path =>
    intro _ _ other
    apply entries
    rintro rfl
    exact other rfl

theorem kept_same (event : Event) (calls : List Call) (readers : List Reader) :
    Kept name s { s with calls, readers } event :=
  ⟨List.prefix_rfl, fun _ _ => rfl, fun _ _ found _ _ _ => ⟨found, fun _ _ => rfl⟩,
    fun _ _ _ => rfl⟩

theorem step_frame (inv : Inv name s) (event : Event) (next : step name s event = some s') :
    Kept name s s' event := by
  unfold step at next
  cases event with
  | start pid umask contents =>
    cases next
    exact kept_same _ _ s.readers
  | go w =>
    obtain ⟨call, there, next⟩ := Option.bind_eq_some_iff.1 next
    exact kept_frame inv w call there _ rfl (go_frame inv w call there next)
  | write w count =>
    obtain ⟨call, there, next⟩ := Option.bind_eq_some_iff.1 next
    apply kept_frame inv w call there _ rfl
    split at next
    · rename_i temporary inode rest phase
      split_ifs at next
      obtain ⟨file, -, rfl⟩ := Option.map_eq_some_iff.1 next
      rw [phase]
      exact frame_file _ temporary inode _
    · cases next
  | fail w why =>
    obtain ⟨call, there, next⟩ := Option.bind_eq_some_iff.1 next
    exact kept_frame inv w call there _ rfl (fail_frame w call why next)
  | kill w =>
    obtain ⟨call, there, next⟩ := Option.bind_eq_some_iff.1 next
    split at next
    · cases next
    · cases next
    · cases next
      exact kept_same _ _ s.readers
  | opens =>
    dsimp only at next
    split at next
    · cases next
      exact kept_same _ s.calls _
    · cases next
  | read r count =>
    obtain ⟨reader, -, next⟩ := Option.bind_eq_some_iff.1 next
    split_ifs at next
    obtain ⟨file, -, rfl⟩ := Option.map_eq_some_iff.1 next
    exact kept_same _ s.calls _
  | plant place planted =>
    dsimp only at next
    split_ifs at next with free
    cases next
    exact kept_plant inv place planted free
  | clear place =>
    dsimp only at next
    split_ifs at next
    cases next
    exact kept_clear place

theorem temporary_hidden (pid attempt : Nat) :
    (temporaryName name pid attempt).head? = some '.' ∧
      ¬ ".prom".toList <:+ temporaryName name pid attempt := by
  refine ⟨rfl, fun ends => ?_⟩
  have last : ".tmp".toList <:+ temporaryName name pid attempt := by
    unfold temporaryName
    refine ⟨'.' :: (name ++ '.' :: (decimal pid ++ '.' :: decimal attempt)), ?_⟩
    simp only [List.cons_append, List.append_assoc]
  have short : ".tmp".toList <:+ ".prom".toList :=
    List.suffix_of_suffix_length_le last ends (by decide)
  revert short
  decide

structure Whole (name : Str) (s : State) : Prop where
  read : ∀ reader ∈ s.readers, reader.ended = true → ∃ version ∈ s.versions,
    version.inode = reader.inode ∧
      ∃ file, s.files[reader.inode]? = some file ∧ reader.got = file.bytes
  put : ∀ version ∈ s.versions, ∀ w, version.writer = some w → Put s version.inode w
  current : ∀ inode, s.entries name = some (.file inode) →
    s.versions.getLast?.map Version.inode = some inode
  once : ∀ (w : Nat) (call : Call), s.calls[w]? = some call →
    s.versions.countP (·.writer = some w) = if call.phase = .returned none then 1 else 0
  hidden : ∀ call ∈ s.calls, ∀ temporary inode, call.phase.holds = some (temporary, inode) →
    temporary.head? = some '.' ∧ ¬ ".prom".toList <:+ temporary

/-- In every run of writers that go on, fail or are killed, of readers, and of someone else who puts
or removes what is there: a file read to its end is one version of it whole, a version that a write
put is its contents under its mode, a write puts one if it returns well and none if not, and no
other file or name is touched by a write. -/
theorem swap_whole (start : Start) (events : List Event)
    (reached : run (step name) (initial name start) events = some s) :
    Whole name s ∧ ∀ event s', step name s event = some s' → Kept name s s' event := by
  have inv := run_kept start events reached
  refine ⟨?_, fun event s' next => step_frame inv event next⟩
  constructor
  case read =>
    intro reader listed ended
    obtain ⟨version, among, same, file, found, -, whole⟩ := inv.reading reader listed
    exact ⟨version, among, same, file, found, whole ended⟩
  case put => exact inv.put
  case current => exact inv.current
  case once => exact inv.once
  case hidden =>
    intro call listed temporary inode holding
    obtain ⟨w, there⟩ := List.mem_iff_getElem?.1 listed
    obtain ⟨pid, attempt, rfl⟩ := (inv.held w temporary inode ⟨call, there, holding⟩).named
    exact temporary_hidden pid attempt

end

/-- A file with a version of it, and a name that a write was killed with. -/
def sampleStart : Start where
  entries place :=
    if place = ['n'] then some (.file 0)
    else if place = temporaryName ['n'] 5 0 then some (.file 1) else none
  files := [⟨[1, 2], mode⟩, ⟨[9], mode⟩]
  linked := by
    intro place inode
    split_ifs
    · rintro ⟨⟩
      decide
    · rintro ⟨⟩
      decide
    · nofun

/-- A read begins before a write and ends after it; another follows. -/
def sampleRun : List Event :=
  [.start 5 0o077 [7, 8], .opens, .go 0, .go 0, .go 0, .read 0 1, .go 0, .write 0 1, .write 0 1,
    .go 0, .go 0, .go 0, .read 0 5, .read 0 5, .opens, .read 1 5, .read 1 5]

theorem swap_whole_sample :
    ∃ s, s.readers.map (fun reader => (reader.got, reader.ended)) =
        [([1, 2], true), ([7, 8], true)] ∧
      Whole ['n'] s ∧ ∀ event s', step ['n'] s event = some s' → Kept ['n'] s s' event := by
  have reads : ((run (step ['n']) (initial ['n'] sampleStart) sampleRun).any fun s =>
      s.readers.map (fun reader => (reader.got, reader.ended)) =
        [([1, 2], true), ([7, 8], true)]) = true := by
    decide +kernel
  obtain ⟨s, reached, got⟩ := (Option.any_eq_true ..).1 reads
  exact ⟨s, of_decide_eq_true got, swap_whole sampleStart sampleRun reached⟩

end DeepDiffForge.Cli.Textfile
