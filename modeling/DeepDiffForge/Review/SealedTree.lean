import DeepDiffForge.Lib.Lossy
import DeepDiffForge.Lib.Walks
import DeepDiffForge.Review.Fingerprint

/-! The seal of a directory a sandboxed job wrote: a walk that frames every entry below it, and the
copy it can make of them. -/

namespace DeepDiffForge.Review
open Text Frames Fallible Walks DeepDiffForge.Core
open DeepDiffForge.Patch (Collide)

abbrev Name := {bytes : List UInt8 // bytes ≠ [] ∧ 0x2F ∉ bytes}

/-- What `read_dir` lists: each name once, in any order. -/
abbrev Listing := {names : List Name // names.Nodup}

/-- The tree below a root: what is listed in a directory, and what `symlink_metadata` says. -/
structure Disk where
  list : List Name → Except Str Listing
  stat : List Name → Except Str Stat

def joined (path : List Name) : List UInt8 := List.intercalate [0x2F] (path.map (·.1))

def sealEntries : Nat := 100000
def sealBytes : Nat := 2 * 1024 * 1024 * 1024

structure TreeSeal where
  sha256 : Str
  files : Nat
  bytes : Nat
  deriving DecidableEq

/-- Where a copy is to be made: whether something is there, whether its parent is, and which writes
at it (the empty path) and below it fail. -/
structure Target where
  occupied : Bool
  parent : Bool
  refuses : List Name → Option Str

structure Copy where
  target : Target
  made : List (List Name × Stat)

structure Walk where
  files : Nat
  bytes : Nat
  framed : List UInt8
  entries : Nat
  copied : Option Copy

def sortNames (names : List Name) : List Name :=
  names.mergeSort fun one two => decide (one.1 ≤ two.1)

def executable (mode : UInt32) : Bool := mode &&& 0o111 ≠ 0

def Target.write (target : Target) (path : List Name) : Except Str Unit :=
  (target.refuses path).elim (.ok ()) .error

def makeRoot (target : Target) : Except Str Copy := do
  require target.parent "No such file or directory (os error 2)".toList
  require (!target.occupied) "File exists (os error 17)".toList
  target.write []
  return ⟨target, []⟩

def makeNode (copy : Copy) (path : List Name) (stat : Stat) : Except Str Copy := do
  require (path.dropLast = [] ∨ copy.made.any fun node => node.1 = path.dropLast ∧ node.2.isDir)
    "No such file or directory (os error 2)".toList
  require (copy.made.all fun node => node.1 ≠ path) "File exists (os error 17)".toList
  copy.target.write path
  return { copy with made := copy.made ++ [(path, stat)] }

def madeDir : Stat where
  isFile := false
  isDir := true
  mode := 0o40700
  content := .error "Is a directory (os error 21)".toList
  small := by decide

/-- A file as the walk makes it, which only its owner can read or run. -/
def madeFile (runs : Bool) (bytes : List UInt8) : Stat where
  isFile := true
  isDir := false
  mode := if runs then 0o100500 else 0o100400
  content := .ok bytes
  small := by cases runs <;> decide

def copyNode (copied : Option Copy) (path : List Name) (stat : Stat) :
    Except Str (Option Copy) :=
  match copied with
  | none => .ok none
  | some copy => (makeNode copy path stat).map some

def walkEntry (disk : Disk) (directory : List Name) (state : Walk × List (List Name))
    (name : Name) : Except Str (Walk × List (List Name)) := do
  let (walk, subdirectories) := state
  let relative := directory ++ [name]
  let stat ← disk.stat relative
  let encoded := frame (joined relative)
  if stat.isDir then
    let copied ← copyNode walk.copied relative madeDir
    return ({ walk with framed := walk.framed ++ 0x64 :: encoded, copied },
      subdirectories ++ [relative])
  else if stat.isFile then
    let bytes ← readBytes stat (sealBytes - walk.bytes)
    let runs := executable stat.mode
    let copied ← copyNode walk.copied relative (madeFile runs bytes)
    return ({ walk with
      files := walk.files + 1
      bytes := walk.bytes + bytes.length
      framed := walk.framed ++
        (if runs then 0x78 else 0x66) :: (Utf8.encode (sha256Hex bytes) ++ encoded)
      copied }, subdirectories)
  else
    throw ("sandbox output contains a symlink or special file: ".toList ++
      Utf8.lossy (joined relative))

def walkDirectory (disk : Disk) (walk : Walk) (directory : List Name) :
    Except Str (Walk × List (List Name)) := do
  let listing ← disk.list directory
  let names := listing.1.take (sealEntries - walk.entries + 1)
  let entries := walk.entries + names.length
  require (entries ≤ sealEntries) "sandbox output exceeds entry budget".toList
  (sortNames names).foldlM (walkEntry disk directory) ({ walk with entries }, [])

theorem walkEntry_counts (disk : Disk) (directory : List Name) (walk walk' : Walk)
    (subs subs' : List (List Name)) (name : Name)
    (stepped : walkEntry disk directory (walk, subs) name = .ok (walk', subs')) :
    walk'.entries = walk.entries ∧ subs'.length ≤ subs.length + 1 := by
  unfold walkEntry at stepped
  obtain ⟨stat, -, stepped⟩ := (bind_eq_ok ..).1 stepped
  split at stepped
  · obtain ⟨copied, -, stepped⟩ := (bind_eq_ok ..).1 stepped
    cases stepped
    exact ⟨rfl, by rw [List.length_append]; exact Nat.le_refl _⟩
  · split at stepped
    · obtain ⟨bytes, -, stepped⟩ := (bind_eq_ok ..).1 stepped
      obtain ⟨copied, -, stepped⟩ := (bind_eq_ok ..).1 stepped
      cases stepped
      exact ⟨rfl, Nat.le_succ _⟩
    · cases stepped

theorem walkDirectory_counts (disk : Disk) (walk walk' : Walk) (directory : List Name)
    (subs : List (List Name)) (walked : walkDirectory disk walk directory = .ok (walk', subs)) :
    walk.entries + subs.length ≤ walk'.entries ∧ walk'.entries ≤ sealEntries := by
  have run (names : List Name) (walk walk' : Walk) (subs subs' : List (List Name))
      (run : names.foldlM (walkEntry disk directory) (walk, subs) = .ok (walk', subs')) :
      walk'.entries = walk.entries ∧ subs'.length ≤ subs.length + names.length := by
    induction names generalizing walk subs with
    | nil =>
      cases run
      exact ⟨rfl, Nat.le_refl _⟩
    | cons name names ih =>
      rw [List.foldlM_cons] at run
      obtain ⟨⟨middle, between⟩, stepped, run⟩ := (bind_eq_ok ..).1 run
      have first := walkEntry_counts disk directory walk middle subs between name stepped
      have rest := ih middle between run
      refine ⟨rest.1.trans first.1, ?_⟩
      calc subs'.length ≤ between.length + names.length := rest.2
        _ ≤ subs.length + 1 + names.length := Nat.add_le_add_right first.2 _
        _ = subs.length + (name :: names).length := by rw [List.length_cons]; omega
  unfold walkDirectory at walked
  obtain ⟨listing, -, walked⟩ := (bind_eq_ok ..).1 walked
  obtain ⟨_, within, walked⟩ := (bind_eq_ok ..).1 walked
  have within := of_decide_eq_true ((require_ok ..).1 within)
  obtain ⟨same, most⟩ := run _ _ _ _ _ walked
  rw [List.length_nil, Nat.zero_add, sortNames, List.length_mergeSort] at most
  rw [same]
  exact ⟨Nat.add_le_add_left most _, within⟩

/-- The directories still to visit, the next one first. -/
def walkFrom (disk : Disk) (walk : Walk) (pending : List (List Name)) : Except Str Walk :=
  match pending with
  | [] => .ok walk
  | directory :: rest =>
    match _walked : walkDirectory disk walk directory with
    | .error message => .error message
    | .ok (walk', subdirectories) => walkFrom disk walk' (subdirectories ++ rest)
  termination_by (sealEntries - walk.entries) + pending.length
  decreasing_by
    have counts := walkDirectory_counts disk walk walk' directory subdirectories ‹_›
    rw [List.length_append, List.length_cons]
    omega

def openCopy (target : Option Target) : Except Str (Option Copy) :=
  match target with
  | none => .ok none
  | some target => (makeRoot target).map some

def walkTree (disk : Disk) (target : Option Target) : Except Str (TreeSeal × Option Copy) := do
  let root ← disk.stat []
  require root.isDir "sandbox output root is not a real directory".toList
  let copied ← openCopy target
  let walk ← walkFrom disk ⟨0, 0, [], 0, copied⟩ [[]]
  return (⟨sha256Hex walk.framed, walk.files, walk.bytes⟩, walk.copied)

def treeSeal (disk : Disk) : Except Str TreeSeal := (walkTree disk none).map (·.1)

/-! ### What a walk takes of a tree -/

/-- What a walk takes of an entry: a file's bytes, and whether anyone can run it. -/
inductive Kind where
  | dir
  | file (runs : Bool) (content : List UInt8)
  deriving DecidableEq

namespace Kind

def descends : Kind → Bool
  | dir => true
  | file .. => false

def size : Kind → Nat
  | dir => 0
  | file _ content => content.length

def made : Kind → Stat
  | dir => madeDir
  | file runs content => madeFile runs content

def mark : Kind → List UInt8
  | dir => [0x64]
  | file runs content => (if runs then 0x78 else 0x66) :: Utf8.encode (sha256Hex content)

end Kind

def kindOf (stat : Stat) : Option Kind :=
  if stat.isDir then some .dir
  else if stat.isFile then stat.content.toOption.map (.file (executable stat.mode))
  else none

def Disk.world (disk : Disk) : Walks.World Name Kind where
  names dir := (disk.list dir).toOption.map fun listing => sortNames listing.1
  kind path := (disk.stat path).toOption.bind kindOf

def framedEntry (entry : List Name × Kind) : List UInt8 := entry.2.mark ++ frame (joined entry.1)

def Copy.after (copy : Copy) (found : List (List Name × Kind)) : Copy :=
  { copy with made := copy.made ++ found.map fun entry => (entry.1, entry.2.made) }

def Walk.after (walk : Walk) (found : List (List Name × Kind)) : Walk :=
  { walk with
    files := walk.files + found.countP fun entry => !entry.2.descends
    bytes := walk.bytes + (found.map fun entry => entry.2.size).sum
    framed := walk.framed ++ found.flatMap framedEntry
    copied := walk.copied.map (·.after found) }

/-- What a walk can take: files that fit what is left, and writes that do not fail. -/
structure Walk.Takes (walk : Walk) (found : List (List Name × Kind)) : Prop where
  bytes : (walk.after found).bytes ≤ sealBytes
  written : ∀ copy ∈ walk.copied, ∀ entry ∈ found, copy.target.refuses entry.1 = none

theorem after_nil (walk : Walk) : walk.after [] = walk := by
  obtain ⟨files, bytes, framed, entries, copied⟩ := walk
  simp only [Walk.after, Copy.after, List.countP_nil, List.map_nil, List.sum_nil,
    List.flatMap_nil, List.append_nil, Nat.add_zero, Option.map_id']

theorem after_append (walk : Walk) (found rest : List (List Name × Kind)) :
    (walk.after found).after rest = walk.after (found ++ rest) := by
  simp only [Walk.after, Copy.after, List.countP_append, List.map_append, List.sum_append,
    List.flatMap_append, List.append_assoc, Nat.add_assoc, Option.map_map, Function.comp_def]

theorem takes_nil (walk : Walk) (spent : walk.bytes ≤ sealBytes) : walk.Takes [] :=
  ⟨spent, fun _ _ _ listed => absurd listed List.not_mem_nil⟩

theorem takes_append (walk : Walk) (found rest : List (List Name × Kind)) :
    walk.Takes (found ++ rest) ↔ walk.Takes found ∧ (walk.after found).Takes rest := by
  constructor
  · rintro ⟨bytes, written⟩
    rw [← after_append] at bytes
    refine ⟨⟨(Nat.le_add_right _ _).trans bytes, fun copy held entry listed =>
      written copy held entry (List.mem_append_left _ listed)⟩, bytes, fun copy held entry listed => ?_⟩
    obtain ⟨before, had, rfl⟩ := Option.mem_map.1 held
    exact written before had entry (List.mem_append_right _ listed)
  · rintro ⟨first, second⟩
    refine ⟨?_, fun copy held entry listed => ?_⟩
    · rw [← after_append]
      exact second.bytes
    · rcases List.mem_append.1 listed with here | later
      · exact first.written copy held entry here
      · exact second.written _ (Option.mem_map_of_mem _ held) entry later

structure Free (made : List (List Name × Stat)) (path : List Name) : Prop where
  parent : path.dropLast = [] ∨
    (made.any fun node => node.1 = path.dropLast ∧ node.2.isDir) = true
  absent : ∀ node ∈ made, node.1 ≠ path

theorem write_ok (target : Target) (path : List Name) :
    target.write path = .ok () ↔ target.refuses path = none := by
  unfold Target.write
  cases target.refuses path with
  | none => exact iff_of_true rfl rfl
  | some message => exact iff_of_false (fun same => by cases same) (Option.some_ne_none _)

theorem copyNode_ok (copied next : Option Copy) (path : List Name) (kind : Kind)
    (free : ∀ copy ∈ copied, Free copy.made path) :
    copyNode copied path kind.made = .ok next ↔
      (∀ copy ∈ copied, copy.target.refuses path = none) ∧
        next = copied.map (·.after [(path, kind)]) := by
  cases copied with
  | none =>
    constructor
    · intro same
      cases same
      exact ⟨fun _ held => absurd held (Option.not_mem_none _), rfl⟩
    · rintro ⟨-, rfl⟩
      rfl
  | some copy =>
    have there := free copy rfl
    have fresh : (copy.made.all fun node => node.1 ≠ path) = true :=
      List.all_eq_true.2 fun node listed => decide_eq_true (there.absent node listed)
    have made : makeNode copy path kind.made =
        copy.target.write path >>= fun _ => .ok (copy.after [(path, kind)]) := by
      unfold makeNode
      rw [(require_ok ..).2 (decide_eq_true there.parent), (require_ok ..).2 fresh]
      rfl
    change (makeNode copy path kind.made).map some = .ok next ↔ _
    rw [made]
    constructor
    · intro written
      cases answer : copy.target.write path with
      | error message =>
        rw [answer] at written
        cases written
      | ok =>
        rw [answer] at written
        cases written
        refine ⟨fun copy' held => ?_, rfl⟩
        cases held
        exact (write_ok ..).1 answer
    · rintro ⟨allowed, rfl⟩
      rw [(write_ok ..).2 (allowed copy rfl)]
      rfl

theorem readBytes_ok (stat : Stat) (spent cap : Nat) (bytes : List UInt8) (within : spent ≤ cap) :
    readBytes stat (cap - spent) = .ok bytes ↔
      stat.content = .ok bytes ∧ spent + bytes.length ≤ cap := by
  unfold readBytes
  rw [bind_eq_ok]
  constructor
  · rintro ⟨own, content, read⟩
    obtain ⟨_, fits, read⟩ := (bind_eq_ok ..).1 read
    cases read
    have fits := of_decide_eq_true ((require_ok ..).1 fits)
    exact ⟨content, by omega⟩
  · rintro ⟨content, fits⟩
    refine ⟨bytes, content, (bind_eq_ok ..).2 ⟨(), (require_ok ..).2 (decide_eq_true ?_), rfl⟩⟩
    omega

theorem walk_after_dir (walk : Walk) (path : List Name) :
    walk.after [(path, .dir)] =
      { walk with
        framed := walk.framed ++ 0x64 :: frame (joined path)
        copied := walk.copied.map (·.after [(path, .dir)]) } := by
  unfold Walk.after
  rw [List.flatMap_singleton]
  rfl

theorem walk_after_file (walk : Walk) (path : List Name) (runs : Bool) (content : List UInt8) :
    walk.after [(path, .file runs content)] =
      { walk with
        files := walk.files + 1
        bytes := walk.bytes + content.length
        framed := walk.framed ++
          (if runs then 0x78 else 0x66) :: (Utf8.encode (sha256Hex content) ++ frame (joined path))
        copied := walk.copied.map (·.after [(path, .file runs content)]) } := by
  unfold Walk.after
  rw [List.flatMap_singleton, List.map_singleton, List.sum_singleton]
  rfl

theorem kind_found (disk : Disk) (path : List Name) (stat : Stat)
    (found : disk.stat path = .ok stat) : disk.world.kind path = kindOf stat := by
  change (disk.stat path).toOption.bind kindOf = kindOf stat
  rw [found]
  rfl

theorem kind_eq_some (disk : Disk) (path : List Name) (kind : Kind) :
    disk.world.kind path = some kind ↔ ∃ stat, disk.stat path = .ok stat ∧
      kindOf stat = some kind := by
  cases found : disk.stat path with
  | error message =>
    have absent : disk.world.kind path = none := by
      change (disk.stat path).toOption.bind kindOf = none
      rw [found]
      rfl
    rw [absent]
    constructor
    · exact fun same => (Option.some_ne_none _ same.symm).elim
    · rintro ⟨_, same, -⟩
      cases same
  | ok stat =>
    rw [kind_found disk path stat found]
    constructor
    · exact fun same => ⟨stat, rfl, same⟩
    · rintro ⟨_, same, kind⟩
      cases same
      exact kind

theorem walkEntry_ok (disk : Disk) (directory : List Name) (walk : Walk)
    (subs : List (List Name)) (name : Name) (next : Walk × List (List Name))
    (spent : walk.bytes ≤ sealBytes)
    (free : ∀ copy ∈ walk.copied, Free copy.made (directory ++ [name])) :
    walkEntry disk directory (walk, subs) name = .ok next ↔
      ∃ kind, disk.world.kind (directory ++ [name]) = some kind ∧
        walk.Takes [(directory ++ [name], kind)] ∧
        next = (walk.after [(directory ++ [name], kind)],
          subs ++ directories Kind.descends [(directory ++ [name], kind)]) := by
  have copied (kind : Kind) (next : Option Copy) :=
    copyNode_ok walk.copied next (directory ++ [name]) kind free
  have written (kind : Kind) (allowed : ∀ copy ∈ walk.copied,
      copy.target.refuses (directory ++ [name]) = none) : ∀ copy ∈ walk.copied,
        ∀ entry ∈ [(directory ++ [name], kind)], copy.target.refuses entry.1 = none :=
    fun copy held => List.forall_mem_singleton.2 (allowed copy held)
  have allowed (kind : Kind) (takes : walk.Takes [(directory ++ [name], kind)]) :
      ∀ copy ∈ walk.copied, copy.target.refuses (directory ++ [name]) = none :=
    fun copy held => takes.written copy held _ List.mem_cons_self
  unfold walkEntry
  dsimp only
  rw [bind_eq_ok]
  constructor
  · rintro ⟨stat, found, stepped⟩
    rw [kind_found disk _ stat found]
    unfold kindOf
    split at stepped
    · rename_i isDir
      obtain ⟨after, made, stepped⟩ := (bind_eq_ok ..).1 stepped
      obtain ⟨free', rfl⟩ := (copied .dir after).1 made
      cases stepped
      refine ⟨.dir, if_pos isDir, ⟨spent, written .dir free'⟩, ?_⟩
      rw [walk_after_dir]
      rfl
    · rename_i other
      split at stepped
      · rename_i isFile
        obtain ⟨bytes, read, stepped⟩ := (bind_eq_ok ..).1 stepped
        obtain ⟨content, within⟩ := (readBytes_ok stat _ _ bytes spent).1 read
        obtain ⟨after, made, stepped⟩ := (bind_eq_ok ..).1 stepped
        obtain ⟨free', rfl⟩ := (copied (.file (executable stat.mode) bytes) after).1 made
        cases stepped
        refine ⟨.file (executable stat.mode) bytes, ?_, ⟨?_, written _ free'⟩, ?_⟩
        · rw [if_neg other, if_pos isFile, content]
          rfl
        · rw [walk_after_file]
          exact within
        · rw [walk_after_file]
          exact congrArg _ (List.append_nil _).symm
      · cases stepped
  · rintro ⟨kind, there, takes, rfl⟩
    obtain ⟨stat, found, kind'⟩ := (kind_eq_some disk _ kind).1 there
    refine ⟨stat, found, ?_⟩
    have made := (copied kind _).2 ⟨allowed kind takes, rfl⟩
    unfold kindOf at kind'
    split at kind'
    · rename_i isDir
      cases kind'
      rw [if_pos isDir, walk_after_dir]
      exact (bind_eq_ok ..).2 ⟨_, made, rfl⟩
    · rename_i other
      split at kind'
      · rename_i isFile
        obtain ⟨bytes, content, rfl⟩ := Option.map_eq_some_iff.1 kind'
        have within := takes.bytes
        rw [walk_after_file] at within ⊢
        have content : stat.content = .ok bytes := by
          revert content
          cases stat.content with
          | error => exact fun same => by cases same
          | ok => exact fun same => by cases same; rfl
        have read := (readBytes_ok stat _ _ bytes spent).2 ⟨content, within⟩
        rw [if_neg other, if_pos isFile, read]
        refine (bind_eq_ok ..).2 ⟨_, rfl, (bind_eq_ok ..).2 ⟨_, made, ?_⟩⟩
        exact congrArg (fun subs => Except.ok (_, subs)) (List.append_nil _).symm
      · cases kind'

theorem Free.next (made : List (List Name × Stat)) (directory : List Name) (name other : Name)
    (stat : Stat) (free : Free made (directory ++ [other])) (apart : name ≠ other) :
    Free (made ++ [(directory ++ [name], stat)]) (directory ++ [other]) := by
  constructor
  · refine free.parent.imp_right fun there => ?_
    rw [List.any_append, there]
    rfl
  · intro node listed
    rcases List.mem_append.1 listed with old | new
    · exact free.absent node old
    · cases List.mem_singleton.1 new
      intro same
      exact apart (List.cons.inj (List.append_cancel_left same)).1

theorem walkNames_ok (disk : Disk) (directory names : List Name) (walk : Walk)
    (subs : List (List Name)) (next : Walk × List (List Name)) (spent : walk.bytes ≤ sealBytes)
    (distinct : names.Nodup)
    (free : ∀ copy ∈ walk.copied, ∀ name ∈ names, Free copy.made (directory ++ [name])) :
    names.foldlM (walkEntry disk directory) (walk, subs) = .ok next ↔
      ∃ found, Entries disk.world directory names found ∧ walk.Takes found ∧
        next = (walk.after found, subs ++ directories Kind.descends found) := by
  induction names generalizing walk subs next with
  | nil =>
    constructor
    · intro run
      cases run
      refine ⟨[], .nil, takes_nil walk spent, ?_⟩
      rw [after_nil]
      exact congrArg _ (List.append_nil _).symm
    · rintro ⟨found, each, -, rfl⟩
      cases each
      rw [after_nil]
      exact congrArg (fun subs => Except.ok (_, subs)) (List.append_nil _).symm
  | cons name names ih =>
    obtain ⟨apart, distinct⟩ := List.nodup_cons.1 distinct
    have first (copy : Copy) (held : copy ∈ walk.copied) := List.forall_mem_cons.1 (free copy held)
    have rest (kind : Kind) :
        ∀ copy ∈ (walk.after [(directory ++ [name], kind)]).copied, ∀ other ∈ names,
          Free copy.made (directory ++ [other]) := by
      intro copy held other listed
      obtain ⟨before, had, rfl⟩ := Option.mem_map.1 held
      apply ((first before had).2 other listed).next
      rintro rfl
      exact apart listed
    rw [List.foldlM_cons, bind_eq_ok]
    constructor
    · rintro ⟨middle, stepped, run⟩
      obtain ⟨kind, there, takes, rfl⟩ := (walkEntry_ok disk directory walk subs name middle spent
        fun copy held => (first copy held).1).1 stepped
      obtain ⟨found, each, more, rfl⟩ := (ih _ _ _ takes.bytes distinct (rest kind)).1 run
      refine ⟨(directory ++ [name], kind) :: found, .cons ⟨rfl, there⟩ each,
        (takes_append walk [_] found).2 ⟨takes, more⟩, ?_⟩
      rw [after_append, List.append_assoc, ← directories_append]
      rfl
    · rintro ⟨found, each, takes, rfl⟩
      cases each with
      | cons here later =>
        rename_i entry found
        obtain ⟨path, kind⟩ := entry
        obtain ⟨rfl, there⟩ := here
        have split : (directory ++ [name], kind) :: found =
            [(directory ++ [name], kind)] ++ found := rfl
        rw [split, takes_append] at takes
        rw [split, ← after_append, directories_append, ← List.append_assoc]
        refine ⟨_, (walkEntry_ok disk directory walk subs name _ spent
          fun copy held => (first copy held).1).2 ⟨kind, there, takes.1, rfl⟩, ?_⟩
        exact (ih _ _ _ takes.1.bytes distinct (rest kind)).2 ⟨found, later, takes.2, rfl⟩

theorem sortNames_perm (names : List Name) : (sortNames names).Perm names := List.mergeSort_perm ..

theorem sortNames_sorted (names : List Name) :
    (sortNames names).Pairwise fun one two => one.1 ≤ two.1 := by
  have sorted := @List.pairwise_mergeSort Name (fun one two => decide (one.1 ≤ two.1))
    (fun one two three first second => by
      rw [decide_eq_true_eq] at first second ⊢
      exact List.le_trans first second)
    (fun one two => by
      rw [Bool.or_eq_true, decide_eq_true_eq, decide_eq_true_eq]
      exact List.le_total _ _)
    names
  exact sorted.imp fun less => of_decide_eq_true less

theorem names_eq_some (disk : Disk) (directory names : List Name) :
    disk.world.names directory = some names ↔
      ∃ listing, disk.list directory = .ok listing ∧ names = sortNames listing.1 := by
  change (disk.list directory).toOption.map (fun listing => sortNames listing.1) = some names ↔ _
  rw [Option.map_eq_some_iff]
  constructor
  · rintro ⟨listing, listed, rfl⟩
    refine ⟨listing, ?_, rfl⟩
    revert listed
    cases disk.list directory with
    | error => exact fun same => by cases same
    | ok => exact fun same => by cases same; rfl
  · rintro ⟨listing, listed, rfl⟩
    exact ⟨listing, by rw [listed]; rfl, rfl⟩

def Walk.counted (walk : Walk) (found : List (List Name × Kind)) : Walk :=
  { walk.after found with entries := walk.entries + found.length }

theorem counted_append (walk : Walk) (found rest : List (List Name × Kind)) :
    (walk.counted found).counted rest = walk.counted (found ++ rest) := by
  have after := after_append walk found rest
  have entries : walk.entries + found.length + rest.length =
      walk.entries + (found ++ rest).length := by
    rw [List.length_append, Nat.add_assoc]
  unfold Walk.counted
  rw [← after, ← entries]
  rfl

theorem walkDirectory_ok (disk : Disk) (walk : Walk) (directory : List Name)
    (next : Walk × List (List Name)) (spent : walk.bytes ≤ sealBytes)
    (room : walk.entries ≤ sealEntries)
    (free : ∀ copy ∈ walk.copied, ∀ name, Free copy.made (directory ++ [name])) :
    walkDirectory disk walk directory = .ok next ↔
      ∃ names found, disk.world.names directory = some names ∧
        Entries disk.world directory names found ∧ walk.entries + found.length ≤ sealEntries ∧
        walk.Takes found ∧
        next = (walk.counted found, directories Kind.descends found) := by
  have whole (names : List Name) (within : walk.entries + names.length ≤ sealEntries) :
      names.take (sealEntries - walk.entries + 1) = names :=
    List.take_of_length_le (by omega)
  have read (listing : Listing) (entries : Nat) := walkNames_ok disk directory
    (sortNames listing.1) { walk with entries } [] next spent
    ((sortNames_perm listing.1).nodup_iff.2 listing.2) fun copy held name _ => free copy held name
  unfold walkDirectory
  rw [bind_eq_ok]
  constructor
  · rintro ⟨listing, listed, walked⟩
    obtain ⟨_, within, walked⟩ := (bind_eq_ok ..).1 walked
    have within := of_decide_eq_true ((require_ok ..).1 within)
    have fits : walk.entries + listing.1.length ≤ sealEntries := by
      rw [List.length_take] at within
      omega
    rw [whole _ fits] at walked
    obtain ⟨found, each, takes, rfl⟩ := (read listing _).1 walked
    have length : found.length = listing.1.length := by
      rw [← each.length_eq, sortNames, List.length_mergeSort]
    refine ⟨_, found, (names_eq_some ..).2 ⟨listing, listed, rfl⟩, each, ?_,
      ⟨takes.bytes, takes.written⟩, ?_⟩
    · rw [length]
      exact fits
    · unfold Walk.counted
      rw [length]
      rfl
  · rintro ⟨names, found, listed, each, within, takes, rfl⟩
    obtain ⟨listing, there, rfl⟩ := (names_eq_some ..).1 listed
    have length : found.length = listing.1.length := by
      rw [← each.length_eq, sortNames, List.length_mergeSort]
    rw [length] at within
    refine ⟨listing, there, ?_⟩
    dsimp only
    rw [whole _ within]
    refine (bind_eq_ok ..).2 ⟨(), (require_ok ..).2 (decide_eq_true within), ?_⟩
    refine (read listing _).2 ⟨found, each, ⟨takes.bytes, takes.written⟩, ?_⟩
    unfold Walk.counted
    rw [length]
    rfl

structure Copies (made : List (List Name × Stat)) (pending : List (List Name)) : Prop where
  ready : Ready (made.map (·.1)) pending
  parents : ∀ directory ∈ pending, directory = [] ∨
    (made.any fun node => node.1 = directory ∧ node.2.isDir) = true

theorem Copies.free (made : List (List Name × Stat)) (directory : List Name)
    (pending : List (List Name)) (copies : Copies made (directory :: pending)) (name : Name) :
    Free made (directory ++ [name]) := by
  constructor
  · rw [List.dropLast_concat]
    exact copies.parents directory List.mem_cons_self
  · rintro node listed same
    apply ready_child _ _ _ name copies.ready
    rw [← same]
    exact List.mem_map_of_mem listed

theorem Copies.next (disk : Disk) (made : List (List Name × Stat)) (directory names : List Name)
    (pending : List (List Name)) (found : List (List Name × Kind))
    (copies : Copies made (directory :: pending)) (each : Entries disk.world directory names found)
    (distinct : names.Nodup) :
    Copies (made ++ found.map fun entry => (entry.1, entry.2.made))
      (directories Kind.descends found ++ pending) := by
  constructor
  · rw [List.map_append, List.map_map]
    exact ready_next Kind.descends disk.world _ _ _ _ _ copies.ready each distinct
  · intro path listed
    rw [List.any_append, Bool.or_eq_true]
    rcases List.mem_append.1 listed with own | other
    · obtain ⟨kind, entry, inside⟩ := (mem_directories ..).1 own
      refine .inr (.inr (List.any_eq_true.2 ⟨(path, kind.made), ?_, ?_⟩))
      · exact List.mem_map_of_mem (f := fun entry => (entry.1, entry.2.made)) entry
      · cases kind with
        | dir => exact decide_eq_true ⟨rfl, rfl⟩
        | file => cases inside
    · exact (copies.parents path (.tail _ other)).imp_right .inl

theorem walkFrom_nil (disk : Disk) (walk : Walk) : walkFrom disk walk [] = .ok walk := by
  unfold walkFrom
  rfl

theorem walkFrom_cons (disk : Disk) (walk : Walk) (directory : List Name)
    (rest : List (List Name)) :
    walkFrom disk walk (directory :: rest) =
      walkDirectory disk walk directory >>= fun next => walkFrom disk next.1 (next.2 ++ rest) := by
  rw [walkFrom]
  split
  · rename_i message walked
    rw [walked]
    rfl
  · rename_i walk' subs walked
    rw [walked]
    rfl

/-- A walk goes on to its end exactly when every directory below the ones still to visit can be
read, holds directories and files only, all of them fit what may be sealed, and none is refused
where they are copied. -/
theorem walkFrom_ok (disk : Disk) (walk : Walk) (pending : List (List Name)) (last : Walk)
    (spent : walk.bytes ≤ sealBytes) (room : walk.entries ≤ sealEntries)
    (copies : ∀ copy ∈ walk.copied, Copies copy.made pending) :
    walkFrom disk walk pending = .ok last ↔
      ∃ found, Visits Kind.descends disk.world pending found ∧
        walk.entries + found.length ≤ sealEntries ∧ walk.Takes found ∧
        last = walk.counted found := by
  induction walk, pending using walkFrom.induct disk with
  | case1 walk =>
    rw [walkFrom_nil]
    constructor
    · intro walked
      cases walked
      refine ⟨[], .done, room, takes_nil _ spent, ?_⟩
      rw [Walk.counted, after_nil]
      rfl
    · rintro ⟨found, visits, -, -, rfl⟩
      cases visits
      rw [Walk.counted, after_nil]
      rfl
  | case2 walk directory rest message refused =>
    have free (copy : Copy) (held : copy ∈ walk.copied) (name : Name) :=
      (copies copy held).free copy.made directory rest name
    rw [walkFrom_cons, refused]
    constructor
    · intro walked
      cases walked
    · rintro ⟨entries, visits, within, takes, rfl⟩
      cases visits with
      | next _ names _ found later listed each visits =>
        rw [List.length_append] at within
        rw [takes_append] at takes
        have walked := (walkDirectory_ok disk walk directory _ spent room free).2
          ⟨names, found, listed, each, by omega, takes.1, rfl⟩
        rw [refused] at walked
        cases walked
  | case3 walk directory rest walk' subs walked ih =>
    have free (copy : Copy) (held : copy ∈ walk.copied) (name : Name) :=
      (copies copy held).free copy.made directory rest name
    obtain ⟨names, found, listed, each, within, takes, same⟩ :=
      (walkDirectory_ok disk walk directory _ spent room free).1 walked
    obtain ⟨rfl, rfl⟩ := Prod.mk.inj same
    have distinct : names.Nodup := by
      obtain ⟨listing, -, rfl⟩ := (names_eq_some ..).1 listed
      exact (sortNames_perm listing.1).nodup_iff.2 listing.2
    have following : ∀ copy ∈ (walk.counted found).copied,
        Copies copy.made (directories Kind.descends found ++ rest) := by
      intro copy held
      obtain ⟨before, had, rfl⟩ := Option.mem_map.1 held
      exact (copies before had).next disk before.made directory names rest found each distinct
    rw [walkFrom_cons, walked]
    refine (ih takes.bytes within following).trans ?_
    constructor
    · rintro ⟨others, visits, within', takes', rfl⟩
      refine ⟨found ++ others, .next directory names rest found others listed each visits, ?_, ?_,
        counted_append walk found others⟩
      · rw [List.length_append, ← Nat.add_assoc]
        exact within'
      · exact (takes_append ..).2 ⟨takes, takes'.bytes, takes'.written⟩
    · rintro ⟨entries, visits, within', takes', rfl⟩
      cases visits with
      | next _ names' _ found' others listed' each' visits =>
        cases listed.symm.trans listed'
        obtain rfl := entries_unique disk.world disk.world directory names found found' each each'
          fun _ _ => rfl
        rw [List.length_append, ← Nat.add_assoc] at within'
        have later := ((takes_append ..).1 takes').2
        exact ⟨others, visits, within', ⟨later.bytes, later.written⟩,
          (counted_append walk found others).symm⟩

def framedEntries (found : List (List Name × Kind)) : List UInt8 := found.flatMap framedEntry

def sealOf (found : List (List Name × Kind)) : TreeSeal where
  sha256 := sha256Hex (framedEntries found)
  files := found.countP fun entry => !entry.2.descends
  bytes := (found.map fun entry => entry.2.size).sum

/-- A tree that can be sealed, by the entries a walk visits: directories and files that can be
read, and no more of them than fit. -/
structure Sealable (disk : Disk) (found : List (List Name × Kind)) : Prop where
  root : ∃ stat, disk.stat [] = .ok stat ∧ stat.isDir = true
  visits : Visits Kind.descends disk.world [[]] found
  entries : found.length ≤ sealEntries
  bytes : (found.map fun entry => entry.2.size).sum ≤ sealBytes

theorem counted_start (copied : Option Copy) (found : List (List Name × Kind)) :
    Walk.counted ⟨0, 0, [], 0, copied⟩ found =
      ⟨(sealOf found).files, (sealOf found).bytes, framedEntries found, found.length,
        copied.map (·.after found)⟩ := by
  simp only [Walk.counted, Walk.after, Nat.zero_add, List.nil_append]
  rfl

/-- A target where what is held can be copied: nothing is there, its parent is, and no write to it
fails. -/
structure Target.Clear (target : Target) (holds : List Name → Kind → Prop) : Prop where
  vacant : target.occupied = false
  parent : target.parent = true
  root : target.refuses [] = none
  below : ∀ path kind, holds path kind → target.refuses path = none

def Listed (found : List (List Name × Kind)) (path : List Name) (kind : Kind) : Prop :=
  (path, kind) ∈ found

theorem makeRoot_ok (target : Target) (copy : Copy) :
    makeRoot target = .ok copy ↔
      (target.occupied = false ∧ target.parent = true ∧ target.refuses [] = none) ∧
        copy = ⟨target, []⟩ := by
  unfold makeRoot
  constructor
  · intro made
    obtain ⟨_, parent, made⟩ := (bind_eq_ok ..).1 made
    obtain ⟨_, vacant, made⟩ := (bind_eq_ok ..).1 made
    obtain ⟨_, written, made⟩ := (bind_eq_ok ..).1 made
    cases made
    have vacant := (require_ok ..).1 vacant
    rw [Bool.not_eq_true'] at vacant
    exact ⟨⟨vacant, (require_ok ..).1 parent, (write_ok ..).1 written⟩, rfl⟩
  · rintro ⟨⟨vacant, parent, written⟩, rfl⟩
    have vacant : (!target.occupied) = true := by rw [vacant]; rfl
    exact (bind_eq_ok ..).2 ⟨(), (require_ok ..).2 parent, (bind_eq_ok ..).2
      ⟨(), (require_ok ..).2 vacant, (bind_eq_ok ..).2 ⟨(), (write_ok ..).2 written, rfl⟩⟩⟩

theorem walkStart_ok (disk : Disk) (copied : Option Copy) (last : Walk)
    (bare : ∀ copy ∈ copied, copy.made = []) :
    walkFrom disk ⟨0, 0, [], 0, copied⟩ [[]] = .ok last ↔
      ∃ found, Visits Kind.descends disk.world [[]] found ∧ found.length ≤ sealEntries ∧
        (found.map fun entry => entry.2.size).sum ≤ sealBytes ∧
        (∀ copy ∈ copied, ∀ entry ∈ found, copy.target.refuses entry.1 = none) ∧
        last = ⟨(sealOf found).files, (sealOf found).bytes, framedEntries found, found.length,
          copied.map (·.after found)⟩ := by
  have copies : ∀ copy ∈ copied, Copies copy.made [[]] := by
    intro copy held
    rw [bare copy held]
    refine ⟨⟨List.pairwise_singleton _ _, ?_⟩, fun directory listed => ?_⟩
    · exact fun _ _ path listed => absurd listed List.not_mem_nil
    · exact .inl (List.mem_singleton.1 listed)
  rw [walkFrom_ok disk _ _ _ (Nat.zero_le _) (Nat.zero_le _) copies]
  simp only [counted_start, Nat.zero_add]
  constructor
  · rintro ⟨found, visits, entries, takes, rfl⟩
    have bytes : 0 + (found.map fun entry => entry.2.size).sum ≤ sealBytes := takes.bytes
    rw [Nat.zero_add] at bytes
    exact ⟨found, visits, entries, bytes, takes.written, rfl⟩
  · rintro ⟨found, visits, entries, bytes, written, rfl⟩
    rw [← Nat.zero_add (List.sum _)] at bytes
    exact ⟨found, visits, entries, ⟨bytes, written⟩, rfl⟩

theorem walkTree_ok (disk : Disk) (place : Option Target) (result : TreeSeal × Option Copy) :
    walkTree disk place = .ok result ↔
      ∃ found, Sealable disk found ∧ (∀ target ∈ place, target.Clear (Listed found)) ∧
        result = (sealOf found, place.map fun target => Copy.after ⟨target, []⟩ found) := by
  unfold walkTree
  constructor
  · intro made
    obtain ⟨root, there, made⟩ := (bind_eq_ok ..).1 made
    obtain ⟨_, isDir, made⟩ := (bind_eq_ok ..).1 made
    obtain ⟨copied, opened, made⟩ := (bind_eq_ok ..).1 made
    obtain ⟨last, run, made⟩ := (bind_eq_ok ..).1 made
    cases place with
    | none =>
      cases opened
      obtain ⟨found, visits, entries, bytes, -, rfl⟩ :=
        (walkStart_ok disk none last fun _ held => absurd held (Option.not_mem_none _)).1 run
      cases made
      exact ⟨found, ⟨⟨root, there, (require_ok ..).1 isDir⟩, visits, entries, bytes⟩,
        fun _ held => absurd held (Option.not_mem_none _), rfl⟩
    | some target =>
      cases created : makeRoot target with
      | error message =>
        rw [openCopy, created] at opened
        cases opened
      | ok copy =>
        rw [openCopy, created] at opened
        obtain ⟨⟨vacant, parent, rooted⟩, rfl⟩ := (makeRoot_ok target copy).1 created
        cases opened
        obtain ⟨found, visits, entries, bytes, written, rfl⟩ :=
          (walkStart_ok disk (some ⟨target, []⟩) last (by simp)).1 run
        cases made
        refine ⟨found, ⟨⟨root, there, (require_ok ..).1 isDir⟩, visits, entries, bytes⟩, ?_, rfl⟩
        intro own held
        obtain rfl := Option.some.inj held
        exact ⟨vacant, parent, rooted, fun path kind listed => written _ rfl (path, kind) listed⟩
  · rintro ⟨found, ⟨⟨root, there, isDir⟩, visits, entries, bytes⟩, clear, rfl⟩
    refine (bind_eq_ok ..).2 ⟨root, there, (bind_eq_ok ..).2 ⟨(), (require_ok ..).2 isDir, ?_⟩⟩
    cases place with
    | none =>
      have absent (holds : Copy → Prop) : ∀ copy ∈ (none : Option Copy), holds copy :=
        fun _ held => absurd held (Option.not_mem_none _)
      exact (bind_eq_ok ..).2 ⟨none, rfl, (bind_eq_ok ..).2 ⟨_, (walkStart_ok disk none _
        (absent _)).2 ⟨found, visits, entries, bytes, absent _, rfl⟩, rfl⟩⟩
    | some target =>
      obtain ⟨vacant, parent, rooted, below⟩ := clear target rfl
      have created := (makeRoot_ok target _).2 ⟨⟨vacant, parent, rooted⟩, rfl⟩
      have opened : openCopy (some target) = .ok (some ⟨target, []⟩) := by
        rw [openCopy, created]
        rfl
      refine (bind_eq_ok ..).2 ⟨_, opened, (bind_eq_ok ..).2 ⟨_, (walkStart_ok disk
        (some ⟨target, []⟩) _ (by simp)).2
          ⟨found, visits, entries, bytes, ?_, rfl⟩, rfl⟩⟩
      intro copy held
      obtain rfl := Option.some.inj held
      exact fun entry listed => below entry.1 entry.2 listed

theorem treeSeal_ok (disk : Disk) (sealed : TreeSeal) :
    treeSeal disk = .ok sealed ↔ ∃ found, Sealable disk found ∧ sealed = sealOf found := by
  have walked := walkTree_ok disk none
  have anywhere (found : List (List Name × Kind)) :
      ∀ target ∈ (none : Option Target), target.Clear (Listed found) :=
    fun _ held => absurd held (Option.not_mem_none _)
  unfold treeSeal
  cases run : walkTree disk none with
  | error message =>
    constructor
    · intro same
      cases same
    · rintro ⟨found, sealable, rfl⟩
      have run' := (walked _).2 ⟨found, sealable, anywhere found, rfl⟩
      rw [run] at run'
      cases run'
  | ok result =>
    obtain ⟨found, sealable, -, rfl⟩ := (walked result).1 run
    constructor
    · intro same
      cases same
      exact ⟨found, sealable, rfl⟩
    · rintro ⟨found', sealable', rfl⟩
      have run' := (walked _).2 ⟨found', sealable', anywhere found', rfl⟩
      rw [run] at run'
      rw [Except.ok.inj run']
      rfl

end DeepDiffForge.Review
