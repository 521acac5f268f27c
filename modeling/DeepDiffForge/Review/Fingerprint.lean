import DeepDiffForge.Core.Snapshot
import DeepDiffForge.Lib.Json
import DeepDiffForge.Patch.Addresses
import DeepDiffForge.Review.Gate

/-! The fingerprint of a source tree over a fixed inventory, and what it tells of the tree. -/

namespace DeepDiffForge.Review
open Text Frames Fallible DeepDiffForge.Core
open DeepDiffForge.Patch (Collide)

/-- What `stat` and a read say of a path: its mode has 16 bits. -/
structure Stat where
  isFile : Bool
  isDir : Bool
  mode : UInt32
  content : Except Str (List UInt8)
  small : mode.toNat < 2 ^ 16

/-- What `symlink_metadata` says of each path below a root; a path that is not found has none. -/
abbrev Tree := List Str → Except Str (Option Stat)

/-- Git HEAD and the paths, each once, in the order of their bytes. -/
structure Inventory where
  head : Str
  paths : List Str
  ordered : paths.Pairwise fun one two => Utf8.encode one < Utf8.encode two
  sized : ∀ path ∈ paths, (Utf8.encode path).length < 2 ^ 64

/-- The names of a relative path without `.`, `..` or a root among its components. -/
def normalComponents (relative : Str) : Option (List Str) :=
  let parts := relative.splitOn '/'
  if startsWith ['/'] relative || parts.head? = some ['.'] || parts.any (· = ['.', '.']) then none
  else
    match parts.filter fun part => !(part = [] || part = ['.']) with
    | [] => none
    | names => some names

def metadataFrom (root : Tree) (before : List Str) : List Str → Except Str (Option Stat)
  | [] => .ok none
  | name :: rest => do
      match ← root (before ++ [name]) with
      | none => .ok none
      | some stat =>
          if rest = [] then .ok (some stat)
          else do
            require stat.isDir "symlink or non-directory component in an artifact path".toList
            metadataFrom root (before ++ [name]) rest

def untrustedMetadata (root : Tree) (relative : Str) : Except Str (Option Stat) :=
  match normalComponents relative with
  | none => .error "unsafe relative artifact path".toList
  | some names => metadataFrom root [] names

def readBytes (stat : Stat) (cap : Nat) : Except Str (List UInt8) := do
  let data ← stat.content
  require (data.length ≤ cap) "artifact exceeds acquisition budget".toList
  return data

def treeBudget : Nat := 64 * 1024 * 1024

def deletedMark : List UInt8 := Utf8.encode "deleted\x00".toList

def fingerprintStep (root : Tree) (state : Nat × List UInt8) (relative : Str) :
    Except Str (Nat × List UInt8) := do
  let (remaining, framed) ← match ← untrustedMetadata root relative with
    | none => pure (state.1, state.2 ++ deletedMark)
    | some stat => do
        require stat.isFile "source inventory contains symlink or non-file".toList
        let bytes ← readBytes stat state.1
        pure (state.1 - bytes.length,
          state.2 ++ beBytes stat.mode ++ Utf8.encode (sha256Hex bytes))
  return (remaining, framed ++ frame (Utf8.encode relative))

def fingerprintBytes (root : Tree) (inventory : Inventory) : Except Str (List UInt8) := do
  let (_, framed) ← inventory.paths.foldlM (fingerprintStep root)
    (treeBudget, Utf8.encode inventory.head)
  return framed

def fingerprintTree (root : Tree) (inventory : Inventory) : Except Str Str :=
  (fingerprintBytes root inventory).map sha256Hex

/-! What is framed of each path. -/

/-- What the fingerprint takes of a regular file: its mode, and its bytes as their digest. -/
structure Seen where
  mode : UInt32
  content : List UInt8

inductive Holds (root : Tree) (path : Str) : Option Seen → Prop where
  | absent (missing : untrustedMetadata root path = .ok none) : Holds root path none
  | file (stat : Stat) (bytes : List UInt8) (found : untrustedMetadata root path = .ok (some stat))
      (regular : stat.isFile = true) (content : stat.content = .ok bytes) :
      Holds root path (some ⟨stat.mode, bytes⟩)

def framedSeen (seen : Option Seen) : List UInt8 :=
  seen.elim deletedMark fun seen => beBytes seen.mode ++ Utf8.encode (sha256Hex seen.content)

def framedPath (entry : Option Seen × Str) : List UInt8 :=
  framedSeen entry.1 ++ frame (Utf8.encode entry.2)

theorem fingerprintStep_eq_ok (root : Tree) (remaining : Nat) (framed : List UInt8)
    (relative : Str) (next : Nat × List UInt8)
    (stepped : fingerprintStep root (remaining, framed) relative = .ok next) :
    ∃ seen, Holds root relative seen ∧ next.2 = framed ++ framedPath (seen, relative) := by
  unfold fingerprintStep at stepped
  obtain ⟨found, here, stepped⟩ := (bind_eq_ok ..).1 stepped
  cases found with
  | none =>
    obtain rfl := Except.ok.inj stepped
    exact ⟨none, .absent here, List.append_assoc ..⟩
  | some stat =>
    obtain ⟨_, regular, stepped⟩ := (bind_eq_ok ..).1 stepped
    obtain ⟨bytes, data, stepped⟩ := (bind_eq_ok ..).1 stepped
    obtain rfl := Except.ok.inj stepped
    obtain ⟨own, content, data⟩ := (bind_eq_ok ..).1 data
    obtain ⟨-, -, data⟩ := (bind_eq_ok ..).1 data
    obtain rfl := Except.ok.inj data
    refine ⟨some ⟨stat.mode, own⟩, .file stat own here ((require_ok ..).1 regular) content, ?_⟩
    simp only [framedPath, framedSeen, Option.elim_some, List.append_assoc]

theorem fingerprintBytes_eq_ok (root : Tree) (inventory : Inventory) (framed : List UInt8)
    (made : fingerprintBytes root inventory = .ok framed) :
    ∃ entries : List (Option Seen × Str), entries.map (·.2) = inventory.paths ∧
      (∀ entry ∈ entries, Holds root entry.2 entry.1) ∧
      framed = Utf8.encode inventory.head ++ entries.flatMap framedPath := by
  have run (paths : List Str) (state next : Nat × List UInt8)
      (run : paths.foldlM (fingerprintStep root) state = .ok next) :
      ∃ entries : List (Option Seen × Str), entries.map (·.2) = paths ∧
        (∀ entry ∈ entries, Holds root entry.2 entry.1) ∧
        next.2 = state.2 ++ entries.flatMap framedPath := by
    induction paths generalizing state with
    | nil =>
      obtain rfl := Except.ok.inj run
      exact ⟨[], rfl, by simp, by simp⟩
    | cons path paths ih =>
      rw [List.foldlM_cons] at run
      obtain ⟨middle, stepped, run⟩ := (bind_eq_ok ..).1 run
      obtain ⟨seen, holds, first⟩ := fingerprintStep_eq_ok root state.1 state.2 path middle stepped
      obtain ⟨entries, same, each, rest⟩ := ih middle run
      refine ⟨(seen, path) :: entries, by rw [List.map_cons, same], ?_, ?_⟩
      · exact List.forall_mem_cons.2 ⟨holds, each⟩
      · rw [rest, first, List.flatMap_cons, List.append_assoc]
  unfold fingerprintBytes at made
  obtain ⟨next, walked, made⟩ := (bind_eq_ok ..).1 made
  obtain rfl := Except.ok.inj made
  exact run inventory.paths _ next walked

/-! What the framed bytes tell. -/

def Seen.summary (seen : Seen) : UInt32 × Str := (seen.mode, sha256Hex seen.content)

theorem printable_sha256Hex (bytes : List UInt8) :
    ∀ c ∈ sha256Hex bytes, Json.printable c = true := by
  intro c listed
  obtain ⟨n, digit, rfl⟩ := mem_sha256Hex bytes c listed
  exact Json.printable_digitChar n digit

theorem length_encode_sha256Hex (bytes : List UInt8) :
    (Utf8.encode (sha256Hex bytes)).length = 64 := by
  rw [Json.encode_printable _ (printable_sha256Hex bytes), length_sha256Hex]

theorem toNat_beBytes (word : UInt32) (i : Nat) (inside : i < 4) :
    ((beBytes word)[i]?.getD 0).toNat = word.toNat / 2 ^ (8 * (3 - i)) % 256 := by
  have cases : i = 0 ∨ i = 1 ∨ i = 2 ∨ i = 3 := by omega
  rcases cases with rfl | rfl | rfl | rfl
  · exact congrArg (· % 256) (Nat.shiftRight_eq_div_pow ..)
  · exact congrArg (· % 256) (Nat.shiftRight_eq_div_pow ..)
  · exact congrArg (· % 256) (Nat.shiftRight_eq_div_pow ..)
  · exact congrArg (· % 256) (Nat.div_one _).symm

theorem beBytes_injective (one two : UInt32) (same : beBytes one = beBytes two) : one = two := by
  have byte (i : Nat) (inside : i < 4) :
      one.toNat / 2 ^ (8 * (3 - i)) % 256 = two.toNat / 2 ^ (8 * (3 - i)) % 256 := by
    rw [← toNat_beBytes one i inside, ← toNat_beBytes two i inside, same]
  have first := byte 0 (by decide)
  have second := byte 1 (by decide)
  have third := byte 2 (by decide)
  have fourth := byte 3 (by decide)
  have low := one.toNat_lt
  have high := two.toNat_lt
  apply UInt32.toNat_inj.1
  simp only [Nat.reduceSub, Nat.reduceMul, Nat.reducePow] at *
  omega

theorem deleted_apart (mode : UInt32) (small : mode.toNat < 2 ^ 16) (after after' : List UInt8) :
    deletedMark ++ after ≠ beBytes mode ++ after' := by
  intro same
  have marked : UInt8.ofNat 100 = (mode >>> 24).toUInt8 := (List.cons.inj same).1
  have byte : 100 = mode.toNat / 2 ^ 24 % 256 :=
    (congrArg UInt8.toNat marked).trans (toNat_beBytes mode 0 (by decide))
  omega

def framedSummary (summary : Option (UInt32 × Str)) : List UInt8 :=
  summary.elim deletedMark fun summary => beBytes summary.1 ++ Utf8.encode summary.2

def fits (summary : UInt32 × Str) : Prop :=
  summary.1.toNat < 2 ^ 16 ∧ (Utf8.encode summary.2).length = 64

theorem framedSeen_eq (seen : Option Seen) :
    framedSeen seen = framedSummary (seen.map Seen.summary) := by
  cases seen <;> rfl

theorem framedSummary_delimits :
    Delimits framedSummary fun summary => ∀ held ∈ summary, fits held := by
  intro one two first second after after' same
  cases one with
  | none =>
    cases two with
    | none => exact ⟨rfl, List.append_cancel_left same⟩
    | some summary =>
      rw [framedSummary, framedSummary, Option.elim_some, List.append_assoc] at same
      exact absurd same (deleted_apart _ (second summary rfl).1 _ _)
  | some summary =>
    cases two with
    | none =>
      rw [framedSummary, framedSummary, Option.elim_some, List.append_assoc] at same
      exact absurd same.symm (deleted_apart _ (first summary rfl).1 _ _)
    | some other =>
      simp only [framedSummary, Option.elim_some, List.append_assoc] at same
      obtain ⟨modes, rest⟩ := List.append_inj same rfl
      obtain ⟨digests, rest⟩ := List.append_inj rest
        ((first summary rfl).2.trans (second other rfl).2.symm)
      have mode := beBytes_injective _ _ modes
      have digest := Utf8.encode_injective _ _ digests
      exact ⟨congrArg some (Prod.ext mode digest), rest⟩

theorem framedPath_delimits :
    Delimits (fun entry : Option (UInt32 × Str) × Str =>
        framedSummary entry.1 ++ frame (Utf8.encode entry.2))
      fun entry => (∀ held ∈ entry.1, fits held) ∧ (Utf8.encode entry.2).length < 2 ^ 64 := by
  have paths : Delimits (fun path : Str => frame (Utf8.encode path))
      fun path => (Utf8.encode path).length < 2 ^ 64 :=
    frame_delimits.comp _ _ Utf8.encode Utf8.encode_injective
  exact framedSummary_delimits.append _ _ _ _ paths

theorem Holds.fits (root : Tree) (path : Str) (seen : Option Seen) (holds : Holds root path seen) :
    ∀ held ∈ seen.map Seen.summary, fits held := by
  cases holds with
  | absent => exact fun held missing => absurd missing (by simp)
  | file stat bytes =>
    intro held listed
    obtain rfl := Option.some.inj listed
    exact ⟨stat.small, length_encode_sha256Hex bytes⟩

/-- The same HEAD, the same paths, and at each path nothing twice, or regular files of one mode
whose bytes have one digest. -/
structure FramedAlike (root root' : Tree) (inventory inventory' : Inventory) : Prop where
  head : inventory.head = inventory'.head
  paths : inventory.paths = inventory'.paths
  each : ∀ path ∈ inventory.paths, ∃ seen seen', Holds root path seen ∧ Holds root' path seen' ∧
    seen.map Seen.summary = seen'.map Seen.summary

theorem framed_alike (root root' : Tree) (inventory inventory' : Inventory)
    (framed : List UInt8) (made : fingerprintBytes root inventory = .ok framed)
    (made' : fingerprintBytes root' inventory' = .ok framed)
    (heads : (Utf8.encode inventory.head).length = (Utf8.encode inventory'.head).length) :
    FramedAlike root root' inventory inventory' := by
  obtain ⟨entries, listed, holds, first⟩ := fingerprintBytes_eq_ok root inventory framed made
  obtain ⟨entries', listed', holds', second⟩ :=
    fingerprintBytes_eq_ok root' inventory' framed made'
  obtain ⟨head, same⟩ := List.append_inj (first.symm.trans second) heads
  let summarize (entry : Option Seen × Str) : Option (UInt32 × Str) × Str :=
    (entry.1.map Seen.summary, entry.2)
  have valid (root : Tree) (inventory : Inventory) (entries : List (Option Seen × Str))
      (listed : entries.map (·.2) = inventory.paths)
      (holds : ∀ entry ∈ entries, Holds root entry.2 entry.1) :
      ∀ entry ∈ entries.map summarize, (∀ held ∈ entry.1, fits held) ∧
        (Utf8.encode entry.2).length < 2 ^ 64 := by
    intro entry found
    obtain ⟨source, within, rfl⟩ := List.mem_map.1 found
    refine ⟨(holds source within).fits, inventory.sized _ ?_⟩
    exact listed ▸ List.mem_map_of_mem within
  have written (entries : List (Option Seen × Str)) :
      entries.flatMap framedPath = (entries.map summarize).flatMap fun entry =>
        framedSummary entry.1 ++ frame (Utf8.encode entry.2) := by
    rw [List.flatMap_map]
    refine congrArg (entries.flatMap ·) (funext fun entry => ?_)
    rw [framedPath, framedSeen_eq]
  rw [written, written] at same
  have filled (entry : Option (UInt32 × Str) × Str) :
      framedSummary entry.1 ++ frame (Utf8.encode entry.2) ≠ [] :=
    List.append_ne_nil_of_right_ne_nil _ (List.append_ne_nil_of_left_ne_nil (List.cons_ne_nil _ _) _)
  have summaries := framedPath_delimits.flatMap _ _ filled _ _
    (valid root inventory entries listed holds) (valid root' inventory' entries' listed' holds') same
  have paths := congrArg (List.map Prod.snd) summaries
  rw [List.map_map, List.map_map] at paths
  refine ⟨Utf8.encode_injective _ _ head, listed.symm.trans (paths.trans listed'), ?_⟩
  intro path member
  rw [← listed] at member
  obtain ⟨entry, within, rfl⟩ := List.mem_map.1 member
  have found : summarize entry ∈ entries'.map summarize :=
    summaries ▸ List.mem_map_of_mem within
  obtain ⟨entry', within', alike⟩ := List.mem_map.1 found
  obtain ⟨seen, path⟩ := entry
  obtain ⟨seen', path'⟩ := entry'
  obtain ⟨summary, rfl⟩ := Prod.mk.inj alike
  exact ⟨seen, seen', holds _ within, holds' _ within', summary.symm⟩

/-- The same HEAD, the same paths, and at each path nothing twice, or regular files of one mode
and the same bytes. -/
structure SameSources (root root' : Tree) (inventory inventory' : Inventory) : Prop where
  head : inventory.head = inventory'.head
  paths : inventory.paths = inventory'.paths
  each : ∀ path ∈ inventory.paths, ∃ seen, Holds root path seen ∧ Holds root' path seen

/-- Two files at one path have other bytes of the same digest. -/
def FilesCollide (root root' : Tree) (inventory : Inventory) : Prop :=
  ∃ path ∈ inventory.paths, ∃ seen seen', Holds root path (some seen) ∧
    Holds root' path (some seen') ∧ Collide seen.content seen'.content

theorem FramedAlike.same (root root' : Tree) (inventory inventory' : Inventory)
    (alike : FramedAlike root root' inventory inventory')
    (apart : ¬ FilesCollide root root' inventory) :
    SameSources root root' inventory inventory' := by
  refine ⟨alike.head, alike.paths, fun path listed => ?_⟩
  obtain ⟨seen, seen', holds, holds', summary⟩ := alike.each path listed
  refine ⟨seen, holds, ?_⟩
  cases seen with
  | none =>
    obtain rfl := Option.map_eq_none_iff.1 summary.symm
    exact holds'
  | some seen =>
    obtain ⟨seen', rfl, same⟩ := Option.map_eq_some_iff.1 summary.symm
    obtain ⟨mode, digest⟩ := Prod.mk.inj same
    have content : seen.content = seen'.content := by
      by_contra other
      exact apart ⟨path, listed, seen, seen', holds, holds', other, digest.symm⟩
    obtain ⟨mode', content'⟩ := seen'
    obtain rfl : seen.mode = mode' := mode.symm
    obtain rfl : seen.content = content' := content
    exact holds'

/-- The bytes that are hashed for changed sources, and for a tree, tell the sources; so a seal is
kept by other sources only where SHA-256 collides. -/
theorem seal_identifies :
    (∀ one two : List ChangedSource, (one.map (·.path)).Nodup → (two.map (·.path)).Nodup →
      (snapshotBytes one = snapshotBytes two ↔ one.Perm two) ∧
      (changedSourceSnapshotId one = changedSourceSnapshotId two →
        one.Perm two ∨ Collide (snapshotBytes one) (snapshotBytes two))) ∧
    ∀ (root root' : Tree) (inventory inventory' : Inventory) (framed framed' : List UInt8),
      fingerprintBytes root inventory = .ok framed →
      fingerprintBytes root' inventory' = .ok framed' →
      (Utf8.encode inventory.head).length = (Utf8.encode inventory'.head).length →
      (framed = framed' → FramedAlike root root' inventory inventory') ∧
      (fingerprintTree root inventory = fingerprintTree root' inventory' →
        SameSources root root' inventory inventory' ∨ Collide framed framed' ∨
          FilesCollide root root' inventory) := by
  constructor
  · intro one two distinct _
    refine ⟨snapshotBytes_iff one two distinct, fun same => ?_⟩
    by_cases bytes : snapshotBytes one = snapshotBytes two
    · exact .inl ((snapshotBytes_iff one two distinct).1 bytes)
    · exact .inr ⟨bytes, same⟩
  · intro root root' inventory inventory' framed framed' made made' heads
    have alike (same : framed = framed') : FramedAlike root root' inventory inventory' :=
      framed_alike root root' inventory inventory' framed made (same ▸ made') heads
    refine ⟨alike, fun same => ?_⟩
    rw [fingerprintTree, fingerprintTree, made, made'] at same
    by_cases bytes : framed = framed'
    · by_cases apart : FilesCollide root root' inventory
      · exact .inr (.inr apart)
      · exact .inl ((alike bytes).same _ _ _ _ apart)
    · exact .inr (.inl ⟨bytes, Except.ok.inj same⟩)

/-- Two sources in either order, and two trees that differ in a file the inventory does not name. -/
theorem seal_identifies_sample :
    let one : ChangedSource := ⟨"a".toList, none, by decide⟩
    let two : ChangedSource := ⟨"b".toList, some [], by decide⟩
    let stat : Stat := ⟨true, false, 0o100644, .ok [], by decide⟩
    let root : Tree := fun parts => .ok (if parts = ["a".toList] then some stat else none)
    let other : Tree := fun parts => if parts = ["c".toList] then .ok (some stat) else root parts
    let inventory : Inventory := ⟨"0\n".toList, ["a".toList, "b".toList], by decide,
      List.forall_mem_cons.2 ⟨by decide, List.forall_mem_singleton.2 (by decide)⟩⟩
    snapshotBytes [one, two] = snapshotBytes [two, one] ∧ root ["c".toList] ≠ other ["c".toList] ∧
      FramedAlike root other inventory inventory := by
  intro one two stat root other inventory
  have ordered := seal_identifies.1 [one, two] [two, one] (by decide) (by decide)
  have tree := seal_identifies.2 root other inventory inventory _ _ rfl rfl rfl
  exact ⟨ordered.1.2 (.swap ..), (fun same => by cases same), tree.1 rfl⟩

end DeepDiffForge.Review
