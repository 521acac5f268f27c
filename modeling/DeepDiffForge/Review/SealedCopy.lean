import DeepDiffForge.Review.SealedTree

/-! What a seal tells of a tree, and the sealed copy of what a sandboxed job wrote. -/

namespace DeepDiffForge.Review
open Text Frames Fallible Walks DeepDiffForge.Core
open DeepDiffForge.Patch (Collide)

abbrev Disk.Holds (disk : Disk) : List Name → Kind → Prop :=
  Below Kind.descends disk.world []

theorem Sealable.mem (disk : Disk) (found : List (List Name × Kind))
    (sealable : Sealable disk found) (path : List Name) (kind : Kind) :
    (path, kind) ∈ found ↔ disk.Holds path kind := by
  rw [mem_visits Kind.descends disk.world [[]] found sealable.visits path kind]
  simp only [List.mem_singleton, exists_eq_left]

def Disk.Sized (disk : Disk) : Prop :=
  ∀ path stat, disk.stat path = .ok stat → (joined path).length < 2 ^ 64

theorem splitOn_joined (path : List Name) (filled : path ≠ []) :
    (joined path).splitOn 0x2F = path.map (·.1) := by
  apply List.splitOn_intercalate
  · intro text listed
    obtain ⟨name, -, rfl⟩ := List.mem_map.1 listed
    exact name.2.2
  · exact fun empty => filled (List.map_eq_nil_iff.1 empty)

theorem joined_ne_nil (path : List Name) (filled : path ≠ []) : joined path ≠ [] := by
  intro empty
  have split := splitOn_joined path filled
  rw [empty, List.splitOn_nil] at split
  obtain ⟨name, path, rfl⟩ := List.exists_cons_of_ne_nil filled
  exact name.2.1 (List.cons.inj split).1.symm

theorem joined_injective (one two : List Name) (same : joined one = joined two) : one = two := by
  by_cases first : one = []
  · subst first
    by_contra other
    exact joined_ne_nil two (Ne.symm other) same.symm
  · by_cases second : two = []
    · subst second
      exact absurd same (joined_ne_nil one first)
    · have names := congrArg (List.splitOn 0x2F) same
      rw [splitOn_joined one first, splitOn_joined two second] at names
      exact List.map_injective_iff.2 Subtype.val_injective names

theorem mark_delimits :
    Delimits (fun mark : List UInt8 => mark) fun mark => ∃ kind : Kind, mark = kind.mark := by
  rintro _ _ ⟨one, rfl⟩ ⟨two, rfl⟩ after after' same
  cases one with
  | dir =>
    cases two with
    | dir => exact ⟨rfl, (List.cons.inj same).2⟩
    | file runs content => cases runs <;> exact absurd (List.cons.inj same).1 (by decide)
  | file runs content =>
    cases two with
    | dir => cases runs <;> exact absurd (List.cons.inj same).1 (by decide)
    | file runs' content' =>
      refine List.append_inj same ?_
      rw [Kind.mark, Kind.mark, List.length_cons, List.length_cons, length_encode_sha256Hex,
        length_encode_sha256Hex]

/-- The bytes a seal is of tell the paths, and what is marked of each. -/
theorem framedEntries_tell (one two : List (List Name × Kind))
    (sized : ∀ entry ∈ one, (joined entry.1).length < 2 ^ 64)
    (sized' : ∀ entry ∈ two, (joined entry.1).length < 2 ^ 64)
    (same : framedEntries one = framedEntries two) :
    one.map (fun entry => (entry.2.mark, entry.1)) =
      two.map fun entry => (entry.2.mark, entry.1) := by
  have paths : Delimits (fun path : List Name => frame (joined path))
      fun path => (joined path).length < 2 ^ 64 :=
    frame_delimits.comp _ _ joined joined_injective
  have pairs := mark_delimits.append _ _ _ _ paths
  have framed (found : List (List Name × Kind)) :
      framedEntries found = (found.map fun entry => (entry.2.mark, entry.1)).flatMap fun pair =>
        pair.1 ++ frame (joined pair.2) := by
    rw [List.flatMap_map]
    rfl
  have valid (found : List (List Name × Kind))
      (sized : ∀ entry ∈ found, (joined entry.1).length < 2 ^ 64) :
      ∀ pair ∈ found.map (fun entry => (entry.2.mark, entry.1)),
        (∃ kind : Kind, pair.1 = kind.mark) ∧ (joined pair.2).length < 2 ^ 64 := by
    intro pair listed
    obtain ⟨entry, among, rfl⟩ := List.mem_map.1 listed
    exact ⟨⟨entry.2, rfl⟩, sized entry among⟩
  rw [framed, framed] at same
  refine Delimits.flatMap _ _ pairs ?_ _ _ (valid one sized) (valid two sized') same
  intro pair empty
  have length := congrArg List.length (List.append_eq_nil_iff.1 empty).2
  rw [frame, List.length_append, length_toBeBytes64, List.length_nil] at length
  omega

theorem mark_tells (one two : Kind) (same : one.mark = two.mark) :
    one = two ∨ ∃ runs content content', one = .file runs content ∧ two = .file runs content' ∧
      Collide content content' := by
  cases one with
  | dir =>
    cases two with
    | dir => exact .inl rfl
    | file runs content => cases runs <;> exact absurd (List.cons.inj same).1 (by decide)
  | file runs content =>
    cases two with
    | dir => cases runs <;> exact absurd (List.cons.inj same).1 (by decide)
    | file runs' content' =>
      obtain ⟨mark, digest⟩ := List.cons.inj same
      have runs : runs = runs' := by
        revert mark
        cases runs <;> cases runs' <;> decide
      subst runs
      by_cases contents : content = content'
      · exact .inl (by rw [contents])
      · exact .inr ⟨runs, content, content', rfl, rfl, contents,
          Utf8.encode_injective _ _ digest⟩

theorem marks_tell (one two : List (List Name × Kind))
    (same : one.map (fun entry => (entry.2.mark, entry.1)) =
      two.map fun entry => (entry.2.mark, entry.1)) :
    one = two ∨ ∃ path runs content content', (path, .file runs content) ∈ one ∧
      (path, .file runs content') ∈ two ∧ Collide content content' := by
  induction one generalizing two with
  | nil => exact .inl (List.map_eq_nil_iff.1 same.symm).symm
  | cons entry one ih =>
    cases two with
    | nil => cases same
    | cons entry' two =>
      rw [List.map_cons, List.map_cons] at same
      obtain ⟨first, rest⟩ := List.cons.inj same
      obtain ⟨path, kind⟩ := entry
      obtain ⟨path', kind'⟩ := entry'
      obtain ⟨mark, rfl⟩ := Prod.mk.inj first
      rcases mark_tells kind kind' mark with rfl | ⟨runs, content, content', rfl, rfl, collide⟩
      · rcases ih two rest with rfl | ⟨other, runs, content, content', held, held', collide⟩
        · exact .inl rfl
        · exact .inr ⟨other, runs, content, content', .tail _ held, .tail _ held', collide⟩
      · exact .inr ⟨path, runs, content, content', .head _, .head _, collide⟩

def Before (one two : Name) : Prop := one.1 ≤ two.1 ∧ one ≠ two

theorem Before.asymm (one two : Name) (before : Before one two) : ¬Before two one :=
  fun after => before.2 (Subtype.ext (List.le_antisymm before.1 after.1))

theorem sortNames_before (names : List Name) (distinct : names.Nodup) :
    (sortNames names).Pairwise Before :=
  (sortNames_sorted names).and ((sortNames_perm names).nodup_iff.2 distinct)

theorem names_before (disk : Disk) (directory names : List Name)
    (listed : disk.world.names directory = some names) : names.Pairwise Before := by
  obtain ⟨listing, -, rfl⟩ := (names_eq_some ..).1 listed
  exact sortNames_before listing.1 listing.2

theorem Sealable.alike (one two : Disk) (found found' : List (List Name × Kind))
    (first : Sealable one found) (second : Sealable two found')
    (same : ∀ path kind, one.Holds path kind ↔ two.Holds path kind) : found = found' := by
  refine visits_alike Kind.descends one.world two.world Before Before.asymm (names_before one)
    (names_before two) [[]] found found' first.visits second.visits ?_
  exact List.forall_mem_singleton.2 same

theorem Sealable.sized (disk : Disk) (found : List (List Name × Kind))
    (sealable : Sealable disk found) (sized : disk.Sized) :
    ∀ entry ∈ found, (joined entry.1).length < 2 ^ 64 := by
  rintro ⟨path, kind⟩ listed
  have held := (sealable.mem disk found path kind).1 listed
  obtain ⟨-, -, -, -, -, -, there⟩ := below_last _ _ _ _ _ held
  obtain ⟨stat, stat', -⟩ := (kind_eq_some disk path kind).1 there
  exact sized path stat stat'

/-- Trees that SHA-256 cannot tell apart, though they hold other things: as a whole, or a file of
each at one path. -/
def TreesCollide (one two : Disk) : Prop :=
  (∃ found found', Sealable one found ∧ Sealable two found' ∧
    Collide (framedEntries found) (framedEntries found')) ∨
  ∃ path runs content content', one.Holds path (.file runs content) ∧
    two.Holds path (.file runs content') ∧ Collide content content'

/-- Trees that hold the same at every path have one seal, and trees of one seal hold the same,
unless SHA-256 collides on what they hold. -/
theorem treeSeal_identifies (one two : Disk) (first second : TreeSeal) (sized : one.Sized)
    (sized' : two.Sized) (sealed : treeSeal one = .ok first) (sealed' : treeSeal two = .ok second) :
    ((∀ path kind, one.Holds path kind ↔ two.Holds path kind) → first = second) ∧
      (first.sha256 = second.sha256 →
        (∀ path kind, one.Holds path kind ↔ two.Holds path kind) ∨ TreesCollide one two) := by
  obtain ⟨found, sealable, rfl⟩ := (treeSeal_ok one first).1 sealed
  obtain ⟨found', sealable', rfl⟩ := (treeSeal_ok two second).1 sealed'
  constructor
  · intro same
    rw [sealable.alike one two found found' sealable' same]
  · intro digest
    by_cases bytes : framedEntries found = framedEntries found'
    · have told := framedEntries_tell found found' (sealable.sized one found sized)
        (sealable'.sized two found' sized') bytes
      rcases marks_tell found found' told with rfl | ⟨path, runs, content, content', held, held', c⟩
      · refine .inl fun path kind => ?_
        rw [← sealable.mem one found, sealable'.mem two found]
      · exact .inr (.inr ⟨path, runs, content, content', (sealable.mem one found _ _).1 held,
          (sealable'.mem two found' _ _).1 held', c⟩)
    · exact .inr (.inl ⟨found, found', sealable, sealable', bytes, digest⟩)

/-- What a copy makes of an entry is taken for the same entry. -/
theorem kindOf_made (kind : Kind) : kindOf kind.made = some kind := by
  cases kind with
  | dir => rfl
  | file runs content =>
    have mode : executable (if runs then 0o100500 else 0o100400) = runs := by
      cases runs <;> decide
    exact congrArg (fun runs => some (Kind.file runs content)) mode

/-! ### A tree listed in either order -/

def sampleFile : Name := ⟨[0x61], by decide⟩
def sampleFolder : Name := ⟨[0x64], by decide⟩

def sampleDisk (listing : Listing) : Disk where
  list directory :=
    if directory = [] then .ok listing
    else if directory = [sampleFolder] then .ok ⟨[], List.nodup_nil⟩
    else .error []
  stat path :=
    if path = [] ∨ path = [sampleFolder] then .ok madeDir
    else if path = [sampleFile] then .ok (madeFile true [0x21])
    else .error []

def sampleEntries : List (List Name × Kind) :=
  [([sampleFile], .file true [0x21]), ([sampleFolder], .dir)]

theorem sampleDisk_sealable (listing : Listing)
    (names : listing.1.Perm [sampleFile, sampleFolder]) :
    Sealable (sampleDisk listing) sampleEntries := by
  have ordered : sortNames listing.1 = [sampleFile, sampleFolder] := by
    refine ordered_unique Before Before.asymm _ _ (sortNames_before listing.1 listing.2)
      (List.pairwise_pair.2 ⟨by decide, by decide⟩) fun name => ?_
    rw [(sortNames_perm listing.1).mem_iff, names.mem_iff]
  refine ⟨⟨madeDir, rfl, rfl⟩, ?_, by decide, by decide⟩
  refine .next [] [sampleFile, sampleFolder] [] sampleEntries [] ?_ ?_ ?_
  · exact congrArg some ordered
  · have file := (kind_found (sampleDisk listing) [sampleFile] _ rfl).trans
      (kindOf_made (.file true [0x21]))
    have folder := (kind_found (sampleDisk listing) [sampleFolder] _ rfl).trans (kindOf_made .dir)
    exact .cons ⟨rfl, file⟩ (.cons ⟨rfl, folder⟩ .nil)
  · exact .next [sampleFolder] [] [] [] [] (congrArg some List.mergeSort_nil) .nil .done

theorem sampleDisk_sized (listing : Listing) : (sampleDisk listing).Sized := by
  intro path stat found
  unfold sampleDisk at found
  dsimp only at found
  split at found
  · rename_i at_
    rcases at_ with rfl | rfl <;> decide
  · split at found
    · rename_i at_
      subst at_
      decide
    · cases found

/-- The same tree in either order of its names has one seal. -/
theorem treeSeal_identifies_sample :
    let one := sampleDisk ⟨[sampleFile, sampleFolder], by decide⟩
    let two := sampleDisk ⟨[sampleFolder, sampleFile], by decide⟩
    ∃ sealed, treeSeal one = .ok sealed ∧ treeSeal two = .ok sealed ∧
      ((∀ path kind, one.Holds path kind ↔ two.Holds path kind) ∨ TreesCollide one two) := by
  intro one two
  have first : Sealable one sampleEntries := sampleDisk_sealable _ (.refl _)
  have second : Sealable two sampleEntries := sampleDisk_sealable _ (.swap ..)
  have same (path : List Name) (kind : Kind) : one.Holds path kind ↔ two.Holds path kind := by
    rw [← first.mem, ← second.mem]
  have sealed := (treeSeal_ok one _).2 ⟨sampleEntries, first, rfl⟩
  have sealed' := (treeSeal_ok two _).2 ⟨sampleEntries, second, rfl⟩
  have identified := treeSeal_identifies one two _ _ (sampleDisk_sized _) (sampleDisk_sized _)
    sealed sealed'
  exact ⟨_, sealed, identified.1 same ▸ sealed', identified.2 rfl⟩

/-! ### The sealed copy -/

abbrev Order := {order : List Name → List Name // ∀ names, (order names).Perm names}

def children (made : List (List Name × Stat)) (directory : List Name) : List Name :=
  (made.filterMap fun node =>
    if node.1.dropLast = directory then node.1.getLast? else none).dedup

def diskOf (order : Order) (made : List (List Name × Stat)) : Disk where
  list directory :=
    if directory = [] ∨ made.any fun node => node.1 = directory ∧ node.2.isDir then
      .ok ⟨order.1 (children made directory), (order.2 _).nodup_iff.2 (List.nodup_dedup _)⟩
    else .error "Not a directory (os error 20)".toList
  stat path :=
    if path = [] then .ok madeDir
    else (made.find? fun node => node.1 = path).elim
      (.error "No such file or directory (os error 2)".toList) fun node => .ok node.2

def sameSeal (sealed again : TreeSeal) (copy : Disk) : Except Str Bool :=
  if again = sealed then (walkTree copy none).map fun own => decide (own.1 = sealed)
  else .ok false

def sealTree (order : Order) (target : Target) (before during : Disk) :
    Except Str (TreeSeal × Disk) := do
  let (sealed, _) ← walkTree before none
  let (again, copied) ← walkTree during (some target)
  let copy := diskOf order ((copied.map (·.made)).getD [])
  require (← sameSeal sealed again copy) "sealed copy does not match the sandbox output".toList
  return (sealed, copy)

def nodes (found : List (List Name × Kind)) : List (List Name × Stat) :=
  found.map fun entry => (entry.1, entry.2.made)

theorem copied_stat (order : Order) (disk : Disk) (found : List (List Name × Kind))
    (sealable : Sealable disk found) (path : List Name) (kind : Kind)
    (listed : (path, kind) ∈ found) : (diskOf order (nodes found)).stat path = .ok kind.made := by
  have held := (sealable.mem disk found path kind).1 listed
  have longer := (below_longer _ _ _ _ _ held).2
  have filled : path ≠ [] := List.ne_nil_of_length_pos longer
  have made : (path, kind.made) ∈ nodes found :=
    List.mem_map_of_mem (f := fun entry => (entry.1, entry.2.made)) listed
  unfold diskOf
  dsimp only
  rw [if_neg filled]
  cases seen : (nodes found).find? fun node => node.1 = path with
  | none =>
    have absent := List.find?_eq_none.1 seen _ made
    exact absurd (decide_eq_true rfl) absent
  | some node =>
    have own := List.find?_some seen
    have own := of_decide_eq_true own
    obtain ⟨⟨path', kind'⟩, among, rfl⟩ := List.mem_map.1 (List.mem_of_find?_eq_some seen)
    dsimp only at own
    subst own
    have held' := (sealable.mem disk found _ kind').1 among
    obtain ⟨-, -, -, -, -, -, there⟩ := below_last _ _ _ _ _ held
    obtain ⟨-, -, -, -, -, -, there'⟩ := below_last _ _ _ _ _ held'
    cases there.symm.trans there'
    rfl

theorem mem_children (found : List (List Name × Kind)) (directory : List Name) (name : Name) :
    name ∈ children (nodes found) directory ↔
      ∃ kind, (directory ++ [name], kind) ∈ found := by
  unfold children nodes
  rw [List.mem_dedup, List.mem_filterMap]
  constructor
  · rintro ⟨node, listed, own⟩
    obtain ⟨⟨path, kind⟩, among, rfl⟩ := List.mem_map.1 listed
    dsimp only at own
    split at own
    · rename_i inside
      subst inside
      rw [List.dropLast_append_getLast? name own]
      exact ⟨kind, among⟩
    · cases own
  · rintro ⟨kind, among⟩
    refine ⟨_, List.mem_map_of_mem among, ?_⟩
    dsimp only
    rw [List.dropLast_concat, if_pos rfl, List.getLast?_concat]

theorem copied_names (order : Order) (disk : Disk) (found : List (List Name × Kind))
    (sealable : Sealable disk found) (directory names : List Name)
    (among : directory ∈ [[]] ∨ directory ∈ directories Kind.descends found)
    (listed : disk.world.names directory = some names) :
    (diskOf order (nodes found)).world.names directory = some names := by
  have there : directory = [] ∨
      ((nodes found).any fun node => node.1 = directory ∧ node.2.isDir) = true := by
    refine among.imp List.mem_singleton.1 fun own => List.any_eq_true.2 ?_
    obtain ⟨kind, entry, inside⟩ := (mem_directories ..).1 own
    refine ⟨(directory, kind.made),
      List.mem_map_of_mem (f := fun entry => (entry.1, entry.2.made)) entry, ?_⟩
    cases kind with
    | dir => exact decide_eq_true ⟨rfl, rfl⟩
    | file => cases inside
  refine (names_eq_some ..).2 ⟨_, if_pos there, ?_⟩
  refine ordered_unique Before Before.asymm _ _ (names_before disk directory names listed)
    (sortNames_before _ ((order.2 _).nodup_iff.2 (List.nodup_dedup _))) fun name => ?_
  rw [(sortNames_perm _).mem_iff, (order.2 _).mem_iff, mem_children]
  constructor
  · exact visits_whole _ _ _ _ sealable.visits directory names among listed name
  · rintro ⟨kind, entry⟩
    have held := (sealable.mem disk found _ kind).1 entry
    obtain ⟨directory', name', names', same, listed', member, -⟩ := below_last _ _ _ _ _ held
    obtain ⟨rfl, last⟩ := List.append_inj' same rfl
    cases last
    cases listed.symm.trans listed'
    exact member

/-- The copy is walked as the tree it was made from. -/
theorem Sealable.copied (order : Order) (disk : Disk) (found : List (List Name × Kind))
    (sealable : Sealable disk found) : Sealable (diskOf order (nodes found)) found := by
  refine ⟨⟨madeDir, rfl, rfl⟩, ?_, sealable.entries, sealable.bytes⟩
  apply visits_transfer Kind.descends disk.world _ [[]] found sealable.visits
  · exact copied_names order disk found sealable
  · intro path kind listed
    rw [kind_found _ path _ (copied_stat order disk found sealable path kind listed), kindOf_made]

/-- A copy of a tree: it holds the same at every path, as new directories of its owner and files
that only its owner can read or run. -/
structure CopyOf (disk copy : Disk) : Prop where
  same : ∀ path kind, copy.Holds path kind ↔ disk.Holds path kind
  made : ∀ path kind, disk.Holds path kind → copy.stat path = .ok kind.made
  only : ∀ path stat, copy.stat path = .ok stat → path = [] ∨ ∃ kind, disk.Holds path kind

theorem Sealable.copyOf (order : Order) (disk : Disk) (found : List (List Name × Kind))
    (sealable : Sealable disk found) : CopyOf disk (diskOf order (nodes found)) := by
  refine ⟨fun path kind => ?_, fun path kind held => ?_, fun path stat seen => ?_⟩
  · rw [← sealable.mem, ← (sealable.copied order).mem]
  · exact copied_stat order disk found sealable path kind ((sealable.mem ..).2 held)
  · by_cases root : path = []
    · exact .inl root
    · refine .inr ?_
      unfold diskOf at seen
      dsimp only at seen
      rw [if_neg root] at seen
      cases node : (nodes found).find? fun node => node.1 = path with
      | none =>
        rw [node] at seen
        cases seen
      | some entry =>
        have own := List.find?_some node
        have own := of_decide_eq_true own
        obtain ⟨⟨path', kind⟩, among, rfl⟩ := List.mem_map.1 (List.mem_of_find?_eq_some node)
        dsimp only at own
        subst own
        exact ⟨kind, (sealable.mem ..).1 among⟩

theorem Sealable.listed (disk : Disk) (found : List (List Name × Kind))
    (sealable : Sealable disk found) : Listed found = disk.Holds :=
  funext fun path => funext fun kind => propext (sealable.mem disk found path kind)

theorem sealTree_ok (order : Order) (target : Target) (before during : Disk)
    (result : TreeSeal × Disk) :
    sealTree order target before during = .ok result ↔
      ∃ found found', Sealable before found ∧ Sealable during found' ∧
        target.Clear during.Holds ∧ sealOf found' = sealOf found ∧
          result = (sealOf found, diskOf order (nodes found')) := by
  have absent (found : List (List Name × Kind)) :
      ∀ target ∈ (none : Option Target), target.Clear (Listed found) :=
    fun _ held => absurd held (Option.not_mem_none _)
  unfold sealTree
  constructor
  · intro made
    obtain ⟨_, first, made⟩ := (bind_eq_ok ..).1 made
    obtain ⟨found, sealable, -, rfl⟩ := (walkTree_ok ..).1 first
    obtain ⟨_, second, made⟩ := (bind_eq_ok ..).1 made
    obtain ⟨found', sealable', clear, rfl⟩ := (walkTree_ok ..).1 second
    obtain ⟨same, checked, made⟩ := (bind_eq_ok ..).1 made
    obtain ⟨_, passed, made⟩ := (bind_eq_ok ..).1 made
    cases made
    have clear := clear target rfl
    rw [sealable'.listed] at clear
    refine ⟨found, found', sealable, sealable', clear, ?_, rfl⟩
    by_contra other
    unfold sameSeal at checked
    rw [if_neg other] at checked
    cases checked
    cases passed
  · rintro ⟨found, found', sealable, sealable', clear, agree, rfl⟩
    have first := (walkTree_ok before none _).2 ⟨found, sealable, absent found, rfl⟩
    rw [← sealable'.listed] at clear
    have second := (walkTree_ok during (some target) _).2 ⟨found', sealable', by
      intro own held
      obtain rfl := Option.some.inj held
      exact clear, rfl⟩
    have third := (walkTree_ok (diskOf order (nodes found')) none _).2
      ⟨found', sealable'.copied order, absent found', rfl⟩
    refine (bind_eq_ok ..).2 ⟨_, first, (bind_eq_ok ..).2 ⟨_, second, ?_⟩⟩
    refine (bind_eq_ok ..).2 ⟨true, ?_, rfl⟩
    unfold sameSeal
    rw [if_pos agree]
    change (walkTree (diskOf order (nodes found')) none).map _ = _
    rw [third]
    exact congrArg Except.ok (decide_eq_true agree)

/-- A tree is sealed exactly when it can be walked, is the same when it is walked again to be
copied, and can be written to its new place: the copy is never refused, and holds what the seal is
of. -/
theorem sealTree_copies (order : Order) (target : Target) (before during : Disk)
    (sealed : TreeSeal) :
    ((∃ copy, sealTree order target before during = .ok (sealed, copy)) ↔
        treeSeal before = .ok sealed ∧ treeSeal during = .ok sealed ∧
          target.Clear during.Holds) ∧
      ∀ copy, sealTree order target before during = .ok (sealed, copy) →
        treeSeal copy = .ok sealed ∧ CopyOf during copy := by
  constructor
  · rw [treeSeal_ok, treeSeal_ok]
    constructor
    · rintro ⟨copy, made⟩
      obtain ⟨found, found', sealable, sealable', clear, agree, same⟩ := (sealTree_ok ..).1 made
      cases same
      exact ⟨⟨found, sealable, rfl⟩, ⟨found', sealable', agree.symm⟩, clear⟩
    · rintro ⟨⟨found, sealable, rfl⟩, ⟨found', sealable', agree⟩, clear⟩
      exact ⟨_, (sealTree_ok ..).2
        ⟨found, found', sealable, sealable', clear, agree.symm, rfl⟩⟩
  · intro copy made
    obtain ⟨found, found', sealable, sealable', -, agree, same⟩ := (sealTree_ok ..).1 made
    cases same
    exact ⟨(treeSeal_ok ..).2 ⟨found', sealable'.copied order, agree.symm⟩, sealable'.copyOf order⟩

/-- A target where nothing is and no write fails. -/
def freshTarget : Target := ⟨false, true, fun _ => none⟩

/-- The sample, listed the other way round when it is copied to a fresh place, and refused where
something is. -/
theorem sealTree_copies_sample :
    let before := sampleDisk ⟨[sampleFile, sampleFolder], by decide⟩
    let during := sampleDisk ⟨[sampleFolder, sampleFile], by decide⟩
    let order : Order := ⟨List.reverse, List.reverse_perm⟩
    ∃ sealed copy, sealTree order freshTarget before during = .ok (sealed, copy) ∧
      treeSeal copy = .ok sealed ∧ CopyOf during copy ∧
      ¬∃ copy, sealTree order { freshTarget with occupied := true } before during =
        .ok (sealed, copy) := by
  intro before during order
  have first : Sealable before sampleEntries := sampleDisk_sealable _ (.refl _)
  have second : Sealable during sampleEntries := sampleDisk_sealable _ (.swap ..)
  have copies := sealTree_copies order freshTarget before during (sealOf sampleEntries)
  have refused := sealTree_copies order { freshTarget with occupied := true } before during
    (sealOf sampleEntries)
  obtain ⟨copy, made⟩ := copies.1.2 ⟨(treeSeal_ok ..).2 ⟨_, first, rfl⟩,
    (treeSeal_ok ..).2 ⟨_, second, rfl⟩, rfl, rfl, rfl, fun _ _ _ => rfl⟩
  obtain ⟨again, own⟩ := copies.2 copy made
  refine ⟨_, copy, made, again, own, fun there => ?_⟩
  cases (refused.1.1 there).2.2.vacant

end DeepDiffForge.Review
