import DeepDiffForge.Graph.Evidence
import DeepDiffForge.Patch.Extent
import Mathlib.Data.List.Nodup

/-! Where evidence points: at one changed line of one hunk, unless the parser's line numbers have
stopped at the largest number. -/

namespace DeepDiffForge.Graph
open Text DeepDiffForge.Core

def linePlace (line : PatchLine) : Option (Side × Nat) :=
  match line.kind with
  | .context => none
  | .added => line.newLine.map (Side.new, ·)
  | .removed => line.oldLine.map (Side.old, ·)

section Signals
variable (language : Option Language) (rules : List Rule)

def signalsOf : ScanState → ScanState → List PatchLine → List (List EvidenceSignal)
  | _, _, [] => []
  | old, new, line :: lines =>
      match line.kind with
      | .context =>
          [] :: signalsOf (viewed language line.text old).2 (viewed language line.text new).2 lines
      | .added =>
          lineSignals rules .new line.text (viewed language line.text new).1 ::
            signalsOf old (viewed language line.text new).2 lines
      | .removed =>
          lineSignals rules .old line.text (viewed language line.text old).1 ::
            signalsOf (viewed language line.text old).2 new lines

def lineItems (entry : PatchLine × List EvidenceSignal) : List (Side × EvidenceSignal × Nat) :=
  (linePlace entry.1).toList.flatMap fun place =>
    entry.2.map fun signal => (place.1, signal, place.2)

theorem matchesOf_lines (old new : ScanState) (lines : List PatchLine) :
    matchesOf language rules old new lines =
      (lines.zip (signalsOf language rules old new lines)).flatMap lineItems := by
  induction lines generalizing old new with
  | nil => rfl
  | cons line lines ih =>
    rw [matchesOf, signalsOf]
    cases kind : line.kind with
    | context =>
      dsimp only
      rw [ih, List.zip_cons_cons, List.flatMap_cons, lineItems, linePlace, kind]
      rfl
    | added =>
      dsimp only
      rw [ih, List.zip_cons_cons, List.flatMap_cons, lineItems, linePlace, kind]
      cases line.newLine <;> rfl
    | removed =>
      dsimp only
      rw [ih, List.zip_cons_cons, List.flatMap_cons, lineItems, linePlace, kind]
      cases line.oldLine <;> rfl

theorem length_signalsOf (old new : ScanState) (lines : List PatchLine) :
    (signalsOf language rules old new lines).length = lines.length := by
  induction lines generalizing old new with
  | nil => rfl
  | cons line lines ih =>
    rw [signalsOf]
    cases line.kind <;> exact congrArg (· + 1) (ih _ _)

theorem signalsOf_sublist (old new : ScanState) (lines : List PatchLine) :
    ∀ signals ∈ signalsOf language rules old new lines, signals.Sublist EvidenceSignal.all := by
  induction lines generalizing old new with
  | nil => exact nofun
  | cons line lines ih =>
    rw [signalsOf]
    cases line.kind with
    | context => exact List.forall_mem_cons.2 ⟨List.nil_sublist _, ih _ _⟩
    | added => exact List.forall_mem_cons.2 ⟨List.filter_sublist, ih _ _⟩
    | removed => exact List.forall_mem_cons.2 ⟨List.filter_sublist, ih _ _⟩

end Signals

section File
variable (file : ReviewFile)

def marked (hunk : PatchHunk) : List (PatchLine × List EvidenceSignal) :=
  hunk.lines.zip (signalsOf (FileKind.of file).language (rulesFor (FileKind.of file)) {} {}
    hunk.lines)

def itemAt (hunk : PatchHunk) (place : Side × Nat) (signal : EvidenceSignal) : Evidence :=
  { signal, hunk := hunk.id, address := hunk.address file.path, side := place.1, line := place.2 }

def evidenceAt (hunk : PatchHunk) (entry : PatchLine × List EvidenceSignal) : List Evidence :=
  (linePlace entry.1).toList.flatMap fun place => entry.2.map (itemAt file hunk place)

theorem hunkMatches_marked (hunk : PatchHunk) :
    hunkMatches (FileKind.of file).language (rulesFor (FileKind.of file)) hunk =
      (marked file hunk).flatMap lineItems :=
  matchesOf_lines _ _ _ _ _

/-- A rule that reads any file is among the rules of each. -/
theorem rulesFor_ne_nil (kind : FileKind) : rulesFor kind ≠ [] := by
  intro absent
  have secret : (⟨.secretLike, .new, .raw, .any, .secret⟩ : Rule) ∈ rulesFor kind :=
    List.mem_filter.2 ⟨by decide, rfl⟩
  rw [absent] at secret
  cases secret

theorem fileEvidence_marked :
    fileEvidence file =
      file.patchTwin.hunks.flatMap fun hunk => (marked file hunk).flatMap (evidenceAt file hunk) := by
  rw [fileEvidence, if_neg (rulesFor_ne_nil _)]
  refine congrArg (List.flatMap · file.patchTwin.hunks) ?_
  funext hunk
  rw [hunkMatches_marked, List.map_flatMap]
  refine congrArg (List.flatMap · (marked file hunk)) ?_
  funext entry
  rw [lineItems, evidenceAt, List.map_flatMap]
  refine congrArg (List.flatMap · (linePlace entry.1).toList) ?_
  funext place
  rw [List.map_map]
  rfl

theorem mem_evidenceAt (hunk : PatchHunk) (entry : PatchLine × List EvidenceSignal)
    (item : Evidence) :
    item ∈ evidenceAt file hunk entry ↔ ∃ place, linePlace entry.1 = some place ∧
      ∃ signal ∈ entry.2, itemAt file hunk place signal = item := by
  rw [evidenceAt, List.mem_flatMap]
  simp only [Option.mem_toList, List.mem_map]

theorem mem_fileEvidence (item : Evidence) :
    item ∈ fileEvidence file ↔ ∃ hunk ∈ file.patchTwin.hunks, ∃ entry ∈ marked file hunk,
      item ∈ evidenceAt file hunk entry := by
  rw [fileEvidence_marked, List.mem_flatMap]
  simp only [List.mem_flatMap]

theorem marked_get (hunk : PatchHunk) (i : Nat) (entry : PatchLine × List EvidenceSignal)
    (held : (marked file hunk)[i]? = some entry) : hunk.lines[i]? = some entry.1 := by
  rw [marked, List.getElem?_zip_eq_some] at held
  exact held.1

theorem marked_line (hunk : PatchHunk) (i : Nat) (line : PatchLine)
    (held : hunk.lines[i]? = some line) :
    ∃ signals, (marked file hunk)[i]? = some (line, signals) := by
  have within := (List.getElem?_eq_some_iff.1 held).1
  have listed : i < (signalsOf (FileKind.of file).language (rulesFor (FileKind.of file)) {} {}
      hunk.lines).length := by
    rwa [length_signalsOf]
  exact ⟨_, List.getElem?_zip_eq_some.2 ⟨held, List.getElem?_eq_getElem listed⟩⟩

theorem marked_sublist (hunk : PatchHunk) (entry : PatchLine × List EvidenceSignal)
    (listed : entry ∈ marked file hunk) : entry.2.Sublist EvidenceSignal.all :=
  signalsOf_sublist _ _ _ _ _ entry.2 (List.of_mem_zip listed).2

abbrev Place := Nat × Nat × Nat

def Place.Before (one two : Place) : Prop :=
  one.1 < two.1 ∨ one.1 = two.1 ∧
    (one.2.1 < two.2.1 ∨ one.2.1 = two.2.1 ∧ one.2.2 < two.2.2)

def Stands (place : Place) (item : Evidence) : Prop :=
  ∃ hunk line, file.patchTwin.hunks[place.1]? = some hunk ∧ hunk.lines[place.2.1]? = some line ∧
    EvidenceSignal.all[place.2.2]? = some item.signal ∧ item.hunk = hunk.id ∧
      linePlace line = some (item.side, item.line)

/-- The evidence points at exactly one changed line each, in order, and the views agree. -/
structure Exact : Prop where
  ordered : ∃ placed : List (Place × Evidence), placed.map Prod.snd = fileEvidence file ∧
    (placed.map Prod.fst).Pairwise Place.Before ∧ ∀ entry ∈ placed, Stands file entry.1 entry.2
  once : ((fileEvidence file).map fun item =>
    (item.signal, item.hunk, item.side, item.line)).Nodup
  points : ∀ item ∈ fileEvidence file, ∃ hunk ∈ file.patchTwin.hunks, hunk.id = item.hunk ∧
    (∀ other ∈ file.patchTwin.hunks, other.id = item.hunk → other = hunk) ∧
      item.address = hunk.address file.path ∧
        ∃! i : Nat, ∃ line, hunk.lines[i]? = some line ∧ linePlace line = some (item.side, item.line)
  signals : ∀ hunk ∈ file.patchTwin.hunks, ∀ signal, signal ∈ hunkSignals file hunk ↔
    ∃ item ∈ fileEvidence file, item.hunk = hunk.id ∧ item.signal = signal

/-- A changed line that some rule hits does not share the number at which line numbers stop with
another changed line of its side of the hunk. -/
def Apart : Prop :=
  ∀ hunk ∈ file.patchTwin.hunks, ∀ (i j : Nat) (entry other : PatchLine × List EvidenceSignal)
    (side : Side), i ≠ j → (marked file hunk)[i]? = some entry →
      (marked file hunk)[j]? = some other → linePlace entry.1 = some (side, u32Max) →
        linePlace other.1 = some (side, u32Max) → entry.2 = []

theorem zipIdx_ascends {α : Type} (items : List α) :
    items.zipIdx.Pairwise fun one two => one.2 < two.2 := by
  rw [← List.pairwise_map, List.zipIdx_map_snd]
  exact List.pairwise_lt_range'

theorem all_ascends :
    EvidenceSignal.all.Pairwise fun one two =>
      EvidenceSignal.all.idxOf one < EvidenceSignal.all.idxOf two := by
  decide

def placed : List (Place × Evidence) :=
  file.patchTwin.hunks.zipIdx.flatMap fun hunk =>
    (marked file hunk.1).zipIdx.flatMap fun entry =>
      (linePlace entry.1.1).toList.flatMap fun place =>
        entry.1.2.map fun signal =>
          ((hunk.2, entry.2, EvidenceSignal.all.idxOf signal), itemAt file hunk.1 place signal)

theorem flatMap_zipIdx {α β : Type} (items : List α) (f : α → List β) :
    items.zipIdx.flatMap (fun item => f item.1) = items.flatMap f := by
  have whole := congrArg (List.flatMap f) (List.zipIdx_map_fst 0 items)
  rwa [List.flatMap_map] at whole

theorem placed_evidence : (placed file).map Prod.snd = fileEvidence file := by
  rw [fileEvidence_marked, ← flatMap_zipIdx, placed, List.map_flatMap]
  refine congrArg (List.flatMap · file.patchTwin.hunks.zipIdx) ?_
  funext hunk
  rw [← flatMap_zipIdx (marked file hunk.1), List.map_flatMap]
  refine congrArg (List.flatMap · (marked file hunk.1).zipIdx) ?_
  funext entry
  rw [evidenceAt, List.map_flatMap]
  refine congrArg (List.flatMap · (linePlace entry.1.1).toList) ?_
  funext place
  rw [List.map_map]
  rfl

theorem mem_placed (entry : Place × Evidence) (listed : entry ∈ placed file) :
    ∃ hunk line place signal, (hunk, entry.1.1) ∈ file.patchTwin.hunks.zipIdx ∧
      (line, entry.1.2.1) ∈ (marked file hunk).zipIdx ∧ linePlace line.1 = some place ∧
        signal ∈ line.2 ∧ entry.1.2.2 = EvidenceSignal.all.idxOf signal ∧
          entry.2 = itemAt file hunk place signal := by
  obtain ⟨⟨hunk, h⟩, held, listed⟩ := List.mem_flatMap.1 listed
  obtain ⟨⟨line, l⟩, inside, listed⟩ := List.mem_flatMap.1 listed
  obtain ⟨place, numbered, listed⟩ := List.mem_flatMap.1 listed
  obtain ⟨signal, found, rfl⟩ := List.mem_map.1 listed
  exact ⟨hunk, line, place, signal, held, inside, Option.mem_toList.1 numbered, found, rfl, rfl⟩

theorem placed_stands (entry : Place × Evidence) (listed : entry ∈ placed file) :
    Stands file entry.1 entry.2 := by
  obtain ⟨hunk, line, place, signal, held, inside, numbered, found, last, item⟩ :=
    mem_placed file entry listed
  have known : signal ∈ EvidenceSignal.all := by cases signal <;> decide
  refine ⟨hunk, line.1, List.mem_zipIdx_iff_getElem?.1 held,
    marked_get file hunk _ line (List.mem_zipIdx_iff_getElem?.1 inside), ?_, ?_, ?_⟩
  · rw [last, item, List.getElem?_idxOf known]
    rfl
  · rw [item]
    rfl
  · rw [item]
    exact numbered

theorem placed_ascends : ((placed file).map Prod.fst).Pairwise Place.Before := by
  rw [List.pairwise_map, placed, List.pairwise_flatMap]
  refine ⟨?_, (zipIdx_ascends _).imp ?_⟩
  · rintro ⟨hunk, h⟩ -
    rw [List.pairwise_flatMap]
    refine ⟨?_, (zipIdx_ascends _).imp ?_⟩
    · rintro ⟨⟨line, signals⟩, l⟩ held
      have sorted := all_ascends.sublist
        (marked_sublist file hunk (line, signals) (List.fst_mem_of_mem_zipIdx held))
      cases linePlace line with
      | none => exact .nil
      | some place =>
        rw [Option.toList_some, List.flatMap_singleton, List.pairwise_map]
        exact sorted.imp fun less => .inr ⟨rfl, .inr ⟨rfl, less⟩⟩
    · rintro ⟨line, l⟩ ⟨line', l'⟩ less one listed two listed'
      obtain ⟨_, _, inner⟩ := List.mem_flatMap.1 listed
      obtain ⟨_, _, inner'⟩ := List.mem_flatMap.1 listed'
      obtain ⟨_, _, rfl⟩ := List.mem_map.1 inner
      obtain ⟨_, _, rfl⟩ := List.mem_map.1 inner'
      exact .inr ⟨rfl, .inl less⟩
  · rintro ⟨hunk, h⟩ ⟨hunk', h'⟩ less one listed two listed'
    obtain ⟨_, _, middle⟩ := List.mem_flatMap.1 listed
    obtain ⟨_, _, middle'⟩ := List.mem_flatMap.1 listed'
    obtain ⟨_, _, inner⟩ := List.mem_flatMap.1 middle
    obtain ⟨_, _, inner'⟩ := List.mem_flatMap.1 middle'
    obtain ⟨_, _, rfl⟩ := List.mem_map.1 inner
    obtain ⟨_, _, rfl⟩ := List.mem_map.1 inner'
    exact .inl less

theorem mem_hunkSignals (hunk : PatchHunk) (signal : EvidenceSignal) :
    signal ∈ hunkSignals file hunk ↔
      ∃ entry ∈ marked file hunk, ∃ item ∈ evidenceAt file hunk entry, item.signal = signal := by
  have known : signal ∈ EvidenceSignal.all := by cases signal <;> decide
  rw [hunkSignals, List.mem_filter, and_iff_right known, List.any_eq_true, hunkMatches_marked]
  constructor
  · rintro ⟨found, listed, same⟩
    obtain ⟨entry, held, listed⟩ := List.mem_flatMap.1 listed
    obtain ⟨place, numbered, listed⟩ := List.mem_flatMap.1 listed
    obtain ⟨other, hit, rfl⟩ := List.mem_map.1 listed
    exact ⟨entry, held, itemAt file hunk place other, (mem_evidenceAt file hunk entry _).2
      ⟨place, Option.mem_toList.1 numbered, other, hit, rfl⟩, of_decide_eq_true same⟩
  · rintro ⟨entry, held, item, listed, rfl⟩
    obtain ⟨place, numbered, other, hit, rfl⟩ := (mem_evidenceAt file hunk entry item).1 listed
    refine ⟨(place.1, other, place.2), ?_, decide_eq_true rfl⟩
    exact List.mem_flatMap.2 ⟨entry, held, List.mem_flatMap.2
      ⟨place, Option.mem_toList.2 numbered, List.mem_map_of_mem hit⟩⟩

/-- A file in which a shared line number bears evidence does not point at one line. -/
theorem apart_of_exact (exactly : Exact file) : Apart file := by
  intro hunk listed i j entry other side apart held held' numbered numbered'
  by_contra hit
  obtain ⟨signal, hit⟩ := List.exists_mem_of_ne_nil _ hit
  have item : itemAt file hunk (side, u32Max) signal ∈ fileEvidence file :=
    (mem_fileEvidence file _).2 ⟨hunk, listed, entry, List.mem_of_getElem? held,
      (mem_evidenceAt file hunk entry _).2 ⟨_, numbered, signal, hit, rfl⟩⟩
  obtain ⟨pointed, -, -, only, -, once⟩ := exactly.points _ item
  obtain rfl := only hunk listed rfl
  exact apart (once.unique ⟨entry.1, marked_get file hunk i entry held, numbered⟩
    ⟨other.1, marked_get file hunk j other held', numbered'⟩)

end File

section Parsed

theorem repeated_stops (header : Patch.HunkHeader) (hunk : PatchHunk)
    (contract : Patch.HunkContract header hunk) :
    hunk.lines.Pairwise fun one two => ∀ side n,
      linePlace one = some (side, n) → linePlace two = some (side, n) → n = u32Max := by
  have stops (start count : Nat) :
      ((List.range count).map fun k => some (min (start + k) u32Max)).Pairwise
        fun one two => ∀ n, one = some n → two = some n → n = u32Max := by
    rw [List.pairwise_map]
    refine List.pairwise_lt_range.imp ?_
    rintro a b less n one two
    have one := Option.some.inj one
    have two := Option.some.inj two
    omega
  have old := stops header.oldStart header.oldCount
  have new := stops header.newStart header.newCount
  rw [← contract.oldLines, List.pairwise_map, List.pairwise_filter] at old
  rw [← contract.newLines, List.pairwise_map, List.pairwise_filter] at new
  refine (old.and new).imp ?_
  rintro one two ⟨oldSide, newSide⟩ side n first second
  have onOld (line : PatchLine) (numbered : linePlace line = some (.old, n)) :
      line.onOldSide = true ∧ line.oldLine = some n := by
    rw [linePlace] at numbered
    cases kind : line.kind with
    | context =>
      rw [kind] at numbered
      cases numbered
    | added =>
      rw [kind] at numbered
      obtain ⟨_, _, same⟩ := Option.map_eq_some_iff.1 numbered
      cases same
    | removed =>
      rw [kind] at numbered
      obtain ⟨_, held, same⟩ := Option.map_eq_some_iff.1 numbered
      obtain ⟨-, rfl⟩ := Prod.mk.inj same
      exact ⟨by rw [PatchLine.onOldSide, kind]; rfl, held⟩
  have onNew (line : PatchLine) (numbered : linePlace line = some (.new, n)) :
      line.onNewSide = true ∧ line.newLine = some n := by
    rw [linePlace] at numbered
    cases kind : line.kind with
    | context =>
      rw [kind] at numbered
      cases numbered
    | removed =>
      rw [kind] at numbered
      obtain ⟨_, _, same⟩ := Option.map_eq_some_iff.1 numbered
      cases same
    | added =>
      rw [kind] at numbered
      obtain ⟨_, held, same⟩ := Option.map_eq_some_iff.1 numbered
      obtain ⟨-, rfl⟩ := Prod.mk.inj same
      exact ⟨by rw [PatchLine.onNewSide, kind]; rfl, held⟩
  cases side with
  | old =>
    obtain ⟨on, held⟩ := onOld one first
    obtain ⟨on', held'⟩ := onOld two second
    exact oldSide on on' n held held'
  | new =>
    obtain ⟨on, held⟩ := onNew one first
    obtain ⟨on', held'⟩ := onNew two second
    exact newSide on on' n held held'

theorem contracted (headers : List Patch.HunkHeader) (hunks : List PatchHunk)
    (all : List.Forall₂ Patch.HunkContract headers hunks) :
    ∀ hunk ∈ hunks, ∃ header ∈ headers, Patch.HunkContract header hunk := by
  induction all with
  | nil => exact nofun
  | cons contract rest ih =>
    intro hunk listed
    rcases List.mem_cons.1 listed with rfl | later
    · exact ⟨_, List.mem_cons_self, contract⟩
    · obtain ⟨header, held, contract⟩ := ih hunk later
      exact ⟨header, List.mem_cons_of_mem _ held, contract⟩

variable (text : Str) (files : List ReviewFile) (accepted : Patch.parse text = .ok files)
  (file : ReviewFile) (listed : file ∈ files)
include accepted listed

theorem parsed_stops (hunk : PatchHunk) (held : hunk ∈ file.patchTwin.hunks) (i j : Nat)
    (one two : PatchLine) (side : Side) (n : Nat) (apart : i ≠ j)
    (first : hunk.lines[i]? = some one) (second : hunk.lines[j]? = some two)
    (numbered : linePlace one = some (side, n)) (numbered' : linePlace two = some (side, n)) :
    n = u32Max := by
  have contracts := (Patch.parse_hunks text files accepted).1
  obtain ⟨header, -, contract⟩ := contracted _ _ contracts hunk
    (List.mem_flatMap.2 ⟨file, listed, held⟩)
  have stops := List.pairwise_iff_getElem.1 (repeated_stops header hunk contract)
  obtain ⟨within, rfl⟩ := List.getElem?_eq_some_iff.1 first
  obtain ⟨within', rfl⟩ := List.getElem?_eq_some_iff.1 second
  rcases Nat.lt_or_gt_of_ne apart with less | more
  · exact stops i j within within' less side n numbered numbered'
  · exact stops j i within' within more side n numbered' numbered

theorem parsed_ids : (file.patchTwin.hunks.map (·.id)).Nodup := by
  have ids := (Patch.parse_hunks text files accepted).2.1
  have whole : ((files.flatMap (·.patchTwin.hunks)).map (·.id)).Nodup := by
    rw [ids]
    exact List.nodup_range
  refine whole.sublist (List.Sublist.map _ ?_)
  exact List.sublist_flatten_of_mem (List.mem_map_of_mem listed)

theorem parsed_same (one two : PatchHunk) (held : one ∈ file.patchTwin.hunks)
    (held' : two ∈ file.patchTwin.hunks) (same : one.id = two.id) : one = two :=
  List.inj_on_of_nodup_map (parsed_ids text files accepted file listed) held held' same

theorem exact_points (apart : Apart file) (item : Evidence) (found : item ∈ fileEvidence file) :
    ∃ hunk ∈ file.patchTwin.hunks, hunk.id = item.hunk ∧
      (∀ other ∈ file.patchTwin.hunks, other.id = item.hunk → other = hunk) ∧
        item.address = hunk.address file.path ∧
          ∃! i : Nat, ∃ line, hunk.lines[i]? = some line ∧
            linePlace line = some (item.side, item.line) := by
  obtain ⟨hunk, held, entry, marks, found⟩ := (mem_fileEvidence file item).1 found
  obtain ⟨place, numbered, signal, hit, rfl⟩ := (mem_evidenceAt file hunk entry item).1 found
  refine ⟨hunk, held, rfl, fun other held' same =>
    parsed_same text files accepted file listed other hunk held' held same, rfl, ?_⟩
  obtain ⟨i, marks⟩ := List.mem_iff_getElem?.1 marks
  refine ⟨i, ⟨entry.1, marked_get file hunk i entry marks, numbered⟩, ?_⟩
  rintro j ⟨line, second, numbered'⟩
  by_contra different
  have stop := parsed_stops text files accepted file listed hunk held i j entry.1 line place.1
    place.2 (Ne.symm different) (marked_get file hunk i entry marks) second numbered numbered'
  obtain ⟨signals, marks'⟩ := marked_line file hunk j line second
  have bare := apart hunk held i j entry (line, signals) place.1 (Ne.symm different) marks marks'
    (by rw [numbered, ← stop]) (by rw [← stop]; exact numbered')
  rw [bare] at hit
  cases hit

theorem exact_once (apart : Apart file) :
    ((fileEvidence file).map fun item => (item.signal, item.hunk, item.side, item.line)).Nodup := by
  rw [← placed_evidence, List.map_map, List.Nodup, List.pairwise_map]
  refine (List.pairwise_map.1 (placed_ascends file)).imp_of_mem ?_
  rintro ⟨one, item⟩ ⟨two, item'⟩ held held' before same
  obtain ⟨signal, same⟩ := Prod.mk.inj same
  obtain ⟨id, same⟩ := Prod.mk.inj same
  obtain ⟨side, number⟩ := Prod.mk.inj same
  obtain ⟨hunk, line, here, first, rank, own, numbered⟩ := placed_stands file _ held
  obtain ⟨hunk', line', here', second, rank', own', numbered'⟩ := placed_stands file _ held'
  dsimp only at signal id side number here first rank own numbered here' second rank' own' numbered'
  have hunks : one.1 = two.1 := by
    refine (List.getElem?_inj ?_ (parsed_ids text files accepted file listed)).1 ?_
    · rw [List.length_map]
      exact (List.getElem?_eq_some_iff.1 here).1
    · rw [List.getElem?_map, List.getElem?_map, here, here', Option.map_some, Option.map_some,
        ← own, ← own', id]
  have lines : one.2.1 = two.2.1 := by
    obtain rfl : hunk = hunk' := Option.some.inj (here.symm.trans (hunks ▸ here'))
    obtain ⟨pointed, inside, own'', -, -, once⟩ := exact_points text files accepted file listed apart item
      (by rw [← placed_evidence]; exact List.mem_map_of_mem held)
    obtain rfl := parsed_same text files accepted file listed pointed hunk inside
      (List.mem_of_getElem? here) (own''.trans own)
    exact once.unique ⟨line, first, numbered⟩ ⟨line', second, by rw [side, number]; exact numbered'⟩
  have signals : one.2.2 = two.2.2 := by
    refine (List.getElem?_inj (List.getElem?_eq_some_iff.1 rank).1 (by decide)).1 ?_
    rw [rank, rank', signal]
  rcases before with less | ⟨-, less | ⟨-, less⟩⟩
  · exact absurd hunks (Nat.ne_of_lt less)
  · exact absurd lines (Nat.ne_of_lt less)
  · exact absurd signals (Nat.ne_of_lt less)

theorem exact_signals (hunk : PatchHunk) (held : hunk ∈ file.patchTwin.hunks)
    (signal : EvidenceSignal) :
    signal ∈ hunkSignals file hunk ↔
      ∃ item ∈ fileEvidence file, item.hunk = hunk.id ∧ item.signal = signal := by
  rw [mem_hunkSignals]
  constructor
  · rintro ⟨entry, marks, item, found, rfl⟩
    refine ⟨item, (mem_fileEvidence file item).2 ⟨hunk, held, entry, marks, found⟩, ?_, rfl⟩
    obtain ⟨place, -, other, -, rfl⟩ := (mem_evidenceAt file hunk entry item).1 found
    rfl
  · rintro ⟨item, found, same, rfl⟩
    obtain ⟨other, held', entry, marks, found⟩ := (mem_fileEvidence file item).1 found
    have own : item.hunk = other.id := by
      obtain ⟨place, -, signal, -, rfl⟩ := (mem_evidenceAt file other entry item).1 found
      rfl
    obtain rfl := parsed_same text files accepted file listed other hunk held' held
      (own.symm.trans same)
    exact ⟨entry, marks, item, found, rfl⟩

/-- Evidence points at exactly one changed line each exactly when no line with evidence shares the
number at which line numbers stop. -/
theorem evidence_exact : Exact file ↔ Apart file := by
  refine ⟨apart_of_exact file, fun apart => ?_⟩
  exact ⟨⟨placed file, placed_evidence file, placed_ascends file, placed_stands file⟩,
    exact_once text files accepted file listed apart,
    exact_points text files accepted file listed apart,
    exact_signals text files accepted file listed⟩

end Parsed

def evaluating (start first second : Nat) : ReviewFile where
  path := "x.py".toList
  status := .modified
  patchTwin :=
    { binaryBody := []
      hunks :=
        [{ id := 0
           oldStart := some 3
           newStart := some start
           sectionHeading := none
           lines :=
             [{ noNewline := false, lossy := false, kind := .removed, oldLine := some 3,
                newLine := none, text := ['a'] },
              { noNewline := false, lossy := false, kind := .added, oldLine := none,
                newLine := some first, text := "eval(x)".toList },
              { noNewline := false, lossy := false, kind := .added, oldLine := none,
                newLine := some second, text := "eval(x)".toList }] }]
      metadata := []
      lossyLines := 0 }
  semanticTwin := none
  planner := { strategy := .line, fallback := none, notes := [] }

def evaluatingText (header : String) : Str :=
  unlines ["--- a/x.py".toList, "+++ b/x.py".toList, header.toList, "-a".toList,
    "+eval(x)".toList, "+eval(x)".toList]

theorem evidence_exact_apart :
    Patch.parse (evaluatingText "@@ -3 +4,2 @@") = .ok [evaluating 4 4 5] ∧
      (Exact (evaluating 4 4 5) ↔ Apart (evaluating 4 4 5)) := by
  have accepted : Patch.parse (evaluatingText "@@ -3 +4,2 @@") = .ok [evaluating 4 4 5] := by
    decide +kernel
  exact ⟨accepted, evidence_exact _ _ accepted _ List.mem_cons_self⟩

theorem evidence_repeats :
    Patch.parse (evaluatingText "@@ -3 +4294967295,2 @@") =
        .ok [evaluating 4294967295 4294967295 4294967295] ∧
      ¬ Exact (evaluating 4294967295 4294967295 4294967295) := by
  refine ⟨by decide +kernel, fun exactly => ?_⟩
  let line : PatchLine :=
    { noNewline := false, lossy := false, kind := .added, oldLine := none,
      newLine := some 4294967295, text := "eval(x)".toList }
  have bare := apart_of_exact _ exactly _ List.mem_cons_self 1 2 (line, [.dynamicEval])
    (line, [.dynamicEval]) .new (by decide) (by decide +kernel) (by decide +kernel) rfl rfl
  cases bare

end DeepDiffForge.Graph
