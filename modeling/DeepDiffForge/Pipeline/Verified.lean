import Mathlib.Algebra.BigOperators.Group.List.Basic
import Mathlib.Algebra.GroupWithZero.Nat
import DeepDiffForge.Pipeline.Replayed

/-! The files a review verified: where each of their hunk lines is the line of its number in the
sources, and where it is not. -/

namespace DeepDiffForge.Pipeline
open Text Markers Edits Fallible DeepDiffForge.Core DeepDiffForge.Patch

/-- The sources are what the hunks say: turned into each other at the stated places, and every
hunk line the line of its number on the sides it is on. -/
structure Exact (file : ReviewFile) (old new : Str) : Prop where
  turns : Turns file old new
  oldLines : ∀ hunk ∈ file.patchTwin.hunks, ∀ line ∈ hunk.lines, ∀ n, line.oldLine = some n →
    0 < n ∧ (sourceLines old)[n - 1]? = some (PatchLine.body line)
  newLines : ∀ hunk ∈ file.patchTwin.hunks, ∀ line ∈ hunk.lines, ∀ n, line.newLine = some n →
    0 < n ∧ (sourceLines new)[n - 1]? = some (PatchLine.body line)

def Holds (file : ReviewFile) (n : Nat) : Prop :=
  ∃ hunk ∈ file.patchTwin.hunks, ∃ line ∈ hunk.lines, line.oldLine = some n

def Open (line : PatchLine) : Prop := line.kind = .added ∧ line.noNewline = true

/-- What a file must not say of its old source: that old lines start at line zero, that an empty
line or one in front of kept lines is added without a newline, or that lines are added behind a
kept last line that has none. -/
structure Unbroken (file : ReviewFile) (old : Str) : Prop where
  starts : ∀ hunk ∈ file.patchTwin.hunks, hunk.oldStart = some 0 → oldSide hunk = []
  filled : ∀ hunk ∈ file.patchTwin.hunks, ∀ line ∈ hunk.lines, Open line → line.text ≠ []
  ended : ∀ hunk ∈ file.patchTwin.hunks, (∃ line ∈ hunk.lines, Open line) →
    ∀ start n, hunk.oldStart = some start → start < n → n ≤ (sourceLines old).length → Holds file n
  last : (∃ line, (sourceLines old).getLast? = some line ∧ '\n' ∉ line) →
    ¬Holds file (sourceLines old).length →
      ∀ hunk ∈ file.patchTwin.hunks, hunk.oldStart ≠ some (sourceLines old).length

structure Parsed (file : ReviewFile) : Prop where
  contract : ∀ hunk ∈ file.patchTwin.hunks, ∃ header, HunkContract header hunk
  ends : (file.patchTwin.hunks.flatMap (·.lines)).Pairwise PatchLine.endsBefore
  plain : ∀ hunk ∈ file.patchTwin.hunks, ∀ line ∈ hunk.lines, '\n' ∉ line.text

theorem parsed_of (raw : Str) (files : List ReviewFile) (accepted : parse raw = .ok files)
    (file : ReviewFile) (listed : file ∈ files) : Parsed file := by
  obtain ⟨contracts, -, ends⟩ := parse_hunks raw files accepted
  refine ⟨?_, ends file listed, (parsed_clean _ _ _ _ _ accepted file listed).2⟩
  intro hunk held
  obtain ⟨header, -, contract⟩ := results_of_forall₂ _ _ _ contracts hunk
    (List.mem_flatMap.2 ⟨file, listed, held⟩)
  exact ⟨header, contract⟩

/-! ### The lines of a side by their numbers -/

section
variable (lines : List PatchLine) (on : PatchLine → Bool) (number : PatchLine → Option Nat)
  (start count : Nat) (numbers : (lines.filter on).map number =
    (List.range count).map fun k => some (min (start + k) u32Max))
include numbers

theorem side_line (k : Nat) (body : Str)
    (there : ((lines.filter on).map PatchLine.body)[k]? = some body) :
    ∃ line ∈ lines, number line = some (min (start + k) u32Max) ∧ PatchLine.body line = body := by
  rw [List.getElem?_map] at there
  obtain ⟨line, held, same⟩ := Option.map_eq_some_iff.1 there
  have place := congrArg (·[k]?) numbers
  have within := (List.getElem?_eq_some_iff.1 held).1
  have sizes := congrArg List.length numbers
  rw [List.length_map, List.length_map, List.length_range] at sizes
  rw [sizes] at within
  refine ⟨line, (List.mem_filter.1 (List.mem_of_getElem? held)).1, ?_, same⟩
  simpa only [List.getElem?_map, held, Option.map_some, List.getElem?_range within,
    Option.some.injEq] using place

theorem side_place (off : ∀ line ∈ lines, on line = false → number line = none) (line : PatchLine)
    (listed : line ∈ lines) (n : Nat) (own : number line = some n) :
    ∃ k, ((lines.filter on).map PatchLine.body)[k]? = some (PatchLine.body line) ∧
      n = min (start + k) u32Max := by
  have held : on line = true := by
    by_contra away
    rw [off line listed (by simpa using away)] at own
    cases own
  obtain ⟨k, there⟩ := List.mem_iff_getElem?.1 (List.mem_filter.2 ⟨listed, held⟩)
  have place := congrArg (·[k]?) numbers
  have within := (List.getElem?_eq_some_iff.1 there).1
  have sizes := congrArg List.length numbers
  rw [List.length_map, List.length_map, List.length_range] at sizes
  rw [sizes] at within
  simp only [List.getElem?_map, there, Option.map_some, List.getElem?_range within, own,
    Option.some.injEq] at place
  exact ⟨k, by rw [List.getElem?_map, there, Option.map_some], place⟩

end

section
variable (header : HunkHeader) (hunk : PatchHunk) (contract : HunkContract header hunk)
include contract

theorem old_line (k : Nat) (body : Str) (there : (oldSide hunk)[k]? = some body) :
    ∃ line ∈ hunk.lines, line.oldLine = some (min (header.oldStart + k) u32Max) ∧
      PatchLine.body line = body :=
  side_line hunk.lines _ _ header.oldStart header.oldCount contract.oldLines k body there

theorem new_line (k : Nat) (body : Str) (there : (newSide hunk)[k]? = some body) :
    ∃ line ∈ hunk.lines, line.newLine = some (min (header.newStart + k) u32Max) ∧
      PatchLine.body line = body :=
  side_line hunk.lines _ _ header.newStart header.newCount contract.newLines k body there

theorem old_place (line : PatchLine) (listed : line ∈ hunk.lines) (n : Nat)
    (own : line.oldLine = some n) : ∃ k, (oldSide hunk)[k]? = some (PatchLine.body line) ∧
      n = min (header.oldStart + k) u32Max :=
  side_place hunk.lines _ _ header.oldStart header.oldCount contract.oldLines
    (fun line listed => (contract.sides line listed).1) line listed n own

theorem new_place (line : PatchLine) (listed : line ∈ hunk.lines) (n : Nat)
    (own : line.newLine = some n) : ∃ k, (newSide hunk)[k]? = some (PatchLine.body line) ∧
      n = min (header.newStart + k) u32Max :=
  side_place hunk.lines _ _ header.newStart header.newCount contract.newLines
    (fun line listed => (contract.sides line listed).2) line listed n own

theorem adds (empty : oldSide hunk = []) : newSide hunk ≠ [] := by
  obtain ⟨line, listed, changed⟩ := contract.changes
  have off : line.onOldSide = false := by
    by_contra on
    have held := List.mem_map_of_mem (f := PatchLine.body)
      (List.mem_filter.2 ⟨listed, by simpa using on⟩)
    rw [← oldSide, empty] at held
    cases held
  have added : line.kind = .added := by simpa [PatchLine.onOldSide] using off
  exact List.ne_nil_of_mem (List.mem_map_of_mem
    (List.mem_filter.2 ⟨listed, by simp [PatchLine.onNewSide, added]⟩))

end

/-! ### The bodies of the lines -/

theorem body_plain (line : PatchLine) (plain : '\n' ∉ line.text) :
    '\n' ∉ PatchLine.body line ↔ line.noNewline = true := by
  unfold PatchLine.body
  cases line.noNewline with
  | true => simpa using plain
  | false => simp

theorem body_lineish (line : PatchLine) (plain : '\n' ∉ line.text) :
    Lineish '\n' (PatchLine.body line) := by
  refine ⟨line.text, plain, ?_⟩
  unfold PatchLine.body
  cases line.noNewline with
  | true => exact .inr (List.append_nil _)
  | false => exact .inl rfl

theorem mem_newSide (hunk : PatchHunk) (body : Str) (put : body ∈ newSide hunk) :
    ∃ line ∈ hunk.lines, line.onNewSide = true ∧ PatchLine.body line = body := by
  obtain ⟨line, held, same⟩ := List.mem_map.1 put
  obtain ⟨listed, on⟩ := List.mem_filter.1 held
  exact ⟨line, listed, on, same⟩

theorem readable_source (text : Str) : Readable '\n' (sourceLines text) :=
  congrArg (pieces '\n') (flatten_pieces '\n' text)

theorem made_sides (hunks : List PatchHunk) (edits : List (Edit Str))
    (stated : List.Forall₂ States hunks edits) : edits.flatMap (·.made) =
      ((hunks.flatMap (·.lines)).filter (·.onNewSide)).map PatchLine.body := by
  induction stated with
  | nil => rfl
  | cons states stated ih =>
    rw [List.flatMap_cons, List.flatMap_cons, List.filter_append, List.map_append, ← ih,
      states.made]
    rfl

/-! ### Both readings of a replayed file -/

section
variable (file : ReviewFile) (old : Str) (parsed : Parsed file)
  (starts : ∀ hunk ∈ file.patchTwin.hunks, hunk.oldStart = some 0 → oldSide hunk = [])
  (edits : List (Edit Str)) (result : List Str)
  (stated : List.Forall₂ States file.patchTwin.hunks edits)
  (applied : Applied 0 0 (sourceLines old) edits result)
  (small : (sourceLines old).length < u32Max)
include stated

theorem edit_hunk (edit : Edit Str) (listed : edit ∈ edits) :
    ∃ hunk ∈ file.patchTwin.hunks, States hunk edit :=
  results_of_forall₂ _ _ _ stated edit listed

theorem hunk_edit (hunk : PatchHunk) (listed : hunk ∈ file.patchTwin.hunks) :
    ∃ edit ∈ edits, States hunk edit :=
  results_of_forall₂ (flip States) _ _ (List.Forall₂.flip stated) hunk listed

include parsed

theorem made_lineish : ∀ edit ∈ edits, ∀ body ∈ edit.made, Lineish '\n' body := by
  intro edit listed body put
  obtain ⟨hunk, held, states⟩ := edit_hunk file edits stated edit listed
  rw [states.made] at put
  obtain ⟨line, inside, -, rfl⟩ := mem_newSide hunk body put
  exact body_lineish line (parsed.plain hunk held line inside)

theorem made_order : EndsLast '\n' (edits.flatMap (·.made)) := by
  have plain : ∀ line ∈ file.patchTwin.hunks.flatMap (·.lines), '\n' ∉ line.text := by
    intro line listed
    obtain ⟨hunk, held, inside⟩ := List.mem_flatMap.1 listed
    exact parsed.plain hunk held line inside
  unfold EndsLast
  rw [made_sides _ _ stated, List.pairwise_map]
  have ends := List.Pairwise.and_mem.1 parsed.ends
  rw [List.pairwise_filter]
  refine ends.imp ?_
  rintro one other ⟨first, second, before⟩ on on'
  by_contra opened
  have bare := (body_plain one (plain one first)).1 opened
  exact (before bare).2 ⟨on, on'⟩

include small

theorem takes_holds (n : Nat) (within : n ≤ (sourceLines old).length) :
    Takes edits n ↔ Holds file n := by
  constructor
  · rintro ⟨edit, listed, low, high⟩
    obtain ⟨hunk, held, states⟩ := edit_hunk file edits stated edit listed
    obtain ⟨header, contract⟩ := parsed.contract hunk held
    have inside : n - edit.before - 1 < edit.gone.length := by omega
    have nonempty : edit.gone ≠ [] := by
      rintro absent
      rw [absent, List.length_nil] at inside
      omega
    obtain ⟨body, there⟩ : ∃ body, edit.gone[n - edit.before - 1]? = some body :=
      ⟨_, List.getElem?_eq_getElem inside⟩
    rw [states.gone] at there
    obtain ⟨line, listed', number, -⟩ := old_line header hunk contract _ _ there
    have start := states.old
    rw [StartsAt, if_neg nonempty, contract.starts.1, Option.some.injEq] at start
    refine ⟨hunk, held, line, listed', ?_⟩
    rw [number, start]
    congr 1
    omega
  · rintro ⟨hunk, held, line, listed, number⟩
    obtain ⟨header, contract⟩ := parsed.contract hunk held
    obtain ⟨k, there, place⟩ := old_place header hunk contract line listed n number
    obtain ⟨edit, among, states⟩ := hunk_edit file edits stated hunk held
    rw [← states.gone] at there
    have inside := (List.getElem?_eq_some_iff.1 there).1
    have nonempty : edit.gone ≠ [] := by
      rintro absent
      rw [absent, List.length_nil] at inside
      omega
    have start := states.old
    rw [StartsAt, if_neg nonempty, contract.starts.1, Option.some.injEq] at start
    exact ⟨edit, among, by omega, by omega⟩

include applied

theorem safe_of_unbroken (unbroken : Unbroken file old) : Safe '\n' 0 (sourceLines old) edits where
  filled := by
    rintro edit listed body put rfl
    obtain ⟨hunk, held, states⟩ := edit_hunk file edits stated edit listed
    rw [states.made] at put
    obtain ⟨line, inside, on, same⟩ := mem_newSide hunk [] put
    have bare := (body_plain line (parsed.plain hunk held line inside)).1
      (by rw [same]; exact List.not_mem_nil)
    cases kind : line.kind with
    | removed => simp [PatchLine.onNewSide, kind] at on
    | added =>
      rw [PatchLine.body, bare] at same
      exact unbroken.filled hunk held line inside ⟨kind, bare⟩ (List.append_eq_nil_iff.1 same).1
    | context =>
      have taken : [] ∈ edit.gone := by
        rw [states.gone, ← same]
        exact List.mem_map_of_mem (List.mem_filter.2
          ⟨inside, by simp [PatchLine.onOldSide, kind]⟩)
      obtain ⟨k, there⟩ := List.mem_iff_getElem?.1 taken
      exact (readable_mem '\n' _ (readable_source old) [] (List.mem_of_getElem?
        (applied_gone 0 0 _ _ edits applied edit listed k [] there))).1 rfl
  ended := by
    rintro edit listed ⟨body, put, plain⟩ n past within
    rw [Nat.zero_add] at within
    obtain ⟨hunk, held, states⟩ := edit_hunk file edits stated edit listed
    rw [states.made] at put
    obtain ⟨line, inside, on, rfl⟩ := mem_newSide hunk body put
    have bare := (body_plain line (parsed.plain hunk held line inside)).1 plain
    cases kind : line.kind with
    | removed => simp [PatchLine.onNewSide, kind] at on
    | added =>
      apply (takes_holds file old parsed edits stated small n within).2
      have start := states.old
      refine unbroken.ended hunk held ⟨line, inside, kind, bare⟩ _ n start ?_ within
      split_ifs with absent
      · omega
      · have present := List.length_pos_of_ne_nil absent
        omega
    | context =>
      have taken : PatchLine.body line ∈ edit.gone := by
        rw [states.gone]
        exact List.mem_map_of_mem (List.mem_filter.2
          ⟨inside, by simp [PatchLine.onOldSide, kind]⟩)
      obtain ⟨k, there⟩ := List.mem_iff_getElem?.1 taken
      have inner := (List.getElem?_eq_some_iff.1 there).1
      have final := readable_last '\n' _ (readable_source old) _ _
        (applied_gone 0 0 _ _ edits applied edit listed k _ there) plain
      omega
  last := by
    rintro ⟨line, final, plain⟩ ⟨edit, listed, gone, -, place⟩
    rw [Nat.zero_add] at place ⊢
    by_contra left
    obtain ⟨hunk, held, states⟩ := edit_hunk file edits stated edit listed
    have holds := takes_holds file old parsed edits stated small
      (sourceLines old).length (Nat.le_refl _)
    have start := states.old
    rw [StartsAt, if_pos gone, place] at start
    exact unbroken.last ⟨line, final, plain⟩ (fun inside => left (holds.2 inside)) hunk held start

include starts

omit applied in
theorem unbroken_of_safe (safe : Safe '\n' 0 (sourceLines old) edits) : Unbroken file old where
  starts := starts
  filled := by
    rintro hunk held line inside ⟨kind, bare⟩ empty
    obtain ⟨edit, listed, states⟩ := hunk_edit file edits stated hunk held
    have put : PatchLine.body line ∈ edit.made := by
      rw [states.made]
      exact List.mem_map_of_mem (List.mem_filter.2 ⟨inside, by simp [PatchLine.onNewSide, kind]⟩)
    apply safe.filled edit listed _ put
    rw [PatchLine.body, empty, bare]
    rfl
  ended := by
    rintro hunk held ⟨line, inside, kind, bare⟩ start n given past within
    obtain ⟨edit, listed, states⟩ := hunk_edit file edits stated hunk held
    apply (takes_holds file old parsed edits stated small n within).1
    have place := states.old
    rw [StartsAt, given, Option.some.injEq] at place
    by_cases own : n ≤ edit.before + edit.gone.length
    · refine ⟨edit, listed, ?_, own⟩
      split_ifs at place <;> omega
    · apply safe.ended edit listed _ n (by omega) (by omega)
      refine ⟨PatchLine.body line, ?_, ?_⟩
      · rw [states.made]
        exact List.mem_map_of_mem (List.mem_filter.2 ⟨inside, by simp [PatchLine.onNewSide, kind]⟩)
      · exact (body_plain line (parsed.plain hunk held line inside)).2 bare
  last := by
    intro final left hunk held given
    obtain ⟨edit, listed, states⟩ := hunk_edit file edits stated hunk held
    apply left
    apply (takes_holds file old parsed edits stated small _ (Nat.le_refl _)).1
    have place := states.old
    rw [StartsAt, given, Option.some.injEq] at place
    by_cases absent : edit.gone = []
    · rw [if_pos absent] at place
      obtain ⟨header, contract⟩ := parsed.contract hunk held
      have put := adds header hunk contract (states.gone.symm.trans absent)
      have taken := safe.last final ⟨edit, listed, absent, states.made ▸ put, by omega⟩
      rwa [Nat.zero_add] at taken
    · rw [if_neg absent] at place
      have present := List.length_pos_of_ne_nil absent
      exact ⟨edit, listed, by omega, by omega⟩

end

theorem numbered_of (file : ReviewFile) (parsed : Parsed file)
    (starts : ∀ hunk ∈ file.patchTwin.hunks, hunk.oldStart = some 0 → oldSide hunk = [])
    (hunk : PatchHunk) (listed : hunk ∈ file.patchTwin.hunks) : Numbered hunk := by
  obtain ⟨header, contract⟩ := parsed.contract hunk listed
  refine ⟨⟨header.oldStart, contract.starts.1, ?_⟩, ?_⟩
  · intro present zero
    exact present (starts hunk listed (contract.starts.1.trans (congrArg some zero)))
  · rw [contract.starts.2]
    rfl

theorem numbered_fromOne (file : ReviewFile) (parsed : Parsed file) :
    ∀ hunk ∈ (readFromOne file).patchTwin.hunks, Numbered hunk := by
  intro hunk held
  obtain ⟨hunk, held', rfl⟩ := List.mem_map.1 held
  obtain ⟨header, contract⟩ := parsed.contract hunk held'
  refine ⟨⟨(fromOne hunk).oldStart.getD 0, ?_, ?_⟩, ?_⟩
  · unfold fromOne
    dsimp only
    rw [contract.starts.1]
    split_ifs <;> rfl
  · intro filled zero
    change oldSide hunk ≠ [] at filled
    unfold fromOne at zero
    dsimp only at zero
    rw [contract.starts.1] at zero
    split_ifs at zero with first
    · cases zero
    · exact first ⟨filled, congrArg some zero⟩
  · change hunk.newStart.isSome
    rw [contract.starts.2]
    rfl

theorem parsed_turns (file : ReviewFile) (parsed : Parsed file) (old new : Str) :
    patchMatches file old new = true ↔ Turns (readFromOne file) old new := by
  rw [← patchMatches_fromOne]
  exact patchMatches_turns _ old new (numbered_fromOne file parsed)

/-- The sources of a parsed file are accepted just when its hunks, read from line one on and each
at its stated places, turn the old one into the new one. -/
theorem replay_turns (raw : Str) (files : List ReviewFile) (accepted : parse raw = .ok files)
    (file : ReviewFile) (listed : file ∈ files) (old new : Str) :
    patchMatches file old new = true ↔ Turns (readFromOne file) old new :=
  parsed_turns file (parsed_of raw files accepted file listed) old new

/-- An insertion without its newline in front of a kept line. -/
def joinedFile : ReviewFile where
  path := "x.rs".toList
  status := .modified
  patchTwin :=
    { binaryBody := []
      hunks :=
        [{ id := 0, oldStart := some 0, newStart := some 1, sectionHeading := none
           lines :=
             [{ noNewline := true, lossy := false, kind := .added, oldLine := none,
                newLine := some 1, text := ['x'] }] }]
      metadata := ["\\ No newline at end of file".toList]
      lossyLines := 0 }
  semanticTwin := none
  planner := { strategy := .line, fallback := none, notes := [] }

theorem parse_joined :
    parse "--- a/x.rs\n+++ b/x.rs\n@@ -0,0 +1 @@\n+x\n\\ No newline at end of file\n".toList =
      .ok [joinedFile] := by
  decide +kernel

theorem replay_turns_joined :
    Turns (readFromOne joinedFile) "a\n".toList "xa\n".toList :=
  (replay_turns _ _ parse_joined joinedFile List.mem_cons_self _ _).1 (by decide)

section
variable (file : ReviewFile) (old new : Str) (parsed : Parsed file)
  (matched : patchMatches file old new = true) (oldSmall : (sourceLines old).length < u32Max)
  (newSmall : (sourceLines new).length < u32Max)
include parsed matched oldSmall newSmall

theorem unbroken_of_exact (exact : Exact file old new) : Unbroken file old := by
  have starts : ∀ hunk ∈ file.patchTwin.hunks, hunk.oldStart = some 0 → oldSide hunk = [] := by
    intro hunk held zero
    by_contra nonempty
    obtain ⟨header, contract⟩ := parsed.contract hunk held
    obtain ⟨body, there⟩ : ∃ body, (oldSide hunk)[0]? = some body :=
      ⟨_, List.getElem?_eq_getElem (List.length_pos_of_ne_nil nonempty)⟩
    obtain ⟨line, inside, number, -⟩ := old_line header hunk contract 0 body there
    have start : header.oldStart = 0 := by
      rw [contract.starts.1] at zero
      exact Option.some.inj zero
    have least := (exact.oldLines hunk held line inside _ number).1
    rw [start] at least
    exact absurd least (by decide)
  obtain ⟨edits, result, stated, applied, rfl⟩ := exact.turns
  apply unbroken_of_safe file old parsed starts edits stated oldSmall
  apply safe_of_readable '\n' 0 0 _ result edits applied
  apply (readable_iff_placed '\n' 0 0 _ result edits applied (readable_source old)
    (made_lineish file parsed edits stated)).2
  intro edit listed k body there
  obtain ⟨hunk, held, states⟩ := edit_hunk file edits stated edit listed
  obtain ⟨header, contract⟩ := parsed.contract hunk held
  have nonempty : edit.made ≠ [] := List.ne_nil_of_mem (List.mem_of_getElem? there)
  have start := states.new
  rw [StartsAt, if_neg nonempty, contract.starts.2, Option.some.injEq] at start
  rw [states.made] at there
  obtain ⟨line, inside, number, rfl⟩ := new_line header hunk contract k body there
  obtain ⟨least, read⟩ := exact.newLines hunk held line inside _ number
  have within := (List.getElem?_eq_some_iff.1 read).1
  change (sourceLines result.flatten)[edit.after + k - 0]? = some (PatchLine.body line)
  rw [← read]
  congr 1
  omega

theorem exact_of_unbroken (unbroken : Unbroken file old) : Exact file old new := by
  have numbered := numbered_of file parsed unbroken.starts
  have turns := (patchMatches_turns file old new numbered).1 matched
  obtain ⟨edits, result, stated, applied, rfl⟩ := turns
  have safe := safe_of_unbroken file old parsed edits result stated applied oldSmall unbroken
  have read : sourceLines result.flatten = result :=
    readable_of_safe '\n' 0 0 _ result edits applied (readable_source old)
      (made_lineish file parsed edits stated) (made_order file parsed edits stated) safe
  rw [read] at newSmall
  refine ⟨⟨edits, result, stated, applied, rfl⟩, ?_, ?_⟩
  · intro hunk held line inside n number
    obtain ⟨header, contract⟩ := parsed.contract hunk held
    obtain ⟨edit, listed, states⟩ := hunk_edit file edits stated hunk held
    obtain ⟨k, there, rfl⟩ := old_place header hunk contract line inside n number
    rw [← states.gone] at there
    have nonempty : edit.gone ≠ [] := List.ne_nil_of_mem (List.mem_of_getElem? there)
    have start := states.old
    rw [StartsAt, if_neg nonempty, contract.starts.1, Option.some.injEq] at start
    have place := applied_gone 0 0 _ result edits applied edit listed k _ there
    have within := (List.getElem?_eq_some_iff.1 place).1
    refine ⟨by omega, ?_⟩
    rw [← place]
    congr 1
    omega
  · intro hunk held line inside n number
    obtain ⟨header, contract⟩ := parsed.contract hunk held
    obtain ⟨edit, listed, states⟩ := hunk_edit file edits stated hunk held
    obtain ⟨k, there, rfl⟩ := new_place header hunk contract line inside n number
    rw [← states.made] at there
    have nonempty : edit.made ≠ [] := List.ne_nil_of_mem (List.mem_of_getElem? there)
    have start := states.new
    rw [StartsAt, if_neg nonempty, contract.starts.2, Option.some.injEq] at start
    have place := applied_made 0 0 _ result edits applied edit listed k _ there
    have within := (List.getElem?_eq_some_iff.1 place).1
    rw [read]
    refine ⟨by omega, ?_⟩
    rw [← place]
    congr 1
    omega

theorem exact_iff_unbroken : Exact file old new ↔ Unbroken file old :=
  ⟨unbroken_of_exact file old new parsed matched oldSmall newSmall,
    exact_of_unbroken file old new parsed matched oldSmall newSmall⟩

end

/-! ### The files of a review -/

theorem sourceLines_short (text : Str) : (sourceLines text).length ≤ (Utf8.encode text).length := by
  have filled : ∀ line ∈ (sourceLines text).map List.length, 1 ≤ line := by
    rw [List.forall_mem_map]
    intro line listed
    exact List.length_pos_of_ne_nil (readable_mem '\n' _ (readable_source text) line listed).1
  have sized : ∀ size ∈ text.map fun c => (String.utf8EncodeChar c).length, 1 ≤ size := by
    rw [List.forall_mem_map]
    intro c _
    rw [String.length_utf8EncodeChar]
    exact c.utf8Size_pos
  calc (sourceLines text).length = ((sourceLines text).map List.length).length :=
        (List.length_map _).symm
    _ ≤ ((sourceLines text).map List.length).sum := List.length_le_sum_of_one_le _ filled
    _ = text.length := by rw [← List.length_flatten, sourceLines, flatten_pieces]
    _ = (text.map fun c => (String.utf8EncodeChar c).length).length := (List.length_map _).symm
    _ ≤ (text.map fun c => (String.utf8EncodeChar c).length).sum :=
        List.length_le_sum_of_one_le _ sized
    _ = (Utf8.encode text).length := by rw [Utf8.encode, List.length_flatMap]

/-- The sources taken so far: of different paths of the patch, each within the budget. -/
structure Gathered (paths : List Str) (done : List SourcePair) (state : List SourcePair × Nat) :
    Prop where
  held : state.1 = done
  apart : (done.map (·.path)).Nodup
  known : ∀ pair ∈ done, pair.path ∈ paths
  small : ∀ pair ∈ done, (sourceLines (pair.old.getD [])).length < u32Max ∧
    (sourceLines (pair.new.getD [])).length < u32Max

theorem add_gathered (debugText : Str → Str) (paths : List Str) (done : List SourcePair)
    (state next : List SourcePair × Nat) (pair : SourcePair) (gathered : Gathered paths done state)
    (taken : addSource debugText paths state pair = .ok next) :
    Gathered paths (done ++ [pair]) next := by
  unfold addSource at taken
  dsimp only at taken
  split_ifs at taken with heavy listed
  · cases taken
  · cases taken
    rw [gathered.held] at listed ⊢
    rw [Bool.or_eq_true, not_or] at listed
    obtain ⟨fresh, known⟩ := listed
    have within (text : Option Str)
        (few : (text.elim 0 fun text => (Utf8.encode text).length) ≤ defaultByteBudget) :
        (sourceLines (text.getD [])).length < u32Max := by
      cases text with
      | none => decide
      | some text => exact (sourceLines_short text).trans_lt (few.trans_lt (by decide))
    have budget : defaultByteBudget < 2 ^ 64 - 1 := by decide
    unfold saturatingAdd64 u64Max at heavy
    exact {
      held := rfl
      apart := by
        rw [List.map_append, List.nodup_append]
        refine ⟨gathered.apart, List.nodup_singleton _, ?_⟩
        rintro path one other two rfl
        obtain ⟨earlier, member, same⟩ := List.mem_map.1 one
        rw [List.map_singleton, List.mem_singleton] at two
        apply fresh
        rw [List.any_eq_true]
        exact ⟨earlier, member, decide_eq_true (same.trans two)⟩
      known := by
        rw [List.forall_mem_append, List.forall_mem_singleton]
        refine ⟨gathered.known, ?_⟩
        simpa using known
      small := by
        rw [List.forall_mem_append, List.forall_mem_singleton]
        exact ⟨gathered.small, within _ (by omega), within _ (by omega)⟩ }

theorem sources_gathered (debugText : Str → Str) (paths : List Str) (sources : List SourcePair)
    (last : List SourcePair × Nat)
    (folded : sources.foldlM (addSource debugText paths) ([], 0) = .ok last) :
    Gathered paths sources last := by
  induction sources using List.reverseRecOn generalizing last with
  | nil =>
    cases folded
    exact {
      held := rfl
      apart := List.nodup_nil
      known := fun pair listed => absurd listed List.not_mem_nil
      small := fun pair listed => absurd listed List.not_mem_nil }
  | append_singleton sources pair ih =>
    rw [List.foldlM_append] at folded
    obtain ⟨state, before, rest⟩ := (bind_eq_ok _ _ _).1 folded
    rw [List.foldlM_cons] at rest
    obtain ⟨next, taken, same⟩ := (bind_eq_ok _ _ _).1 rest
    cases same
    exact add_gathered debugText paths sources state _ pair (ih state before) taken

structure Verified (file : ReviewFile) (pair : SourcePair) : Prop where
  path : pair.path = file.path
  kind : verifiable file = true
  absence : absenceValid file pair = true
  turns : Turns (readFromOne file) (pair.old.getD []) (pair.new.getD [])
  exact : Exact file (pair.old.getD []) (pair.new.getD []) ↔ Unbroken file (pair.old.getD [])

inductive Judged (sources : List SourcePair) (file : ReviewFile) (analysis : FileAnalysis) : Prop
  | missing (coverage : analysis.coverage = .missingSource) (bare : analysis.structural = none)
      (absent : ∀ pair ∈ sources, pair.path ≠ file.path)
  | unsupported (coverage : analysis.coverage = .unsupportedChange)
      (bare : analysis.structural = none) (pair : SourcePair) (listed : pair ∈ sources)
      (path : pair.path = file.path) (kind : verifiable file = false)
  | verified (bare : analysis.structural ≠ none) (pair : SourcePair) (listed : pair ∈ sources)
      (only : ∀ other ∈ sources, other.path = file.path → other = pair)
      (verified : Verified file pair)

theorem file_judged (engine : Engine) (debugText : Str → Str) (paths : List Str)
    (pairs : List SourcePair) (total : Nat) (gathered : Gathered paths pairs (pairs, total))
    (state next : Analyzed) (file : ReviewFile) (parsed : Parsed file)
    (taken : Analyzed.file engine debugText pairs state file = .ok next) :
    ∃ analysis, next.analyses = state.analyses ++ [analysis] ∧ Judged pairs file analysis := by
  unfold Analyzed.file at taken
  split at taken
  · rename_i absent
    cases taken
    refine ⟨_, rfl, .missing rfl rfl ?_⟩
    simpa using absent
  · rename_i pair found
    have listed := List.mem_of_find?_eq_some found
    have path : pair.path = file.path := by simpa using List.find?_some found
    split_ifs at taken with unsupported mismatch
    · cases taken
      exact ⟨_, rfl, .unsupported rfl rfl pair listed path (by simpa using unsupported)⟩
    · cases taken
      rw [Bool.or_eq_true, not_or] at mismatch
      obtain ⟨absence, matched⟩ := mismatch
      rw [Bool.not_eq_true, Bool.not_eq_false'] at absence matched
      obtain ⟨oldSmall, newSmall⟩ := gathered.small pair listed
      refine ⟨_, rfl, .verified (Option.some_ne_none _) pair listed ?_ ?_⟩
      · intro other among same
        exact List.inj_on_of_nodup_map gathered.apart among listed (same.trans path.symm)
      · exact {
          path := path
          kind := by simpa using unsupported
          absence := absence
          turns := (parsed_turns file parsed _ _).1 matched
          exact := exact_iff_unbroken file _ _ parsed matched oldSmall newSmall }

theorem files_judged (engine : Engine) (debugText : Str → Str) (paths : List Str)
    (pairs : List SourcePair) (total : Nat) (gathered : Gathered paths pairs (pairs, total))
    (files : List ReviewFile) (parsed : ∀ file ∈ files, Parsed file) (last : Analyzed)
    (folded : files.foldlM (Analyzed.file engine debugText pairs) ⟨[], [], 0⟩ = .ok last) :
    List.Forall₂ (Judged pairs) files last.analyses := by
  induction files using List.reverseRecOn generalizing last with
  | nil =>
    cases folded
    exact .nil
  | append_singleton files file ih =>
    rw [List.foldlM_append] at folded
    obtain ⟨state, before, rest⟩ := (bind_eq_ok _ _ _).1 folded
    rw [List.foldlM_cons] at rest
    obtain ⟨next, taken, same⟩ := (bind_eq_ok _ _ _).1 rest
    cases same
    rw [List.forall_mem_append, List.forall_mem_singleton] at parsed
    obtain ⟨analysis, grown, judged⟩ := file_judged engine debugText paths pairs total gathered
      state _ file parsed.2 taken
    rw [grown]
    exact List.rel_append (ih parsed.1 state before) (.cons judged .nil)

/-- In every accepted review, each file has no sources, is of a kind that sources cannot verify,
or has just one pair of them: the pair its hunks, read from line one on, turn into each other, and
whose lines they hold exactly where the file is unbroken. -/
theorem analyze_verified (engine : Engine) (debugText : Str → Str) (raw : Str)
    (sources : List SourcePair) (bundle : ReviewBundle)
    (accepted : analyzeReviewWith engine debugText raw sources = .ok bundle) :
    List.Forall₂ (Judged sources) bundle.patch.files bundle.analyses := by
  unfold analyzeReviewWith at accepted
  obtain ⟨patch, captured, accepted⟩ := (bind_eq_ok _ _ _).1 accepted
  have parsed : ∀ file ∈ patch.files, Parsed file := by
    cases read : parse raw with
    | error error =>
      rw [capture, read] at captured
      cases captured
    | ok files =>
      rw [capture, read] at captured
      cases captured
      exact fun file listed => parsed_of raw files read file listed
  dsimp only at accepted
  by_cases repeated : ¬(patch.files.map (·.path)).Nodup
  · rw [if_pos repeated] at accepted
    cases accepted
  rw [if_neg repeated] at accepted
  obtain ⟨⟨pairs, total⟩, taken, accepted⟩ := (bind_eq_ok _ _ _).1 accepted
  obtain ⟨analyzed, folded, made⟩ := (bind_eq_ok _ _ _).1 accepted
  cases made
  have gathered := sources_gathered debugText _ sources _ taken
  obtain rfl : pairs = sources := gathered.held
  exact files_judged engine debugText _ pairs total gathered patch.files parsed analyzed folded

/-- A review is accepted whose patch and sources are not exact. -/
theorem analyze_verified_joined :
    ∃ bundle, analyzeReviewWith swapEngine id
        "--- a/x.rs\n+++ b/x.rs\n@@ -0,0 +1 @@\n+x\n\\ No newline at end of file\n".toList
        [⟨"x.rs".toList, some "a\n".toList, some "xa\n".toList, by decide, by decide, by decide⟩] =
          .ok bundle ∧
      List.Forall₂ (Judged [⟨"x.rs".toList, some "a\n".toList, some "xa\n".toList, by decide,
        by decide, by decide⟩]) bundle.patch.files bundle.analyses ∧
      ∃ file ∈ bundle.patch.files, ¬Exact file "a\n".toList "xa\n".toList := by
  obtain ⟨bundle, accepted, files, -⟩ := analyze_accepts swapEngine id
    "--- a/x.rs\n+++ b/x.rs\n@@ -0,0 +1 @@\n+x\n\\ No newline at end of file\n".toList
    [⟨"x.rs".toList, some "a\n".toList, some "xa\n".toList, by decide, by decide, by decide⟩]
    [⟨"x.rs".toList, some "a\n".toList, some "xa\n".toList, by decide, by decide, by decide⟩] 5
    [joinedFile] _ parse_joined (by decide) rfl rfl
  refine ⟨bundle, accepted, analyze_verified swapEngine id _ _ bundle accepted, joinedFile, ?_, ?_⟩
  · rw [files]
    exact List.mem_cons_self
  · intro exact
    have read := (exact.newLines _ List.mem_cons_self _ List.mem_cons_self 1 rfl).2
    exact absurd read (by decide)

end DeepDiffForge.Pipeline
