import DeepDiffForge.Agent.Findings
import DeepDiffForge.Lib.Fallible
import Mathlib.Data.List.Nodup

/-! Every finding gets one verdict, and what is accepted is anchored in the review. -/

namespace DeepDiffForge.Agent
open Text DeepDiffForge.Core Fallible

section Anchors
variable (files : List ReviewFile)

theorem mem_orInsert {β : Type} (map : List (Str × β)) (entry other : Str × β)
    (listed : other ∈ orInsert map entry) : other ∈ map ∨ other = entry := by
  rw [orInsert] at listed
  split at listed
  · exact .inl listed
  · rcases List.mem_append.1 listed with old | new
    · exact .inl old
    · exact .inr (List.mem_singleton.1 new)

theorem mem_foldl_orInsert {β : Type} (entries map : List (Str × β)) (other : Str × β)
    (listed : other ∈ entries.foldl orInsert map) : other ∈ map ∨ other ∈ entries := by
  induction entries generalizing map with
  | nil => exact .inl listed
  | cons entry entries ih =>
    rcases ih _ listed with held | later
    · rcases mem_orInsert map entry other held with old | rfl
      · exact .inl old
      · exact .inr (by simp)
    · exact .inr (by simp [later])

theorem findAddress_some (address : Str) (file : ReviewFile) (hunk : PatchHunk)
    (found : findAddress files address = some (file, hunk)) :
    file ∈ files ∧ hunk ∈ file.patchTwin.hunks := by
  obtain ⟨entry, held, same⟩ := Option.map_eq_some_iff.1 found
  rcases mem_foldl_orInsert _ _ _ (List.mem_of_find?_eq_some held) with absent | listed
  · cases absent
  · obtain ⟨owner, member, listed⟩ := List.mem_flatMap.1 listed
    obtain ⟨own, inside, rfl⟩ := List.mem_map.1 listed
    obtain ⟨rfl, rfl⟩ := Prod.mk.inj same
    exact ⟨member, inside⟩

theorem resolve_ok (path address : Option Str) (line : Option Nat) (side : LineSide)
    (file : ReviewFile) (anchor : AnchorKind) (hunk : Option PatchHunk)
    (resolved : resolve files path address line side = .ok (file, anchor, hunk)) :
    file ∈ files ∧ ∀ own ∈ hunk, own ∈ file.patchTwin.hunks := by
  unfold resolve at resolved
  split at resolved
  · split at resolved
    · rename_i owner own found
      split at resolved
      · cases resolved
        obtain ⟨member, inside⟩ := findAddress_some files _ file own found
        exact ⟨member, by simpa using inside⟩
      · cases resolved
    · cases resolved
  · split at resolved
    · cases resolved
    · rename_i wanted
      split at resolved
      · cases resolved
      · rename_i first later sections
        have listed (other : ReviewFile) (member : other ∈ first :: later) : other ∈ files := by
          rw [← sections] at member
          exact (List.mem_filter.1 member).1
        split at resolved
        · cases resolved
          exact ⟨listed file (by simp), by simp⟩
        · rename_i number
          generalize search : List.findSome? _ (first :: later) = answer at resolved
          cases answer with
          | none => cases resolved
          | some answer =>
            obtain rfl := Except.ok.inj resolved
            obtain ⟨owner, member, found⟩ := List.exists_of_findSome?_eq_some search
            obtain ⟨own, held, same⟩ := Option.map_eq_some_iff.1 found
            cases same
            exact ⟨listed file member, by simpa using List.mem_of_find?_eq_some held⟩

structure Quotes (hunk : PatchHunk) (quoted : AcceptedLine) : Prop where
  held : ∃ line ∈ hunk.lines, lineNumber quoted.side line = some quoted.number ∧
    quoted.kind = PatchLineKind.label line.kind ∧
    quoted.text = displaySafeBounded line.text lineTextBytes ∧
    ∃ shown rest, line.text = shown ++ rest ∧ byteLength (displaySafe shown) ≤ lineTextBytes ∧
      quoted.text = displaySafe shown ++ (if rest = [] then [] else omitted (byteLength rest))
  safe : ∀ c ∈ quoted.text, shownSafely c = true

theorem lineIn_some (hunk : PatchHunk) (side : LineSide) (number : Nat) (quoted : AcceptedLine)
    (found : lineIn hunk side number = some quoted) : Quotes hunk quoted := by
  obtain ⟨line, held, rfl⟩ := Option.map_eq_some_iff.1 found
  have member := List.mem_of_find?_eq_some held
  have numbered : lineNumber side line = some number := by simpa using List.find?_some held
  exact ⟨⟨line, member, numbered, rfl, rfl, displaySafeBounded_shown _ _⟩, shownSafely_bounded _ _⟩

def Anchored (found : Accepted) : Prop :=
  ∃ file ∈ files, file.path = found.path ∧
    ((found.address = none ∧ found.line = none) ∨
      ∃ hunk ∈ file.patchTwin.hunks, found.address = some (hunk.address file.path) ∧
        ∀ quoted ∈ found.line, Quotes hunk quoted)

end Anchors

section Check
variable (fromStr : Str → Option Value) (files : List ReviewFile) (inputSha256 : Str)

/-- An entry is an object that names this review or none. -/
def OfReview (raw : Str) : Prop :=
  ∃ members, fromStr raw = some (.object members) ∧
    ∀ value, get members "review".toList = some value → value = .string inputSha256

theorem refuseIf_ok (bad : Bool) (reason : Refusal) (passed : Unit)
    (ok : refuseIf bad reason = .ok passed) : bad = false := by
  cases bad with
  | false => rfl
  | true => cases ok

theorem readObject_ok (raw : Str) (members : List (Str × Value))
    (read : readObject fromStr raw = .ok members) : fromStr raw = some (.object members) := by
  unfold readObject at read
  split at read
  · rename_i found
    rw [found, Except.ok.inj read]
  · cases read

theorem stringField_ok (members : List (Str × Value)) (key : Str) (text : Option Str)
    (read : stringField members key = .ok text) : get members key = text.map .string := by
  unfold stringField at read
  split at read
  · rename_i found
    obtain rfl := Except.ok.inj read
    exact found
  · rename_i found
    obtain rfl := Except.ok.inj read
    exact found
  · cases read

theorem acceptedLine_ok (line : Option Nat) (hunk : Option PatchHunk) (side : LineSide)
    (quoted : Option AcceptedLine) (ok : acceptedLine line hunk side = .ok quoted) :
    (hunk = none → quoted = none) ∧ ∀ own ∈ hunk, ∀ found ∈ quoted, Quotes own found := by
  unfold acceptedLine at ok
  split at ok
  · rename_i number own
    cases search : lineIn own side number with
    | none =>
      rw [search] at ok
      cases ok
    | some found =>
      rw [search] at ok
      obtain rfl := Except.ok.inj ok
      refine ⟨by simp, ?_⟩
      rintro _ ⟨⟩ _ ⟨⟩
      exact lineIn_some own side number found search
  · cases ok
  · obtain rfl := Except.ok.inj ok
    simp

theorem check_reads (raw : Str) (index : Nat) (found : Accepted)
    (ok : check fromStr files inputSha256 raw index = .ok found) :
    ∃ members agent severity title body side line evidence address path model id review file anchor
      hunk quoted, readObject fromStr raw = .ok members ∧
      required members "agent".toList = .ok agent ∧
      required members "title".toList = .ok title ∧ required members "body".toList = .ok body ∧
      evidenceField members = .ok evidence ∧ stringField members "model".toList = .ok model ∧
      stringField members "id".toList = .ok id ∧
      stringField members "review".toList = .ok review ∧
      (review.any fun named => named ≠ inputSha256) = false ∧
      resolve files path address line side = .ok (file, anchor, hunk) ∧
      acceptedLine line hunk side = .ok quoted ∧
      found = {
        index
        agent := sanitizeBody agent
        model := model.map sanitizeBody
        id := id.map sanitizeBody
        severity
        title := sanitizeBody title
        body := sanitizeBody body
        path := file.path
        anchor
        address := hunk.map fun hunk => hunk.address file.path
        line := quoted
        evidence := evidence.map sanitizeBody } := by
  unfold check at ok
  obtain ⟨members, read, ok⟩ := (bind_eq_ok _ _ _).1 ok
  obtain ⟨-, -, ok⟩ := (bind_eq_ok _ _ _).1 ok
  obtain ⟨schema, -, ok⟩ := (bind_eq_ok _ _ _).1 ok
  obtain ⟨-, -, ok⟩ := (bind_eq_ok _ _ _).1 ok
  obtain ⟨agent, author, ok⟩ := (bind_eq_ok _ _ _).1 ok
  obtain ⟨severity, -, ok⟩ := (bind_eq_ok _ _ _).1 ok
  obtain ⟨severe, -, ok⟩ := (bind_eq_ok _ _ _).1 ok
  obtain ⟨title, titled, ok⟩ := (bind_eq_ok _ _ _).1 ok
  obtain ⟨body, told, ok⟩ := (bind_eq_ok _ _ _).1 ok
  obtain ⟨side, -, ok⟩ := (bind_eq_ok _ _ _).1 ok
  obtain ⟨line, -, ok⟩ := (bind_eq_ok _ _ _).1 ok
  obtain ⟨evidence, shown, ok⟩ := (bind_eq_ok _ _ _).1 ok
  obtain ⟨address, -, ok⟩ := (bind_eq_ok _ _ _).1 ok
  obtain ⟨path, -, ok⟩ := (bind_eq_ok _ _ _).1 ok
  obtain ⟨model, shift, ok⟩ := (bind_eq_ok _ _ _).1 ok
  obtain ⟨id, known, ok⟩ := (bind_eq_ok _ _ _).1 ok
  obtain ⟨-, -, ok⟩ := (bind_eq_ok _ _ _).1 ok
  obtain ⟨review, named, ok⟩ := (bind_eq_ok _ _ _).1 ok
  obtain ⟨_, fresh, ok⟩ := (bind_eq_ok _ _ _).1 ok
  obtain ⟨-, -, ok⟩ := (bind_eq_ok _ _ _).1 ok
  obtain ⟨⟨file, anchor, hunk⟩, resolved, ok⟩ := (bind_eq_ok _ _ _).1 ok
  obtain ⟨quoted, held, ok⟩ := (bind_eq_ok _ _ _).1 ok
  exact ⟨members, agent, _, title, body, side, line, evidence, address, path, model, id, review,
    file, anchor, hunk, quoted, read, author, titled, told, shown, shift, known, named,
    refuseIf_ok _ _ _ fresh, resolved, held, (Except.ok.inj ok).symm⟩

theorem check_ok (raw : Str) (index : Nat) (found : Accepted)
    (ok : check fromStr files inputSha256 raw index = .ok found) :
    found.index = index ∧ Anchored files found ∧ OfReview fromStr inputSha256 raw := by
  obtain ⟨members, _, _, _, _, side, line, _, _, _, _, _, review, file, anchor, hunk, quoted, read,
    -, -, -, -, -, -, named, fresh, resolved, held, rfl⟩ :=
    check_reads fromStr files inputSha256 raw index found ok
  obtain ⟨member, inside⟩ := resolve_ok files _ _ _ _ file anchor hunk resolved
  obtain ⟨unhunked, quotes⟩ := acceptedLine_ok line hunk side quoted held
  refine ⟨rfl, ⟨file, member, rfl, ?_⟩, members, readObject_ok fromStr raw members read, ?_⟩
  · cases hunk with
    | none => exact .inl ⟨rfl, unhunked rfl⟩
    | some own => exact .inr ⟨own, inside own rfl, rfl, quotes own rfl⟩
  · intro value present
    rw [stringField_ok members _ review named] at present
    obtain ⟨text, rfl, rfl⟩ := Option.map_eq_some_iff.1 present
    simpa using fresh

def entries (findings : List Str) : List Str := findings.filter fun raw => trim raw ≠ []

theorem entries_blank (findings : List Str) (raw : Str) (blank : trim raw = []) :
    entries (findings ++ [raw]) = entries findings := by
  simp [entries, blank]

theorem entries_snoc (findings : List Str) (raw : Str) (nonempty : trim raw ≠ []) :
    entries (findings ++ [raw]) = entries findings ++ [raw] := by
  simp [entries, nonempty]

structure Tracked (findings : List Str) (progress : Progress) : Prop where
  index : progress.index = min (entries findings).length maxFindings
  overLimit : progress.verdict.overLimit = (entries findings).length - maxFindings
  indices : (progress.verdict.accepted.map (·.index) ++
    progress.verdict.refused.map (·.index)).Perm (List.range progress.index)
  acceptedOrder : (progress.verdict.accepted.map (·.index)).Pairwise (· < ·)
  refusedOrder : (progress.verdict.refused.map (·.index)).Pairwise (· < ·)
  seen : progress.seen = progress.verdict.accepted.map DuplicateKey.of
  distinct : progress.seen.Nodup
  checked : ∀ found ∈ progress.verdict.accepted, ∃ raw,
    (entries findings)[found.index]? = some raw ∧
      check fromStr files inputSha256 raw found.index = .ok found

theorem increasing_snoc (earlier : List Nat) (next : Nat)
    (order : earlier.Pairwise (· < ·)) (below : ∀ index ∈ earlier, index < next) :
    (earlier ++ [next]).Pairwise (· < ·) := by
  rw [List.pairwise_append]
  refine ⟨order, List.pairwise_singleton _ _, ?_⟩
  intro index listed last member
  obtain rfl := List.mem_singleton.1 member
  exact below index listed

/-- Refusing the next entry. -/
theorem tracked_refuse (findings : List Str) (progress : Progress) (raw : Str) (reason : Refusal)
    (tracked : Tracked fromStr files inputSha256 findings progress) (nonempty : trim raw ≠ [])
    (room : progress.index < maxFindings) :
    Tracked fromStr files inputSha256 (findings ++ [raw]) (progress.refuse raw reason) := by
  have count := tracked.index
  have more := entries_snoc findings raw nonempty
  have length : (entries (findings ++ [raw])).length = (entries findings).length + 1 := by
    rw [more, List.length_append, List.length_singleton]
  constructor
  · change progress.index + 1 = _
    omega
  · have limit := tracked.overLimit
    change progress.verdict.overLimit = _
    omega
  · change (progress.verdict.accepted.map _ ++ (progress.verdict.refused ++ [_]).map _).Perm
      (List.range (progress.index + 1))
    rw [List.map_append, ← List.append_assoc, List.range_succ]
    exact tracked.indices.append_right _
  · exact tracked.acceptedOrder
  · change ((progress.verdict.refused ++ [_]).map _).Pairwise _
    rw [List.map_append]
    refine increasing_snoc _ _ tracked.refusedOrder ?_
    intro index listed
    exact List.mem_range.1 (tracked.indices.subset (List.mem_append_right _ listed))
  · exact tracked.seen
  · exact tracked.distinct
  · intro found listed
    obtain ⟨own, known, ok⟩ := tracked.checked found listed
    refine ⟨own, ?_, ok⟩
    rw [more, List.getElem?_append_left (List.getElem?_eq_some_iff.1 known).1, known]

theorem tracked_entry (findings : List Str) (progress : Progress) (raw : Str)
    (tracked : Tracked fromStr files inputSha256 findings progress) :
    Tracked fromStr files inputSha256 (findings ++ [raw])
      (verifyEntry fromStr files inputSha256 progress raw) := by
  have count := tracked.index
  have limit := tracked.overLimit
  unfold verifyEntry
  by_cases blank : trim raw = []
  · rw [if_pos blank]
    have same := entries_blank findings raw blank
    exact ⟨by rw [same]; exact count, by rw [same]; exact limit, tracked.indices,
      tracked.acceptedOrder, tracked.refusedOrder, tracked.seen, tracked.distinct, by
        rw [same]
        exact tracked.checked⟩
  · rw [if_neg blank]
    have more := entries_snoc findings raw blank
    have length : (entries (findings ++ [raw])).length = (entries findings).length + 1 := by
      rw [more, List.length_append, List.length_singleton]
    have earlier (found : Accepted) (listed : found ∈ progress.verdict.accepted) :
        ∃ own, (entries (findings ++ [raw]))[found.index]? = some own ∧
          check fromStr files inputSha256 own found.index = .ok found := by
      obtain ⟨own, known, ok⟩ := tracked.checked found listed
      refine ⟨own, ?_, ok⟩
      rw [more, List.getElem?_append_left (List.getElem?_eq_some_iff.1 known).1, known]
    by_cases full : maxFindings ≤ progress.index
    · rw [if_pos full]
      refine ⟨?_, ?_, tracked.indices, tracked.acceptedOrder, tracked.refusedOrder, tracked.seen,
        tracked.distinct, earlier⟩
      · change progress.index = _
        omega
      · change progress.verdict.overLimit + 1 = _
        omega
    · rw [if_neg full]
      have room : progress.index < maxFindings := by omega
      cases verdict : check fromStr files inputSha256 raw progress.index with
      | error reason => exact tracked_refuse _ _ _ _ _ _ reason tracked blank room
      | ok found =>
        by_cases repeated : DuplicateKey.of found ∈ progress.seen
        · simp only [if_pos repeated]
          exact tracked_refuse _ _ _ _ _ _ .duplicate tracked blank room
        · simp only [if_neg repeated]
          have own := (check_ok fromStr files inputSha256 raw progress.index found verdict).1
          constructor
          · change progress.index + 1 = _
            omega
          · change progress.verdict.overLimit = _
            omega
          · change ((progress.verdict.accepted ++ [found]).map _ ++ _).Perm
              (List.range (progress.index + 1))
            rw [List.map_append, List.map_singleton, own, List.append_assoc, List.range_succ]
            refine (List.perm_append_comm.append_left _).trans ?_
            rw [← List.append_assoc]
            exact tracked.indices.append_right _
          · change ((progress.verdict.accepted ++ [found]).map _).Pairwise _
            rw [List.map_append, List.map_singleton, own]
            refine increasing_snoc _ _ tracked.acceptedOrder ?_
            intro index listed
            exact List.mem_range.1 (tracked.indices.subset (List.mem_append_left _ listed))
          · exact tracked.refusedOrder
          · change progress.seen ++ [_] = (progress.verdict.accepted ++ [found]).map _
            rw [List.map_append, tracked.seen]
            rfl
          · exact List.nodup_append.2 ⟨tracked.distinct, List.nodup_singleton _, by
              rintro key listed _ last rfl
              exact repeated (by rw [← List.mem_singleton.1 last]; exact listed)⟩
          · intro other listed
            rcases List.mem_append.1 listed with old | last
            · exact earlier other old
            · obtain rfl := List.mem_singleton.1 last
              have place : progress.index = (entries findings).length := by omega
              refine ⟨raw, ?_, by rw [own]; exact verdict⟩
              rw [own, place, more, List.getElem?_concat_length]

theorem tracked_run (findings later : List Str) (progress : Progress)
    (tracked : Tracked fromStr files inputSha256 findings progress) :
    Tracked fromStr files inputSha256 (findings ++ later)
      (later.foldl (verifyEntry fromStr files inputSha256) progress) := by
  induction later generalizing findings progress with
  | nil =>
    rw [List.append_nil]
    exact tracked
  | cons raw later ih =>
    have next := ih (findings ++ [raw]) _ (tracked_entry _ _ _ findings progress raw tracked)
    rw [List.append_assoc] at next
    exact next

structure Judged (findings : List Str) (verdict : Verdict) : Prop where
  total : verdict.total = (entries findings).length
  indices : (verdict.accepted.map (·.index) ++ verdict.refused.map (·.index)).Perm
    (List.range (min (entries findings).length maxFindings))
  acceptedOrder : (verdict.accepted.map (·.index)).Pairwise (· < ·)
  refusedOrder : (verdict.refused.map (·.index)).Pairwise (· < ·)
  anchored : ∀ found ∈ verdict.accepted, Anchored files found
  distinct : verdict.accepted.Pairwise fun one two => DuplicateKey.of one ≠ DuplicateKey.of two
  ofReview : ∀ found ∈ verdict.accepted, ∃ raw, (entries findings)[found.index]? = some raw ∧
    OfReview fromStr inputSha256 raw

theorem verify_tracked (findings : List Str) :
    Tracked fromStr files inputSha256 findings (findings.foldl
      (verifyEntry fromStr files inputSha256) ⟨⟨[], [], 0⟩, [], 0⟩) := by
  have start : Tracked fromStr files inputSha256 [] ⟨⟨[], [], 0⟩, [], 0⟩ :=
    ⟨rfl, rfl, by simp, by simp, by simp, rfl, by simp, by simp⟩
  have tracked := tracked_run fromStr files inputSha256 [] findings _ start
  rwa [List.nil_append] at tracked

theorem verify_judged (findings : List Str) :
    Judged fromStr files inputSha256 findings (verify fromStr files inputSha256 findings) := by
  have tracked := verify_tracked fromStr files inputSha256 findings
  have indices := tracked.indices
  rw [tracked.index] at indices
  constructor
  · have listed := indices.length_eq
    have limit := tracked.overLimit
    rw [List.length_append, List.length_map, List.length_map, List.length_range] at listed
    rw [verify, Verdict.total]
    omega
  · exact indices
  · exact tracked.acceptedOrder
  · exact tracked.refusedOrder
  · intro found listed
    obtain ⟨raw, -, ok⟩ := tracked.checked found listed
    exact (check_ok fromStr files inputSha256 raw _ found ok).2.1
  · have distinct := tracked.distinct
    rw [tracked.seen] at distinct
    exact List.pairwise_map.1 distinct
  · intro found listed
    obtain ⟨raw, known, ok⟩ := tracked.checked found listed
    exact ⟨raw, known, (check_ok fromStr files inputSha256 raw _ found ok).2.2⟩

end Check

end DeepDiffForge.Agent
