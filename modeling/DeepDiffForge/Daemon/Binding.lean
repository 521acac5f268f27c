import DeepDiffForge.Daemon.Budget

/-! A cursor under another selection than the one it was minted for: when the two keys differ, and
the selections of paths whose keys are the same. -/

namespace DeepDiffForge.Daemon
open Text DeepDiffForge.Core DeepDiffForge.Graph DeepDiffForge.Patch Paging Fallible

/-- Names without a line feed are what their join is split into. -/
theorem joinNames_injective (one two : List Str)
    (oneLines : ∀ name ∈ one, '\n' ∉ name ∧ name ≠ [])
    (twoLines : ∀ name ∈ two, '\n' ∉ name ∧ name ≠ []) (same : joinNames one = joinNames two) :
    one = two := by
  have read (names : List Str) (lines : ∀ name ∈ names, '\n' ∉ name ∧ name ≠ [])
      (nonempty : names ≠ []) : (joinNames names).splitOn '\n' = names :=
    List.splitOn_intercalate '\n' (fun name member => (lines name member).1) nonempty
  have filled (names : List Str) (lines : ∀ name ∈ names, '\n' ∉ name ∧ name ≠ [])
      (nonempty : names ≠ []) : joinNames names ≠ [] := by
    intro empty
    have whole := read names lines nonempty
    rw [empty] at whole
    exact (lines [] (by rw [← whole]; simp)).2 rfl
  by_cases oneNone : one = []
  · by_cases twoNone : two = []
    · rw [oneNone, twoNone]
    · rw [oneNone] at same
      exact absurd same.symm (filled two twoLines twoNone)
  · by_cases twoNone : two = []
    · rw [twoNone] at same
      exact absurd same (filled one oneLines oneNone)
    · rw [← read one oneLines oneNone, same, read two twoLines twoNone]

example : joinNames ["x".toList, "y".toList] = joinNames ["x\ny".toList] := by decide +kernel

/-- Two selections of paths that name different files by one text. -/
def Confused (one two : Selection) : Prop :=
  ∃ onePaths twoPaths, one = .paths onePaths ∧ two = .paths twoPaths ∧
    joinNames onePaths.eraseDups = joinNames twoPaths.eraseDups

section Keys
variable (scan : Scan) (review : SealedReview)

theorem address_lines (wanted : List Str) (units : List (HunkRef review.files)) (key : Str)
    (accepted : select scan review.files (.addresses wanted) = .ok (units, key)) :
    ∀ name ∈ wanted.eraseDups, '\n' ∉ name ∧ name ≠ [] := by
  intro name member
  obtain ⟨unit, rfl⟩ := addresses_known scan PatchHunk.address wanted units key accepted name member
  constructor
  · intro listed
    exact absurd (plain_sha256Hex _ _ listed) (by decide)
  · exact List.ne_nil_of_length_pos (by rw [PatchHunk.address, length_sha256Hex]; decide)

theorem key_eq_iff (one two : Selection) (oneUnits twoUnits : List (HunkRef review.files))
    (oneKey twoKey : Str) (oneAccepted : select scan review.files one = .ok (oneUnits, oneKey))
    (twoAccepted : select scan review.files two = .ok (twoUnits, twoKey))
    (apart : oneUnits ≠ twoUnits) : oneKey = twoKey ↔ Confused one two := by
  obtain ⟨oneSame, rfl⟩ := selectWith_eq_ok scan PatchHunk.address one oneUnits oneKey oneAccepted
  obtain ⟨twoSame, rfl⟩ := selectWith_eq_ok scan PatchHunk.address two twoUnits twoKey twoAccepted
  cases one with
  | all =>
    refine iff_of_false ?_ (by rintro ⟨_, _, ⟨⟩, _⟩)
    intro same
    cases two with
    | all => exact apart (oneSame.trans twoSame.symm)
    | addresses wanted => exact absurd (List.cons.inj (List.cons.inj same).2).1 (by decide)
    | paths wanted => exact absurd (List.cons.inj same).1 (by decide)
  | addresses wanted =>
    refine iff_of_false ?_ (by rintro ⟨_, _, ⟨⟩, _⟩)
    intro same
    cases two with
    | all => exact absurd (List.cons.inj (List.cons.inj same).2).1 (by decide)
    | addresses others =>
      have names := joinNames_injective wanted.eraseDups others.eraseDups
        (address_lines scan review wanted oneUnits _ oneAccepted)
        (address_lines scan review others twoUnits _ twoAccepted)
        (List.append_cancel_left same)
      refine apart (oneSame.trans (Eq.trans ?_ twoSame.symm))
      rw [Selection.chosen, Selection.chosen, names]
    | paths others => exact absurd (List.cons.inj same).1 (by decide)
  | paths wanted =>
    cases two with
    | all =>
      refine iff_of_false ?_ (by rintro ⟨_, _, _, ⟨⟩, _⟩)
      intro same
      exact absurd (List.cons.inj same).1 (by decide)
    | addresses others =>
      refine iff_of_false ?_ (by rintro ⟨_, _, _, ⟨⟩, _⟩)
      intro same
      exact absurd (List.cons.inj same).1 (by decide)
    | paths others =>
      constructor
      · intro same
        exact ⟨wanted, others, rfl, rfl, List.append_cancel_left same⟩
      · rintro ⟨_, _, ⟨⟩, ⟨⟩, joined⟩
        change "p:".toList ++ joinNames wanted.eraseDups = "p:".toList ++ joinNames others.eraseDups
        rw [joined]

end Keys

section Minted
variable (scan : Scan) (sizes : Sizes) (review : SealedReview)

theorem minted_place (selection : Selection) (units : List (HunkRef review.files)) (key : Str)
    (accepted : select scan review.files selection = .ok (units, key)) (page : Page)
    (answer : HunksAnswer) (answered : hunks scan sizes review selection page = .ok answer)
    (next : Str) (minted : answer.nextCursor = some next) :
    ∃ place : Nat × Nat, Inside unitLines units place ∧
      next = cursor review.inputSeal key place.1 place.2 := by
  rw [hunks, accepted] at answered
  change (resume _ _ _ _ >>= _) = _ at answered
  obtain ⟨start, resumed, answered⟩ := (bind_eq_ok _ _ _).1 answered
  generalize taken : takeHunks scan sizes true (page.maxBytes - envelopeBytes) start.1 start.2
    (units.drop start.1) = result at answered
  obtain rfl := Except.ok.inj answered
  obtain ⟨stop, onward, rfl⟩ := Option.map_eq_some_iff.1 minted
  have begins : start.2 = 0 ∨ ∃ unit rest, units.drop start.1 = unit :: rest ∧
      start.2 < (unitLines unit).length := by
    obtain ⟨-, rfl | ⟨len, known, within⟩⟩ := resume_eq_ok page _ key _ start resumed
    · exact .inl rfl
    · obtain ⟨unit, held, rfl⟩ := Option.map_eq_some_iff.1 known
      obtain ⟨index, same⟩ := List.getElem?_eq_some_iff.1 held
      rw [← length_unitLines] at within
      exact within.imp id fun within => ⟨unit, _, by rw [List.drop_eq_getElem_cons index, same],
        within⟩
  obtain ⟨slices, -, leads⟩ := takeHunks_leads scan sizes true (page.maxBytes - envelopeBytes)
    start.1 start.2 _ begins
  rw [onward] at leads
  rcases leads with ⟨absent, -⟩ | ⟨skipped, inner, unit, rest, stops, left, valid, -⟩
  · cases absent
  · obtain rfl := Option.some.inj stops
    rw [List.drop_drop] at left
    refine ⟨_, ⟨unit, ?_, valid⟩, rfl⟩
    rw [← List.head?_drop, left]
    rfl

theorem hunks_refused (selection : Selection) (units : List (HunkRef review.files)) (key : Str)
    (accepted : select scan review.files selection = .ok (units, key)) (page : Page)
    (error : ViewError) (refused : resume page review.inputSeal key (fun item =>
      units[item]?.map fun unit => unit.patchHunk.lines.length) = .error error) :
    hunks scan sizes review selection page = .error error := by
  rw [hunks, accepted]
  change (resume _ _ _ _ >>= _) = _
  rw [refused]
  rfl

end Minted

/-- A cursor minted for one selection is refused by another, unless both are selections of paths
that join to one text and the place is inside the other too. -/
theorem cursor_bound (scan : Scan) (sizes : Sizes) (review : SealedReview) (one two : Selection)
    (oneUnits twoUnits : List (HunkRef review.files)) (oneKey twoKey : Str)
    (oneAccepted : select scan review.files one = .ok (oneUnits, oneKey))
    (twoAccepted : select scan review.files two = .ok (twoUnits, twoKey))
    (apart : oneUnits ≠ twoUnits) (digests : oneKey ≠ twoKey → picked oneKey ≠ picked twoKey)
    (page : Page) (answer : HunksAnswer)
    (answered : hunks scan sizes review one page = .ok answer) (next : Str)
    (minted : answer.nextCursor = some next) (budget : Nat)
    (ranged : minMaxBytes ≤ budget ∧ budget ≤ maxMaxBytes) :
    (oneKey = twoKey ↔ Confused one two) ∧
      ∃ place : Nat × Nat, next = cursor review.inputSeal oneKey place.1 place.2 ∧
        ((∃ why, hunks scan sizes review two ⟨budget, some next⟩ = .error (.cursor why)) ↔
          ¬Confused one two ∨ ¬Inside unitLines twoUnits place) := by
  have keys := key_eq_iff scan review one two oneUnits twoUnits oneKey twoKey oneAccepted
    twoAccepted apart
  obtain ⟨place, inside, rfl⟩ := minted_place scan sizes review one oneUnits oneKey oneAccepted page
    answer answered next minted
  refine ⟨keys, place, rfl, ?_⟩
  have fits := place_fits scan review one oneUnits oneKey oneAccepted place inside
  by_cases same : oneKey = twoKey
  · subst same
    have confused := keys.1 rfl
    by_cases held : Inside unitLines twoUnits place
    · obtain ⟨unit, known, within⟩ := held
      rw [length_unitLines] at within
      have resumed := resume_cursor review oneKey (fun item => twoUnits[item]?.map fun unit =>
        unit.patchHunk.lines.length) budget ranged place.1 place.2 _ (by rw [known]; rfl) within
        fits.1 fits.2
      have shown := hunks_eq scan sizes review two twoUnits oneKey twoAccepted _ place _ _ resumed rfl
      refine iff_of_false ?_ (not_or.2 ⟨not_not.2 confused, not_not.2 ⟨unit, known, ?_⟩⟩)
      · rintro ⟨why, refused⟩
        rw [shown] at refused
        cases refused
      · rw [length_unitLines]
        exact within
    · have refused := resume_outside review oneKey (fun item => twoUnits[item]?.map fun unit =>
        unit.patchHunk.lines.length) budget ranged place.1 place.2 fits.1 fits.2 (by
          intro len length within
          obtain ⟨unit, known, rfl⟩ := Option.map_eq_some_iff.1 length
          exact held ⟨unit, known, by rw [length_unitLines]; exact within⟩)
      exact iff_of_true ⟨_, hunks_refused scan sizes review two twoUnits oneKey twoAccepted _ _
        refused⟩ (.inr held)
  · have refused := resume_other review twoKey (fun item => twoUnits[item]?.map fun unit =>
      unit.patchHunk.lines.length) budget ranged oneKey place.1 place.2 (digests same)
    exact iff_of_true ⟨_, hunks_refused scan sizes review two twoUnits twoKey twoAccepted _ _ refused⟩
      (.inl fun confused => same (keys.2 confused))

def longLine : PatchLine := ⟨false, false, .removed, some 1, none, List.replicate 600 'a'⟩

/-- A patch of `x`, of `y`, and of the file whose name is both with a line feed between them. -/
def joinedPatch : Str :=
  "--- a/x\n+++ b/x\n@@ -1 +1 @@\n-a\n+b\n--- a/y\n+++ b/y\n@@ -1 +1 @@\n-a\n+b\n".toList ++
    "--- \"a/x\\ny\"\n+++ \"b/x\\ny\"\n@@ -1 +1 @@\n-".toList ++ longLine.text ++ "\n+b\n".toList

def joinedReview : SealedReview where
  files :=
    [sampleFile,
      { sampleFile with path := ['y'], patchTwin := ⟨[], [{ sampleHunk with id := 1 }], [], 0⟩ },
      { sampleFile with
        path := "x\ny".toList
        patchTwin :=
          ⟨[], [{ sampleHunk with
            id := 2, lines := [longLine, ⟨false, false, .added, none, some 1, ['b']⟩] }], [], 0⟩ }]
  inputSeal := .of (Utf8.encode joinedPatch) "0.1.0".toList
  origin := ⟨Utf8.encode joinedPatch, "0.1.0".toList, rfl⟩
  held := by decide

def joinedUnit : HunkRef joinedReview.files := ⟨⟨2, by decide⟩, ⟨0, by decide⟩⟩

def plainUnits : List (HunkRef joinedReview.files) :=
  [⟨⟨0, by decide⟩, ⟨0, by decide⟩⟩, ⟨⟨1, by decide⟩, ⟨0, by decide⟩⟩]

theorem take_joined : takeHunks quietScan emitted true (minMaxBytes - envelopeBytes) 0 0 [joinedUnit] =
    ([leadEntry quietScan joinedUnit 0 longLine], some (0, 1)) := by
  rcases takeHunks_first quietScan (minMaxBytes - envelopeBytes) 0 0 joinedUnit [] longLine rfl
    (by simp) with ⟨-, within⟩ | alone
  · have small : minMaxBytes - envelopeBytes = 512 := rfl
    have large : 600 ≤ linesCost [lineJson longLine] := by decide +kernel
    omega
  · exact alone

/-- The first page of the joined name, and a request that resumes it under the two names. -/
theorem hunks_joined : hunks quietScan emitted joinedReview (.paths ["x\ny".toList])
    ⟨minMaxBytes, none⟩ = .ok (pageAnswer joinedReview "p:x\ny".toList [joinedUnit] (0, 0)
      [leadEntry quietScan joinedUnit 0 longLine] (some (0, 1))) :=
  hunks_eq quietScan emitted joinedReview (.paths ["x\ny".toList]) [joinedUnit] "p:x\ny".toList rfl
    ⟨minMaxBytes, none⟩ (0, 0) _ _ rfl take_joined

theorem cursor_bound_joined :
    ("p:x\ny".toList = "p:x\ny".toList ↔
        Confused (.paths ["x\ny".toList]) (.paths [['x'], ['y']])) ∧
      ∃ place : Nat × Nat, cursor joinedReview.inputSeal "p:x\ny".toList 0 1 =
          cursor joinedReview.inputSeal "p:x\ny".toList place.1 place.2 ∧
        ((∃ why, hunks quietScan emitted joinedReview (.paths [['x'], ['y']])
              ⟨minMaxBytes, some (cursor joinedReview.inputSeal "p:x\ny".toList 0 1)⟩ =
            .error (.cursor why)) ↔
          ¬Confused (.paths ["x\ny".toList]) (.paths [['x'], ['y']]) ∨
            ¬Inside unitLines plainUnits place) :=
  cursor_bound quietScan emitted joinedReview (.paths ["x\ny".toList]) (.paths [['x'], ['y']])
    [joinedUnit] plainUnits "p:x\ny".toList "p:x\ny".toList rfl rfl (by decide)
    (fun differ => absurd rfl differ) ⟨minMaxBytes, none⟩ _ hunks_joined _ rfl minMaxBytes
    ⟨by decide, by decide⟩

/-- A listing of one file is resumed inside a listing of two others. -/
theorem joined_resumed :
    parse joinedPatch = .ok joinedReview.files ∧
      ∃ oneUnits twoUnits oneKey twoKey answer next other,
        select quietScan joinedReview.files (.paths ["x\ny".toList]) = .ok (oneUnits, oneKey) ∧
        select quietScan joinedReview.files (.paths [['x'], ['y']]) = .ok (twoUnits, twoKey) ∧
        oneUnits ≠ twoUnits ∧
        hunks quietScan emitted joinedReview (.paths ["x\ny".toList]) ⟨minMaxBytes, none⟩ =
          .ok answer ∧
        answer.nextCursor = some next ∧
        hunks quietScan emitted joinedReview (.paths [['x'], ['y']]) ⟨minMaxBytes, some next⟩ =
          .ok other := by
  have resumed := resume_cursor joinedReview "p:x\ny".toList (fun item => plainUnits[item]?.map
    fun unit => unit.patchHunk.lines.length) minMaxBytes ⟨by decide, by decide⟩ 0 1 2 rfl
    (.inr (by decide)) (by decide) (by decide)
  have other := hunks_eq quietScan emitted joinedReview (.paths [['x'], ['y']]) plainUnits
    "p:x\ny".toList rfl ⟨minMaxBytes, some (cursor joinedReview.inputSeal "p:x\ny".toList 0 1)⟩
    (0, 1) _ _ resumed (Prod.eta _).symm
  have apart : [joinedUnit] ≠ plainUnits := by decide
  exact ⟨by decide +kernel, [joinedUnit], plainUnits, "p:x\ny".toList, "p:x\ny".toList, _,
    cursor joinedReview.inputSeal "p:x\ny".toList 0 1, _, rfl, rfl, apart, hunks_joined, rfl, other⟩

end DeepDiffForge.Daemon
