import DeepDiffForge.Daemon.Emitted
import DeepDiffForge.Patch.Extent

/-! The bytes of a page of hunks: what `hunks` keeps within its budget, and the one entry it does
not measure before it is taken. -/

namespace DeepDiffForge.Daemon
open Text DeepDiffForge.Core DeepDiffForge.Graph DeepDiffForge.Patch

theorem takeLines_used (forced : Bool) (budget used left : Nat) (lines : List PatchLine)
    (values : List LineView) (taken : takeLines emitted forced budget used lines = (values, left)) :
    left = used + linesCost values := by
  induction lines generalizing forced used values with
  | nil =>
    obtain ⟨rfl, rfl⟩ := Prod.mk.inj taken
    rfl
  | cons line lines ih =>
    simp only [takeLines] at taken
    split at taken
    · obtain ⟨rfl, rfl⟩ := Prod.mk.inj taken
      rfl
    · generalize more : takeLines emitted false budget _ lines = result at taken
      obtain ⟨rest, left'⟩ := result
      obtain ⟨rfl, rfl⟩ := Prod.mk.inj taken
      have after := ih false _ rest more
      change left' = used + (Json.size (lineJson line).json + 1) + linesCost rest at after
      change left' = used + (Json.size (lineJson line).json + 1 + linesCost rest)
      omega

theorem takeLines_within (budget used left : Nat) (lines : List PatchLine)
    (values : List LineView) (taken : takeLines emitted false budget used lines = (values, left)) :
    left ≤ budget ∨ values = [] := by
  induction lines generalizing used values with
  | nil =>
    obtain ⟨rfl, rfl⟩ := Prod.mk.inj taken
    exact .inr rfl
  | cons line lines ih =>
    simp only [takeLines] at taken
    split at taken
    · obtain ⟨rfl, rfl⟩ := Prod.mk.inj taken
      exact .inr rfl
    · rename_i fits
      generalize more : takeLines emitted false budget _ lines = result at taken
      obtain ⟨rest, left'⟩ := result
      obtain ⟨rfl, rfl⟩ := Prod.mk.inj taken
      left
      rcases ih _ rest more with within | absent
      · exact within
      · have after := takeLines_used _ _ _ _ _ _ more
        rw [absent] at after
        change left' = _ + 0 at after
        simp only [Bool.not_false, Bool.and_true, decide_eq_true_eq, not_lt] at fits
        omega

theorem takeLines_forced (budget used left : Nat) (line : PatchLine) (lines : List PatchLine)
    (values : List LineView)
    (taken : takeLines emitted true budget used (line :: lines) = (values, left)) :
    left ≤ budget ∧ values ≠ [] ∨ budget < left ∧ values = [lineJson line] := by
  have used' := takeLines_used _ _ _ _ _ _ taken
  simp only [takeLines, Bool.not_true, Bool.and_false, Bool.false_eq_true, if_false] at taken
  generalize more : takeLines emitted false budget _ lines = result at taken
  obtain ⟨rest, left'⟩ := result
  obtain ⟨rfl, rfl⟩ := Prod.mk.inj taken
  by_cases within : left' ≤ budget
  · exact .inl ⟨within, by simp⟩
  · refine .inr ⟨by omega, ?_⟩
    rcases takeLines_within _ _ _ _ _ more with fits | rfl
    · exact absurd fits within
    · rfl

section Entries
variable (scan : Scan) {files : List ReviewFile}

def pageEntry (unit : HunkRef files) (offset : Nat) (complete : Bool) (lines : List LineView) :
    HunkEntry where
  head := hunkHead scan unit.reviewFile unit.patchHunk
  path := unit.reviewFile.path
  lineOffset := offset
  complete := complete
  lines := lines

def openSize (unit : HunkRef files) (offset : Nat) : Nat :=
  Json.size (pageEntry scan unit offset true []).json

theorem entriesCost_cons (entry : HunkEntry) (entries : List HunkEntry) :
    entriesCost (entry :: entries) = Json.size entry.json + 1 + entriesCost entries := rfl

theorem entriesCost_nil : entriesCost [] = 0 := rfl

/-- An entry takes what was used for it, or a byte less. -/
theorem entry_cost (unit : HunkRef files) (offset : Nat) (complete : Bool) (lines : List LineView)
    (nonempty : lines ≠ []) :
    Json.size (pageEntry scan unit offset complete lines).json + 1 ≤
      openSize scan unit offset + 1 + linesCost lines := by
  cases complete with
  | true =>
    have cost := size_complete (pageEntry scan unit offset true lines) rfl nonempty
    change _ = openSize scan unit offset + linesCost lines at cost
    omega
  | false =>
    have cost := size_short (pageEntry scan unit offset false lines) rfl nonempty
    change _ = openSize scan unit offset + linesCost lines at cost
    omega

/-- Once something is on the page, what is added stays within what is left. -/
theorem takeHunks_within (budget position : Nat) (units : List (HunkRef files))
    (lined : ∀ unit ∈ units, unit.patchHunk.lines ≠ []) :
    entriesCost (takeHunks scan emitted false budget position 0 units).1 ≤ budget := by
  induction units generalizing budget position with
  | nil => exact Nat.zero_le _
  | cons unit rest ih =>
    have first := lined unit (by simp)
    simp only [takeHunks, List.drop_zero, Nat.zero_add]
    generalize taken : takeLines emitted false budget _ unit.patchHunk.lines = result
    obtain ⟨lines, used⟩ := result
    have cost := takeLines_used _ _ _ _ _ _ taken
    change used = openSize scan unit 0 + 1 + linesCost lines at cost
    have within := takeLines_within _ _ _ _ _ taken
    by_cases absent : lines = []
    · have short : lines.length < unit.patchHunk.lines.length := by
        rw [absent]
        exact List.length_pos_iff.2 first
      rw [if_pos short, if_pos absent]
      exact Nat.zero_le _
    · have fits : used ≤ budget := within.resolve_right absent
      by_cases short : lines.length < unit.patchHunk.lines.length
      · rw [if_pos short, if_neg absent]
        have entry := entry_cost scan unit 0 false lines absent
        change Json.size (pageEntry scan unit 0 false lines).json + 1 + 0 ≤ budget
        omega
      · rw [if_neg short]
        have entry := entry_cost scan unit 0 true lines absent
        have others := ih (budget - used) (position + 1)
          fun other later => lined other (by simp [later])
        change Json.size (pageEntry scan unit 0 true lines).json + 1 +
          entriesCost (takeHunks scan emitted false (budget - used) (position + 1) 0 rest).1 ≤ budget
        omega

/-- Nothing is added to a page that is full. -/
theorem takeHunks_full (position : Nat) (unit : HunkRef files) (rest : List (HunkRef files))
    (lined : unit.patchHunk.lines ≠ []) :
    takeHunks scan emitted false 0 position 0 (unit :: rest) = ([], some (position, 0)) := by
  simp only [takeHunks, List.drop_zero, Nat.zero_add]
  generalize taken : takeLines emitted false 0 _ unit.patchHunk.lines = result
  obtain ⟨lines, used⟩ := result
  have cost := takeLines_used _ _ _ _ _ _ taken
  obtain rfl : lines = [] := by
    rcases takeLines_within _ _ _ _ _ taken with within | absent
    · omega
    · exact absent
  have short : ([] : List LineView).length < unit.patchHunk.lines.length :=
    List.length_pos_iff.2 lined
  rw [if_pos short, if_pos rfl]

def leadEntry (unit : HunkRef files) (offset : Nat) (line : PatchLine) : HunkEntry :=
  pageEntry scan unit offset (decide (unit.patchHunk.lines.length ≤ offset + 1)) [lineJson line]

def leadNext (position offset : Nat) (unit : HunkRef files) (rest : List (HunkRef files)) :
    Option (Nat × Nat) :=
  if offset + 1 < unit.patchHunk.lines.length then some (position, offset + 1)
  else rest.head?.map fun _ => (position + 1, 0)

theorem leadEntry_cost (unit : HunkRef files) (offset : Nat) (line : PatchLine) :
    entriesCost [leadEntry scan unit offset line] ≤
      openSize scan unit offset + 1 + linesCost [lineJson line] := by
  rw [entriesCost_cons, entriesCost_nil, Nat.add_zero, leadEntry]
  exact entry_cost scan unit offset _ [lineJson line] (List.cons_ne_nil _ _)

/-- A page is within its budget, or it is the line that is forced on it and nothing else. -/
theorem takeHunks_first (budget position offset : Nat) (unit : HunkRef files)
    (rest : List (HunkRef files)) (line : PatchLine)
    (known : unit.patchHunk.lines[offset]? = some line)
    (lined : ∀ other ∈ rest, other.patchHunk.lines ≠ []) :
    entriesCost (takeHunks scan emitted true budget position offset (unit :: rest)).1 ≤ budget ∧
        openSize scan unit offset + 1 + linesCost [lineJson line] ≤ budget ∨
      takeHunks scan emitted true budget position offset (unit :: rest) =
        ([leadEntry scan unit offset line], leadNext position offset unit rest) := by
  obtain ⟨inside, same⟩ := List.getElem?_eq_some_iff.1 known
  have left : unit.patchHunk.lines.drop offset = line :: unit.patchHunk.lines.drop (offset + 1) := by
    rw [List.drop_eq_getElem_cons inside, same]
  simp only [takeHunks, left]
  generalize taken : takeLines emitted true budget _ (line :: unit.patchHunk.lines.drop (offset + 1))
    = result
  obtain ⟨lines, used⟩ := result
  have cost := takeLines_used _ _ _ _ _ _ taken
  change used = openSize scan unit offset + 1 + linesCost lines at cost
  have shown := (takeLines_eq emitted _ _ _ _ _ _ taken).1
  rcases takeLines_forced _ _ _ _ _ _ taken with ⟨within, present⟩ | ⟨full, rfl⟩
  · left
    constructor
    · by_cases short : offset + lines.length < unit.patchHunk.lines.length
      · rw [if_pos short, if_neg present]
        have entry := entry_cost scan unit offset false lines present
        change Json.size (pageEntry scan unit offset false lines).json + 1 + 0 ≤ budget
        omega
      · rw [if_neg short]
        have entry := entry_cost scan unit offset true lines present
        have others := takeHunks_within scan (budget - used) (position + 1) rest lined
        change Json.size (pageEntry scan unit offset true lines).json + 1 +
          entriesCost (takeHunks scan emitted false (budget - used) (position + 1) 0 rest).1 ≤ budget
        omega
    · cases lines with
      | nil => exact absurd rfl present
      | cons value lines =>
        rw [List.length_cons, List.map_cons, List.take_succ_cons] at shown
        obtain ⟨rfl, -⟩ := List.cons.inj shown
        have more : linesCost (lineJson line :: lines) =
          linesCost [lineJson line] + linesCost lines := rfl
        omega
  · right
    rw [List.length_singleton]
    by_cases short : offset + 1 < unit.patchHunk.lines.length
    · rw [if_pos short, if_neg (by simp), leadNext, if_pos short, leadEntry,
        decide_eq_false (by omega)]
      rfl
    · rw [if_neg short, leadNext, if_neg short, leadEntry, decide_eq_true (by omega)]
      have spent : budget - used = 0 := by omega
      rw [spent]
      cases rest with
      | nil => rfl
      | cons other rest =>
        rw [takeHunks_full scan _ other rest (lined other (by simp))]
        rfl

end Entries

section Answer
variable (scan : Scan) (review : SealedReview) (key : Str) (units : List (HunkRef review.files))

/-- The answer of a page that begins at `start` and shows these entries. -/
def pageAnswer (start : Nat × Nat) (entries : List HunkEntry) (onward : Option (Nat × Nat)) :
    HunksAnswer where
  inputSha256 := review.inputSeal.inputSha256
  toolVersion := review.inputSeal.toolVersion
  hunks := entries
  selectedHunks := units.length
  remainingHunks := units.length - min start.1 units.length - entries.countP (·.complete)
  nextCursor := onward.map fun stop => cursor review.inputSeal key stop.1 stop.2

def leadPage (start : Nat × Nat) (unit : HunkRef review.files) (line : PatchLine) : HunksAnswer :=
  pageAnswer review key units start [leadEntry scan unit start.2 line]
    (leadNext start.1 start.2 unit (units.drop (start.1 + 1)))

end Answer

/-- A cursor is hex digits, dots and decimal digits. -/
theorem plain_cursor (review : SealedReview) (key : Str) (item inner : Nat) :
    ∀ c ∈ cursor review.inputSeal key item inner, Json.plain c = true := by
  obtain ⟨input, version, same⟩ := review.origin
  have dot : Json.plain '.' = true := by decide
  intro c listed
  simp only [cursor, same, InputSeal.of, List.mem_append, List.mem_cons] at listed
  rcases listed with first | rfl | second | rfl | third | rfl | fourth
  · exact plain_sha256Hex _ c (List.mem_of_mem_take first)
  · exact dot
  · exact plain_sha256Hex _ c (List.mem_of_mem_take second)
  · exact dot
  · exact Json.plain_decimal _ c third
  · exact dot
  · exact Json.plain_decimal _ c fourth

theorem length_decimal (n : Nat) (within : n ≤ defaultLineBudget) : (decimal n).length ≤ 7 := by
  rw [decimal, Nat.length_toDigits_le_iff (by decide) (by decide)]
  rw [defaultLineBudget] at within
  omega

theorem length_cursor (review : SealedReview) (key : Str) (item inner : Nat)
    (itemFits : item ≤ defaultLineBudget) (innerFits : inner ≤ defaultLineBudget) :
    (cursor review.inputSeal key item inner).length ≤ 41 := by
  have third := length_decimal item itemFits
  have fourth := length_decimal inner innerFits
  simp only [cursor, List.length_append, List.length_cons, List.length_take]
  omega

/-- Around its hunks an answer about a parsed patch takes no more than is kept back. -/
theorem envelope_within (answer : HunksAnswer) (review : SealedReview) (key : Str)
    (hash : answer.inputSha256 = review.inputSeal.inputSha256)
    (version : (Utf8.encode answer.toolVersion).length ≤ 32)
    (selected : answer.selectedHunks ≤ defaultLineBudget)
    (remaining : answer.remainingHunks ≤ defaultLineBudget)
    (next : ∀ text ∈ answer.nextCursor, ∃ item inner, item ≤ defaultLineBudget ∧
      inner ≤ defaultLineBudget ∧ text = cursor review.inputSeal key item inner) :
    answer.envelope ≤ envelopeBytes := by
  have digest : Json.size (Json.string answer.inputSha256) = 66 := by
    obtain ⟨input, tool, same⟩ := review.origin
    have hex : answer.inputSha256 = sha256Hex input := by rw [hash, same]; rfl
    rw [hex, Json.size_string_plain _ (plain_sha256Hex input), length_sha256Hex]
  have tool : Json.size (toolJson answer.toolVersion) ≤ 231 := by
    have most := Json.size_string_le answer.toolVersion
    have name : Json.size (Json.string "name".toList) = 6 := by decide
    have named : Json.size (Json.string toolName) = 17 := by decide
    have versioned : Json.size (Json.string "version".toList) = 9 := by decide
    rw [toolJson, Json.size_object _ (by simp)]
    simp only [List.map_cons, List.map_nil, Json.cost_cons, Json.cost_nil, Json.size_member, name,
      named, versioned]
    omega
  have cursor : Json.size (Json.optional Json.string answer.nextCursor) ≤ 43 := by
    cases stop : answer.nextCursor with
    | none =>
      have absent : Json.size Json.null = 4 := by decide
      rw [Json.optional, absent]
      omega
    | some text =>
      obtain ⟨item, inner, itemFits, innerFits, rfl⟩ := next text (by rw [stop]; rfl)
      have most := length_cursor review key item inner itemFits innerFits
      rw [Json.optional, Json.size_string_plain _ (plain_cursor review key item inner)]
      omega
  have present : Json.size (Json.number answer.selectedHunks) ≤ 7 := by
    rw [Json.size_number]
    exact length_decimal _ selected
  have more : Json.size (Json.number answer.remainingHunks) ≤ 7 := by
    rw [Json.size_number]
    exact length_decimal _ remaining
  have schema : Json.size (Json.string "deep-diff-forge.review-hunks.v0".toList) = 33 := by decide
  have keys : Json.size (Json.string "schema".toList) = 8 ∧
      Json.size (Json.string "input_sha256".toList) = 14 ∧
      Json.size (Json.string "tool".toList) = 6 ∧ Json.size (Json.string "hunks".toList) = 7 ∧
      Json.size (Json.string "selected_hunks".toList) = 16 ∧
      Json.size (Json.string "remaining_hunks".toList) = 17 ∧
      Json.size (Json.string "next_cursor".toList) = 13 := by decide
  obtain ⟨key₁, key₂, key₃, key₄, key₅, key₆, key₇⟩ := keys
  rw [HunksAnswer.envelope, HunksAnswer.json, Json.size_object _ (by simp), envelopeBytes]
  simp only [List.map_cons, List.map_nil, Json.cost_cons, Json.cost_nil, Json.size_member, schema,
    key₁, key₂, key₃, key₄, key₅, key₆, key₇, digest, Json.size_array_nil]
  omega

section Pages
variable (scan : Scan) (review : SealedReview) (key : Str) (units : List (HunkRef review.files))

def FirstLineOver (budget : Nat) (answer : HunksAnswer) : Prop :=
  ∃ entry ∈ answer.hunks.head?, ∃ line ∈ entry.lines.head?, budget < Json.size line.json

def LeadFits (budget : Nat) (start : Nat × Nat) : Prop :=
  ∀ unit ∈ units[start.1]?, ∀ line ∈ unit.patchHunk.lines[start.2]?,
    budget < Json.size (lineJson line).json ∨
      Json.size (leadPage scan review key units start unit line).json ≤ budget

theorem firstLineOver_leadPage (budget : Nat) (start : Nat × Nat) (unit : HunkRef review.files)
    (line : PatchLine) :
    FirstLineOver budget (leadPage scan review key units start unit line) ↔
      budget < Json.size (lineJson line).json := by
  simp [FirstLineOver, leadPage, pageAnswer, leadEntry, pageEntry]

end Pages

section Extent
variable (scan : Scan) (review : SealedReview)

theorem length_allHunks (files : List ReviewFile) :
    (allHunks files).length = (files.flatMap (·.patchTwin.hunks)).length := by
  have total := length_flatMap_fileHunks (List.finRange files.length)
  have every : (List.finRange files.length).map (fun file => files.get file) = files := by
    apply List.ext_getElem
    · simp
    · simp
  rw [every] at total
  rw [allHunks, total]
  clear total every
  induction files with
  | nil => rfl
  | cons file files ih => rw [List.foldr_cons, ih, List.flatMap_cons, List.length_append]

theorem mem_hunks {files : List ReviewFile} (unit : HunkRef files) :
    unit.patchHunk ∈ files.flatMap (·.patchTwin.hunks) :=
  List.mem_flatMap.2 ⟨unit.reviewFile, List.getElem_mem _, List.getElem_mem _⟩

theorem length_units (selection : Selection) (units : List (HunkRef review.files)) (key : Str)
    (accepted : select scan review.files selection = .ok (units, key)) (budget : Nat)
    (extent : hunkItems (review.files.flatMap (·.patchTwin.hunks)) ≤ budget) :
    units.length ≤ budget := by
  obtain ⟨rfl, -⟩ := selectWith_eq_ok scan PatchHunk.address selection units key accepted
  calc
    _ ≤ (allHunks review.files).length :=
      (List.subperm_of_subset (nodup_chosen scan _ selection) fun ref _ => mem_allHunks ref).length_le
    _ = (review.files.flatMap (·.patchTwin.hunks)).length := length_allHunks review.files
    _ ≤ hunkItems (review.files.flatMap (·.patchTwin.hunks)) := length_le_hunkItems _
    _ ≤ budget := extent

theorem length_unit (unit : HunkRef review.files) (budget : Nat)
    (extent : hunkItems (review.files.flatMap (·.patchTwin.hunks)) ≤ budget) :
    unit.patchHunk.lines.length ≤ budget :=
  (mem_le_hunkItems _ unit.patchHunk (mem_hunks unit)).trans extent

theorem takeHunks_place (units : List (HunkRef review.files)) (count : units.length ≤ defaultLineBudget)
    (extent : hunkItems (review.files.flatMap (·.patchTwin.hunks)) ≤ defaultLineBudget)
    (budget : Nat) (start : Nat × Nat)
    (inside : start.2 = 0 ∨ ∃ unit rest, units.drop start.1 = unit :: rest ∧
      start.2 < (unitLines unit).length) :
    ∀ stop ∈ (takeHunks scan emitted true budget start.1 start.2 (units.drop start.1)).2,
      stop.1 ≤ defaultLineBudget ∧ stop.2 ≤ defaultLineBudget := by
  obtain ⟨slices, -, leads⟩ := takeHunks_leads scan emitted true budget start.1 start.2 _ inside
  intro stop member
  rcases leads with ⟨ends, -⟩ | ⟨skipped, inner, unit, rest, stops, left, valid, -⟩
  · rw [ends] at member
    cases member
  · rw [stops] at member
    obtain rfl := Option.mem_some.1 member
    have further := congrArg List.length left
    have lines := length_unit review unit _ extent
    rw [List.length_drop, List.length_drop, List.length_cons] at further
    rw [length_unitLines] at valid
    constructor
    · simp only
      omega
    · simp only
      omega

theorem leadNext_place (units : List (HunkRef review.files)) (count : units.length ≤ defaultLineBudget)
    (extent : hunkItems (review.files.flatMap (·.patchTwin.hunks)) ≤ defaultLineBudget)
    (start : Nat × Nat) (unit : HunkRef review.files) (inside : start.1 < units.length) :
    ∀ stop ∈ leadNext start.1 start.2 unit (units.drop (start.1 + 1)),
      stop.1 ≤ defaultLineBudget ∧ stop.2 ≤ defaultLineBudget := by
  intro stop member
  rw [leadNext] at member
  split at member
  · have lines := length_unit review unit _ extent
    obtain rfl := Option.mem_some.1 member
    constructor
    · simp only
      omega
    · simp only
      omega
  · obtain ⟨other, -, rfl⟩ := Option.map_eq_some_iff.1 member
    constructor
    · simp only
      omega
    · exact Nat.zero_le _

end Extent

theorem mem_cursor (review : SealedReview) (key : Str) (onward : Option (Nat × Nat))
    (places : ∀ stop ∈ onward, stop.1 ≤ defaultLineBudget ∧ stop.2 ≤ defaultLineBudget) :
    ∀ text ∈ onward.map fun stop => cursor review.inputSeal key stop.1 stop.2,
      ∃ item inner, item ≤ defaultLineBudget ∧ inner ≤ defaultLineBudget ∧
        text = cursor review.inputSeal key item inner := by
  intro text member
  obtain ⟨stop, known, rfl⟩ := Option.map_eq_some_iff.1 member
  exact ⟨stop.1, stop.2, (places stop known).1, (places stop known).2, rfl⟩

/-- A page about a parsed patch takes what is kept back and what its entries cost. -/
theorem size_pageAnswer (review : SealedReview) (key : Str) (units : List (HunkRef review.files))
    (version : (Utf8.encode review.inputSeal.toolVersion).length ≤ 32)
    (count : units.length ≤ defaultLineBudget) (start : Nat × Nat) (entries : List HunkEntry)
    (onward : Option (Nat × Nat))
    (places : ∀ stop ∈ onward, stop.1 ≤ defaultLineBudget ∧ stop.2 ≤ defaultLineBudget) :
    Json.size (pageAnswer review key units start entries onward).json ≤
      envelopeBytes + entriesCost entries := by
  have whole := size_answer_le (pageAnswer review key units start entries onward)
  have remaining : (pageAnswer review key units start entries onward).remainingHunks ≤
      defaultLineBudget := (Nat.sub_le _ _).trans ((Nat.sub_le _ _).trans count)
  have envelope := envelope_within (pageAnswer review key units start entries onward) review key rfl
    version count remaining (mem_cursor review key onward places)
  exact whole.trans (Nat.add_le_add_right envelope _)

/-- The answer is within the budget, or its first line alone is over, exactly when the line it
begins with fits beside the head of its hunk or is over alone. -/
theorem hunks_budget (scan : Scan) (review : SealedReview) (input : Str) (byteLen : Nat)
    (lossy : List Nat) (options : ParseOptions)
    (read : parseLines input byteLen lossy options = .ok review.files)
    (version : (Utf8.encode review.inputSeal.toolVersion).length ≤ 32) (selection : Selection)
    (units : List (HunkRef review.files)) (key : Str)
    (accepted : select scan review.files selection = .ok (units, key)) (page : Page)
    (start : Nat × Nat)
    (resumed : resume page review.inputSeal key (fun item =>
      units[item]?.map fun unit => unit.patchHunk.lines.length) = .ok start) :
    ∃ answer, hunks scan emitted review selection page = .ok answer ∧
      (Json.size answer.json ≤ page.maxBytes ∨ FirstLineOver page.maxBytes answer ↔
        LeadFits scan review key units page.maxBytes start) := by
  obtain ⟨extent, filled⟩ := parsed_extent input byteLen lossy options review.files read
  have count := length_units scan review selection units key accepted _ extent
  obtain ⟨range, begins⟩ := resume_eq_ok page review.inputSeal key _ start resumed
  have lined (unit : HunkRef review.files) : unit.patchHunk.lines ≠ [] :=
    filled unit.patchHunk (mem_hunks unit)
  have least : envelopeBytes < page.maxBytes := lt_of_lt_of_le (by decide) range.1
  generalize taken : takeHunks scan emitted true (page.maxBytes - envelopeBytes) start.1 start.2
    (units.drop start.1) = result
  obtain ⟨entries, onward⟩ := result
  refine ⟨_, hunks_eq scan emitted review selection units key accepted page start entries onward
    resumed taken, ?_⟩
  change Json.size (pageAnswer review key units start entries onward).json ≤ _ ∨
    FirstLineOver _ (pageAnswer review key units start entries onward) ↔ _
  cases left : units.drop start.1 with
  | nil =>
    have missing : units[start.1]? = none := by
      rw [← List.head?_drop, left]
      rfl
    rw [left] at taken
    obtain ⟨rfl, rfl⟩ := Prod.mk.inj taken
    have size := size_pageAnswer review key units version count start [] none (by simp)
    have room : envelopeBytes + entriesCost [] ≤ page.maxBytes := least.le
    have fits : LeadFits scan review key units page.maxBytes start := by
      intro unit known
      rw [missing] at known
      cases known
    exact iff_of_true (.inl (size.trans room)) fits
  | cons unit rest =>
    have known : units[start.1]? = some unit := by
      rw [← List.head?_drop, left]
      rfl
    have position := (List.getElem?_eq_some_iff.1 known).1
    have later : units.drop (start.1 + 1) = rest := by
      rw [← List.drop_drop, left]
      rfl
    have inside : start.2 < unit.patchHunk.lines.length := by
      have present := List.length_pos_iff.2 (lined unit)
      rcases begins with rfl | ⟨len, length, within⟩
      · exact present
      · rw [known] at length
        obtain rfl := Option.some.inj length
        rcases within with zero | within
        · rw [zero]
          exact present
        · exact within
    obtain ⟨line, held⟩ : ∃ line, unit.patchHunk.lines[start.2]? = some line :=
      ⟨_, List.getElem?_eq_getElem inside⟩
    have lead : LeadFits scan review key units page.maxBytes start ↔
        (page.maxBytes < Json.size (lineJson line).json ∨
          Json.size (leadPage scan review key units start unit line).json ≤ page.maxBytes) := by
      simp only [LeadFits, known, Option.mem_some_iff, forall_eq', held]
    rw [lead]
    rw [left] at taken
    rcases takeHunks_first scan (page.maxBytes - envelopeBytes) start.1 start.2 unit rest line held
      fun other _ => lined other with ⟨within, leading⟩ | alone
    · have places := takeHunks_place scan review units count extent (page.maxBytes - envelopeBytes)
        start (.inr ⟨unit, rest, left, by rw [length_unitLines]; exact inside⟩)
      rw [left, taken] at places
      rw [taken] at within
      have size := size_pageAnswer review key units version count start entries onward places
      have leadSize := size_pageAnswer review key units version count start
        [leadEntry scan unit start.2 line] _
        (leadNext_place review units count extent start unit position)
      have leadCost := leadEntry_cost scan unit start.2 line
      have room : envelopeBytes + (page.maxBytes - envelopeBytes) = page.maxBytes :=
        Nat.add_sub_cancel' least.le
      refine iff_of_true (.inl ?_) (.inr ?_)
      · calc
          _ ≤ envelopeBytes + entriesCost entries := size
          _ ≤ envelopeBytes + (page.maxBytes - envelopeBytes) := Nat.add_le_add_left within _
          _ = page.maxBytes := room
      · calc
          _ ≤ envelopeBytes + entriesCost [leadEntry scan unit start.2 line] := leadSize
          _ ≤ envelopeBytes + (page.maxBytes - envelopeBytes) :=
            Nat.add_le_add_left (leadCost.trans leading) _
          _ = page.maxBytes := room
    · rw [alone] at taken
      obtain ⟨rfl, rfl⟩ := Prod.mk.inj taken
      have same : pageAnswer review key units start [leadEntry scan unit start.2 line]
          (leadNext start.1 start.2 unit rest) = leadPage scan review key units start unit line := by
        rw [leadPage, later]
      rw [same, firstLineOver_leadPage, or_comm]

def sampleUnit : HunkRef sampleReview.files := ⟨⟨0, by decide⟩, ⟨0, by decide⟩⟩

theorem hunks_budget_sample :
    ∃ answer, hunks quietScan emitted sampleReview (.paths [['x']]) ⟨minMaxBytes, none⟩ =
        .ok answer ∧
      (Json.size answer.json ≤ minMaxBytes ∨ FirstLineOver minMaxBytes answer ↔
        LeadFits quietScan sampleReview "p:x".toList [sampleUnit] minMaxBytes (0, 0)) :=
  hunks_budget quietScan sampleReview "--- a/x\n+++ b/x\n@@ -1 +1 @@\n-a\n+b\n".toList 0 [] {}
    (by decide +kernel) (by decide) (.paths [['x']]) [sampleUnit] "p:x".toList rfl
    ⟨minMaxBytes, none⟩ (0, 0) rfl

def longPath : Str := List.replicate 1100 'p'

def longPatch : Str :=
  "--- a/".toList ++ longPath ++ "\n+++ b/".toList ++ longPath ++ "\n@@ -1 +1 @@\n-a\n+b\n".toList

def longReview : SealedReview where
  files := [{ sampleFile with path := longPath }]
  inputSeal := .of (Utf8.encode longPatch) "0.1.0".toList
  origin := ⟨Utf8.encode longPatch, "0.1.0".toList, rfl⟩
  held := by decide

def longUnit : HunkRef longReview.files := ⟨⟨0, by decide⟩, ⟨0, by decide⟩⟩

set_option maxRecDepth 8000 in
theorem select_longPath : select quietScan longReview.files (.paths [longPath]) =
    .ok ([longUnit], "p:".toList ++ longPath) := rfl

/-- A page of one short line that its file's path pushes over. -/
theorem long_path_over :
    parse longPatch = .ok longReview.files ∧
      (Utf8.encode longReview.inputSeal.toolVersion).length ≤ 32 ∧
      ∃ answer, hunks quietScan emitted longReview (.paths [longPath]) ⟨minMaxBytes, none⟩ =
          .ok answer ∧
        ¬(Json.size answer.json ≤ minMaxBytes ∨ FirstLineOver minMaxBytes answer) := by
  refine ⟨by decide +kernel, by decide, ?_⟩
  let line : PatchLine := ⟨false, false, .removed, some 1, none, ['a']⟩
  have long : longPath.length = 1100 := List.length_replicate
  have opened : 1100 ≤ openSize quietScan longUnit 0 := by
    rw [← long]
    exact path_le_entry (pageEntry quietScan longUnit 0 true [])
  rcases takeHunks_first quietScan (minMaxBytes - envelopeBytes) 0 0 longUnit [] line rfl
    (by simp) with ⟨-, within⟩ | alone
  · have small : minMaxBytes - envelopeBytes = 512 := rfl
    omega
  · refine ⟨leadPage quietScan longReview ("p:".toList ++ longPath) [longUnit] (0, 0) longUnit line,
      hunks_eq quietScan emitted longReview (.paths [longPath]) [longUnit] _ select_longPath
        ⟨minMaxBytes, none⟩ (0, 0) _ _ rfl alone, ?_⟩
    have shown := entry_le_answer (leadPage quietScan longReview ("p:".toList ++ longPath)
      [longUnit] (0, 0) longUnit line) (leadEntry quietScan longUnit 0 line)
      (List.mem_singleton_self _)
    have path : longPath.length ≤ _ := path_le_entry (leadEntry quietScan longUnit 0 line)
    have budget : minMaxBytes = 1024 := rfl
    rw [firstLineOver_leadPage, not_or]
    constructor
    · omega
    · decide

end DeepDiffForge.Daemon
