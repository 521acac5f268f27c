import DeepDiffForge.Core.Digest
import DeepDiffForge.Daemon.Documents
import DeepDiffForge.Lib.Packing
import Mathlib.Algebra.Order.BigOperators.Group.List
import Mathlib.Algebra.Order.Group.Nat

/-! The tools that answer with a patch's review and with its ranking, each in full while it fits a
cap and else as a summary of what was left out. -/

namespace DeepDiffForge.Mcp
open Text Json Packing DeepDiffForge.Core DeepDiffForge.Patch DeepDiffForge.Graph
  DeepDiffForge.Daemon SessionTable

def reviewFullCap : Nat := 256 * 1024

def summaryFileLimit : Nat := 1000

def rankSummaryOverhead : Nat := 512

def toolError (message : Str) : Value :=
  record [entry "content" (.array [record [entry "type" (.string "text".toList),
    entry "text" (.string (boundedMessage message))]]), entry "isError" (.bool true)]

def structured (value : Value) : Value :=
  record [entry "content" (.array [record [entry "type" (.string "text".toList),
    entry "text" (.string value.write)]]), entry "isError" (.bool false),
    entry "structuredContent" value]

def daemonValue (outcome : Except RpcError Value) : Except Value Value :=
  outcome.mapError fun error =>
    toolError (if error.code ∈ [inputContractRefused, patchParseFailed, invalidParams] then
      error.message
    else "daemon error ".toList ++ integerText error.code ++ [':', ' '] ++ error.message)

def items (value : Value) : List Value := value.asArray.getD []

def lineCounts (file : Value) : Nat × Nat :=
  let lines := (items (file.index "hunks".toList)).flatMap fun hunk =>
    items (hunk.index "lines".toList)
  let count (kind : Str) := lines.countP fun line =>
    (line.index "kind".toList).asText = some kind
  (count "added".toList, count "removed".toList)

def summaryEntry (file : Value) : Value :=
  let counts := lineCounts file
  record ([entry "path" (file.index "path".toList), entry "status" (file.index "status".toList),
      entry "hunks" (.integer (items (file.index "hunks".toList)).length),
      entry "additions" (.integer counts.1), entry "deletions" (.integer counts.2)] ++
    ((file.get "lossy_lines".toList).elim [] fun lossy => [entry "lossy_lines" lossy]))

def summarize (review : Value) (fullBytes : Nat) (reason : Str) : Value :=
  let files := items (review.index "files".toList)
  record ([entry "schema" (.string "deep-diff-forge.review-summary.v0".toList),
      entry "input_sha256" (review.index "input_sha256".toList),
      entry "tool" (review.index "tool".toList), entry "detail" (.string "summary".toList),
      entry "reason" (.string reason), entry "full_bytes" (.integer fullBytes),
      entry "summary" (review.index "summary".toList),
      entry "files" (.array ((files.take summaryFileLimit).map summaryEntry)),
      entry "omitted_files" (.integer (files.length - summaryFileLimit : Nat))] ++
    ((review.get "selected".toList).elim [] fun selected => [entry "selected" selected]))

def detailOf : Option Value → Option Bool
  | none => some false
  | some (.string detail) =>
      if detail = "auto".toList then some false
      else if detail = "summary".toList then some true else none
  | some _ => none

def pathsOf : Option Value → Option (Option (List Str))
  | none => some none
  | some (.array values) => (values.mapM Value.asText).map some
  | some _ => none

def named (path : Str) (file : Value) : Bool := (file.index "path".toList).asText = some path

def selection (paths : List Str) : List Str :=
  paths.foldl (fun selected path => if path ∈ selected then selected else selected ++ [path]) []

/-- The review of the files of some paths, or the refusal of a path no file has; nothing where a
member is set through a value that holds none. -/
def limited (review : Value) (paths : List Str) : Option (Except Value Value) :=
  match (review.get "files".toList).bind Value.asArray with
  | none => some (.error (toolError "internal error".toList))
  | some files =>
      match paths.find? fun path => !files.any (named path) with
      | some missing =>
          some (.error (toolError ("no file in the patch is named ".toList ++ missing)))
      | none => do
          let kept := files.filter fun file => paths.any fun path => named path file
          let counts := kept.foldl (fun sums file =>
            (sums.1 + (lineCounts file).1, sums.2 + (lineCounts file).2)) (0, 0)
          let review ← assign (.array kept) ["files".toList] review
          let review ← assign (.integer kept.length)
            ["summary".toList, "files_changed".toList] review
          let review ← assign (.integer counts.1) ["summary".toList, "additions".toList] review
          let review ← assign (.integer counts.2) ["summary".toList, "deletions".toList] review
          let review ← assign (strings (selection paths)) ["selected".toList] review
          return .ok review

def reviewAnswer (review : Value) (summaryOnly : Bool) (cap : Nat) : Value :=
  let fullBytes := extent review.write
  if summaryOnly then structured (summarize review fullBytes "summary requested".toList)
  else if cap < fullBytes then
    structured (summarize review fullBytes ("the full review is ".toList ++ decimal fullBytes ++
      " bytes, over the ".toList ++ decimal cap ++
      "-byte cap; pass paths to see chosen files in full, or rank_patch for risk order".toList))
  else structured review

def without (name : String) (arguments : List (Str × Value)) : List (Str × Value) :=
  arguments.filter fun argument => argument.1 ≠ name.toList

/-- `review_patch`; nothing where the code would stop. -/
def reviewToolWith (release : Release) (arguments : List (Str × Value)) (cap : Nat) :
    Option Value :=
  match detailOf (lookup arguments "detail".toList) with
  | none => some (toolError "detail must be \"auto\" or \"summary\"".toList)
  | some summaryOnly =>
      match pathsOf (lookup arguments "paths".toList) with
      | none => some (toolError "paths must be an array of strings".toList)
      | some paths =>
          let rest := without "paths" (without "detail" arguments)
          match daemonValue (diffCompute release (.object rest)) with
          | .error error => some error
          | .ok review =>
              match paths with
              | none => some (reviewAnswer review summaryOnly cap)
              | some paths => (limited review paths).map fun
                  | .error error => error
                  | .ok review => reviewAnswer review summaryOnly cap

def keptFiles (ranked : List Value) (cap : Nat) : List Value :=
  front (fun file => extent file.write + 1) (cap - rankSummaryOverhead) ranked

def rankSummary (document : Value) (fullBytes cap : Nat) : Value :=
  let ranked := items (document.index "ranked".toList)
  let kept := keptFiles ranked cap
  record [entry "schema" (.string "deep-diff-forge.rank-summary.v0".toList),
    entry "input_sha256" (document.index "input_sha256".toList),
    entry "tool" (document.index "tool".toList),
    entry "reason" (.string ("the full ranking is ".toList ++ decimal fullBytes ++
      " bytes, over the ".toList ++ decimal cap ++
      "-byte cap; these are the highest-ranked files that fit".toList)),
    entry "full_bytes" (.integer fullBytes), entry "total_files" (.integer ranked.length),
    entry "omitted_files" (.integer (ranked.length - kept.length : Nat)),
    entry "files" (.array kept)]

/-- `rank_patch`. -/
def rankToolWith (release : Release) (arguments : List (Str × Value)) (cap : Nat) : Value :=
  match daemonValue (diffRank release (.object arguments)) with
  | .error error => error
  | .ok document =>
      let fullBytes := extent document.write
      if fullBytes ≤ cap then structured document
      else structured (rankSummary document fullBytes cap)

/-! ### The ranking -/

theorem share_entry (name : String) (width : Nat) (value : Value)
    (shape : name.toList.all plain = true ∧ name.toList.length = width) :
    share (entry name value) = width + 4 + extent value.write := by
  have quoted := extent_string name.toList (List.all_eq_true.1 shape.1)
  rw [shape.2] at quoted
  change extent (string name.toList) + extent value.write + 2 = _
  omega

theorem extent_integer (n : Nat) (within : n ≤ usizeMax) :
    extent (Value.integer n).write ≤ 20 := by
  have digits : (decimal n).length ≤ 20 := by
    rw [usizeMax] at within
    rw [decimal, Nat.length_toDigits_le_iff (by decide) (by decide)]
    omega
  change extent (decimal n) ≤ 20
  rwa [extent_plain _ (plain_decimal n)]

theorem sealed_ok (release : Release) (params : Value) (reviewed : List ReviewFile × InputSeal)
    (read : sealed release params = .ok reviewed) :
    ∃ input, reviewed.2 = .of input release.version := by
  obtain ⟨patch, -, read⟩ := (Fallible.bind_eq_ok _ _ _).1 read
  obtain ⟨files, -, read⟩ := (Fallible.bind_eq_ok _ _ _).1 read
  obtain ⟨hunks, -, read⟩ := (Fallible.bind_eq_ok _ _ _).1 read
  refine ⟨Utf8.encode patch, ?_⟩
  unfold sealReview at read
  cases parsed : parseDecoded (decodePatch (Utf8.encode patch)) {} with
  | error error => rw [parsed] at read; cases read
  | ok parsedFiles =>
    rw [parsed] at read
    dsimp only at read
    cases refused : InputGuards.refusal { files, hunks } parsedFiles with
    | some reason => rw [refused] at read; cases read
    | none => rw [refused] at read; cases read; rfl

theorem extent_items (values : List Value) :
    extent (Value.array values).write ≤ total (fun value => extent value.write + 1) values + 2 := by
  have within := extent_array_le (writeItems values)
  rw [writeItems_map, List.map_map] at within
  rw [Value.write, writeItems_map]
  exact within

theorem length_items (values : List Value) :
    values.length ≤ extent (Value.array values).write := by
  rw [Value.write, writeItems_map]
  cases values with
  | nil => exact Nat.zero_le _
  | cons value rest =>
    have each : ∀ sizes : List Nat, sizes.length ≤ (sizes.map (· + 1)).sum := by
      intro sizes
      induction sizes with
      | nil => exact Nat.le_refl 0
      | cons size sizes ih =>
        rw [List.map_cons, List.sum_cons, List.length_cons]
        omega
    have within := each ((value :: rest).map fun item => extent item.write)
    rw [List.length_map, List.map_map] at within
    rw [extent_array _ (by simp), List.map_map]
    exact within.trans (Nat.le_succ _)

def rankReason (fullBytes cap : Nat) : Str :=
  "the full ranking is ".toList ++ decimal fullBytes ++ " bytes, over the ".toList ++
    decimal cap ++ "-byte cap; these are the highest-ranked files that fit".toList

theorem extent_reason (fullBytes cap : Nat) (full : fullBytes ≤ usizeMax) (limit : cap ≤ usizeMax) :
    extent (string (rankReason fullBytes cap)) ≤ 133 := by
  have first := literal_shape "the full ranking is " plain 20 rfl (by decide)
  have second := literal_shape " bytes, over the " plain 17 rfl (by decide)
  have third := literal_shape "-byte cap; these are the highest-ranked files that fit"
    plain 54 rfl (by decide)
  have one := extent_integer fullBytes full
  have two := extent_integer cap limit
  change extent (decimal fullBytes) ≤ 20 at one
  change extent (decimal cap) ≤ 20 at two
  rw [extent_plain _ (plain_decimal _)] at one two
  have ordinary : ∀ c ∈ rankReason fullBytes cap, plain c = true := by
    unfold rankReason
    simp only [List.mem_append]
    rintro c ((((listed | listed) | listed) | listed) | listed)
    · exact List.all_eq_true.1 first.1 c listed
    · exact plain_decimal fullBytes c listed
    · exact List.all_eq_true.1 second.1 c listed
    · exact plain_decimal cap c listed
    · exact List.all_eq_true.1 third.1 c listed
  have long : (rankReason fullBytes cap).length =
      20 + (decimal fullBytes).length + 17 + (decimal cap).length + 54 := by
    unfold rankReason
    rw [List.length_append, List.length_append, List.length_append, List.length_append, first.2,
      second.2, third.2]
  rw [extent_string _ ordinary, long]
  clear first second third
  omega

theorem summary_sum (cap schema digest tool reason full whole omitted kept held : Nat)
    (room : rankSummaryOverhead ≤ cap) (schemaFits : schema ≤ 31 + 2) (digestFits : digest ≤ 66)
    (toolFits : tool ≤ 88) (reasonFits : reason ≤ 133) (fullFits : full ≤ 20)
    (wholeFits : whole ≤ 20) (omittedFits : omitted ≤ 20) (keptFits : kept ≤ held + 2)
    (within : held ≤ cap - rankSummaryOverhead) :
    6 + 4 + schema + (12 + 4 + digest + (4 + 4 + tool + (6 + 4 + reason + (10 + 4 + full +
      (11 + 4 + whole + (13 + 4 + omitted + (5 + 4 + kept + 0))))))) + 1 ≤ cap := by
  unfold rankSummaryOverhead at room within
  omega

/-- A summary's own fields take no more than is kept back for them. -/
theorem rankSummary_bytes (document : Value) (fullBytes cap : Nat) (ranked : List Value)
    (held : document.get "ranked".toList = some (.array ranked))
    (digest : extent (document.index "input_sha256".toList).write ≤ 66)
    (tool : extent (document.index "tool".toList).write ≤ 88) (room : rankSummaryOverhead ≤ cap)
    (past : cap < fullBytes) (sized : fullBytes ≤ usizeMax) (few : ranked.length ≤ usizeMax) :
    extent (rankSummary document fullBytes cap).write ≤ cap := by
  have listed : items (document.index "ranked".toList) = ranked := by
    rw [index_of_get _ _ _ held]
    rfl
  have within := front_within (fun file => extent file.write + 1) (cap - rankSummaryOverhead) ranked
  have kept := extent_items (keptFiles ranked cap)
  have named := literal_shape "deep-diff-forge.rank-summary.v0" plain 31 rfl (by decide)
  have schema := extent_string _ (List.all_eq_true.1 named.1)
  rw [named.2] at schema
  have reason := extent_reason fullBytes cap sized (by omega)
  have full := extent_integer fullBytes sized
  have whole := extent_integer ranked.length few
  have omitted := extent_integer (ranked.length - (keptFiles ranked cap).length) (by omega)
  unfold rankSummary
  rw [listed, extent_record _ (by simp only [List.map_cons, List.map_nil, entry]; decide)
    (List.cons_ne_nil _ _)]
  simp only [List.map_cons, List.map_nil, List.sum_cons, List.sum_nil]
  rw [share_entry "schema" 6 _ (by decide), share_entry "input_sha256" 12 _ (by decide),
    share_entry "tool" 4 _ (by decide), share_entry "reason" 6 _ (by decide),
    share_entry "full_bytes" 10 _ (by decide), share_entry "total_files" 11 _ (by decide),
    share_entry "omitted_files" 13 _ (by decide), share_entry "files" 5 _ (by decide)]
  exact summary_sum cap _ _ _ _ _ _ _ _ _ room (Nat.le_of_eq schema) digest tool reason full whole
    omitted kept within

theorem extent_listed (members : List (Str × Value)) (apart : (members.map (·.1)).Nodup)
    (name : Str) (value : Value) (listed : (name, value) ∈ members) :
    extent value.write ≤ extent (record members).write := by
  have part : share (name, value) ≤ (members.map share).sum :=
    List.single_le_sum (fun _ _ => Nat.zero_le _) _ (List.mem_map_of_mem listed)
  rw [extent_record members apart (List.ne_nil_of_mem listed)]
  change extent (string name) + extent value.write + 2 ≤ _ at part
  omega

theorem extent_seal (bytes : List UInt8) :
    extent (Value.string (sha256Hex bytes)).write ≤ 66 :=
  Nat.le_of_eq (extent_string _ (plain_sha256Hex bytes))

theorem extent_toolEntry (version : Str) (ordinary : ∀ c ∈ version, plain c = true)
    (named : extent toolName + extent version ≤ 64) :
    extent (record [entry "name" (.string toolName), entry "version" (.string version)]).write ≤
      88 := by
  have first : extent (Value.string toolName).write = extent toolName + 2 := by
    have own := literal_shape "deep-diff-forge" plain 15 rfl (by decide)
    have letters := List.all_eq_true.1 own.1
    rw [extent_plain toolName letters]
    exact extent_string toolName letters
  have second : extent (Value.string version).write = extent version + 2 := by
    rw [extent_plain version ordinary]
    exact extent_string version ordinary
  rw [extent_record _ (by simp only [List.map_cons, List.map_nil, entry]; decide)
    (List.cons_ne_nil _ _)]
  simp only [List.map_cons, List.map_nil, List.sum_cons, List.sum_nil]
  rw [share_entry "name" 4 _ (by decide), share_entry "version" 7 _ (by decide), first, second]
  omega

section Ranking
variable (scan : Scan) (files : List ReviewFile) (inputSeal : InputSeal)

def rankedValues : List Value := (rank scan files).map rankedValue

theorem get_ranked : (rankDocument scan files inputSeal).get "ranked".toList =
    some (.array (rankedValues scan files)) :=
  get_listed _ (apart_rank scan files inputSeal) _ _ (by simp [rankEntries, entry, rankedJson, rankedValues])

theorem get_digest : (rankDocument scan files inputSeal).get "input_sha256".toList =
    some (.string inputSeal.inputSha256) :=
  get_listed _ (apart_rank scan files inputSeal) _ _ (by simp [rankEntries, sealEntries, entry])

theorem get_tool : (rankDocument scan files inputSeal).get "tool".toList =
    some (record [entry "name" (.string toolName),
      entry "version" (.string inputSeal.toolVersion)]) :=
  get_listed _ (apart_rank scan files inputSeal) _ _ (by simp [rankEntries, sealEntries, entry])

end Ranking

/-- A summary of a ranking that says what it holds: its files lead the ranking, as many as the cap
has room for, and its counts and its seal are those of the ranking. -/
structure Honest (document : Value) (cap : Nat) (summary : Value) : Prop where
  front : ∃ ranked kept omitted, document.get "ranked".toList = some (.array ranked) ∧
    summary.get "files".toList = some (.array kept) ∧ kept <+: ranked ∧
    total (fun file => extent file.write + 1) kept ≤ cap - rankSummaryOverhead ∧
    (∀ longer, longer <+: ranked →
      total (fun file => extent file.write + 1) longer ≤ cap - rankSummaryOverhead →
      longer.length ≤ kept.length) ∧
    summary.get "omitted_files".toList = some (.integer (omitted : Nat)) ∧
    summary.get "total_files".toList = some (.integer ranked.length) ∧
    kept.length + omitted = ranked.length
  digest : summary.get "input_sha256".toList = document.get "input_sha256".toList
  tool : summary.get "tool".toList = document.get "tool".toList
  bytes : extent summary.write ≤ cap

theorem rank_honest (release : Release) (files : List ReviewFile) (input : List UInt8) (cap : Nat)
    (named : extent toolName + extent release.version ≤ 64) (room : rankSummaryOverhead ≤ cap)
    (document : Value)
    (own : document = rankDocument release.scan files (.of input release.version))
    (past : cap < extent document.write) (sized : extent document.write ≤ usizeMax) :
    Honest document cap (rankSummary document (extent document.write) cap) := by
  have ranked : document.get "ranked".toList = some (.array (rankedValues release.scan files)) :=
    own ▸ get_ranked release.scan files _
  have digest := get_digest release.scan files (.of input release.version)
  have tool := get_tool release.scan files (.of input release.version)
  rw [← own] at digest tool
  have listed : items (document.index "ranked".toList) = rankedValues release.scan files := by
    rw [index_of_get _ _ _ ranked]
    rfl
  have few : (rankedValues release.scan files).length ≤ usizeMax := by
    apply (length_items _).trans (le_trans _ sized)
    rw [own]
    exact extent_listed _ (apart_rank _ _ _) "ranked".toList _
      (by simp [rankEntries, entry, rankedJson, rankedValues])
  have apart : ∀ a b c d e f g h : Value, ([entry "schema" a, entry "input_sha256" b,
      entry "tool" c, entry "reason" d, entry "full_bytes" e, entry "total_files" f,
      entry "omitted_files" g, entry "files" h].map (·.1)).Nodup := by
    intros
    simp only [List.map_cons, List.map_nil, entry]
    decide
  have leads := front_prefix (fun file : Value => extent file.write + 1)
    (cap - rankSummaryOverhead) (rankedValues release.scan files)
  refine ⟨⟨rankedValues release.scan files, keptFiles (rankedValues release.scan files) cap,
    (rankedValues release.scan files).length -
      (keptFiles (rankedValues release.scan files) cap).length, ranked, ?_, leads,
    front_within _ _ _, ?_, ?_, ?_, ?_⟩, ?_, ?_, ?_⟩
  · unfold rankSummary
    rw [listed]
    exact (get_record _ (apart _ _ _ _ _ _ _ _) _).trans rfl
  · intro longer before fits
    exact (front_longest _ _ _ _ before fits).length_le
  · unfold rankSummary
    rw [listed]
    exact (get_record _ (apart _ _ _ _ _ _ _ _) _).trans rfl
  · unfold rankSummary
    rw [listed]
    exact (get_record _ (apart _ _ _ _ _ _ _ _) _).trans rfl
  · exact Nat.add_sub_cancel' leads.length_le
  · rw [digest]
    unfold rankSummary
    rw [index_of_get _ _ _ digest]
    exact (get_record _ (apart _ _ _ _ _ _ _ _) _).trans rfl
  · rw [tool]
    unfold rankSummary
    rw [index_of_get _ _ _ tool]
    exact (get_record _ (apart _ _ _ _ _ _ _ _) _).trans rfl
  · apply rankSummary_bytes document _ cap _ ranked _ _ room past sized few
    · rw [index_of_get _ _ _ digest]
      exact extent_seal input
    · rw [index_of_get _ _ _ tool]
      exact extent_toolEntry release.version release.plainVersion named

/-! ### The review of some paths -/

section Review
open ReviewJson

theorem named_file (path : Str) (file : ReviewFile) :
    named path (fileValue file) = decide (file.path = path) := by
  have own := get_listed _ (apart_file file) "path".toList (.string file.path)
    (by simp [fileEntries, entry])
  rw [named, show fileValue file = record (fileEntries file) from rfl, index_of_get _ _ _ own,
    Value.asText]
  simp only [Option.some.injEq]

theorem items_hunks (file : ReviewFile) : items ((fileValue file).index "hunks".toList) =
    file.patchTwin.hunks.map (hunkValue file.path) := by
  have own := get_listed _ (apart_file file) "hunks".toList
    (.array (file.patchTwin.hunks.map (hunkValue file.path))) (by simp [fileEntries, entry])
  rw [show fileValue file = record (fileEntries file) from rfl, index_of_get _ _ _ own]
  rfl

theorem items_lines (path : Str) (hunk : PatchHunk) :
    items ((hunkValue path hunk).index "lines".toList) = hunk.lines.map lineValue := by
  have own := get_listed _ (apart_hunk path hunk) "lines".toList
    (.array (hunk.lines.map lineValue)) (by simp [hunkEntries, entry])
  rw [show hunkValue path hunk = record (hunkEntries path hunk) from rfl,
    index_of_get _ _ _ own]
  rfl

theorem kind_line (line : PatchLine) (kind : PatchLineKind) :
    ((lineValue line).index "kind".toList).asText = some (lineKindStr kind) ↔
      line.kind = kind := by
  have own := get_listed _ (apart_line line) "kind".toList (.string (lineKindStr line.kind))
    (by simp [lineEntries, entry])
  rw [show lineValue line = record (lineEntries line) from rfl, index_of_get _ _ _ own,
    Value.asText, Option.some.injEq]
  constructor
  · intro same
    revert same
    cases line.kind <;> cases kind <;> decide
  · rintro rfl
    rfl

theorem lineCounts_file (file : ReviewFile) : lineCounts (fileValue file) =
    ((fileLines file).countP (·.kind = .added), (fileLines file).countP (·.kind = .removed)) := by
  have lines : (items ((fileValue file).index "hunks".toList)).flatMap (fun hunk =>
      items (hunk.index "lines".toList)) = (fileLines file).map lineValue := by
    rw [items_hunks, List.flatMap_map, fileLines, List.map_flatMap]
    simp only [items_lines]
  have added : "added".toList = lineKindStr .added := rfl
  have removed : "removed".toList = lineKindStr .removed := rfl
  unfold lineCounts
  dsimp only
  rw [lines, List.countP_map, List.countP_map, added, removed]
  congr 1
  · apply List.countP_congr
    intro line _
    simp only [Function.comp_apply, decide_eq_true_eq, kind_line]
  · apply List.countP_congr
    intro line _
    simp only [Function.comp_apply, decide_eq_true_eq, kind_line]

theorem counts_files (files : List ReviewFile) (additions deletions : Nat) :
    (files.map fileValue).foldl (fun sums file =>
      (sums.1 + (lineCounts file).1, sums.2 + (lineCounts file).2)) (additions, deletions) =
      (additions + (linesOf files).countP (·.kind = .added),
        deletions + (linesOf files).countP (·.kind = .removed)) := by
  induction files generalizing additions deletions with
  | nil => rfl
  | cons file rest ih =>
    have split : linesOf (file :: rest) = fileLines file ++ linesOf rest := rfl
    rw [List.map_cons, List.foldl_cons, ih, lineCounts_file, split, List.countP_append,
      List.countP_append]
    dsimp only
    rw [Nat.add_assoc, Nat.add_assoc]

theorem mem_selected (paths held : List Str) (path : Str) :
    path ∈ paths.foldl (fun selected path =>
      if path ∈ selected then selected else selected ++ [path]) held ↔
      path ∈ held ∨ path ∈ paths := by
  induction paths generalizing held with
  | nil => simp
  | cons first rest ih =>
    rw [List.foldl_cons, ih]
    split_ifs with there
    · rw [List.mem_cons]
      constructor
      · rintro (earlier | later)
        · exact .inl earlier
        · exact .inr (.inr later)
      · rintro (earlier | rfl | later)
        · exact .inl earlier
        · exact .inl there
        · exact .inr later
    · rw [List.mem_append, List.mem_singleton, List.mem_cons, or_assoc]

theorem nodup_selected (paths held : List Str) (apart : held.Nodup) :
    (paths.foldl (fun selected path =>
      if path ∈ selected then selected else selected ++ [path]) held).Nodup := by
  induction paths generalizing held with
  | nil => exact apart
  | cons first rest ih =>
    rw [List.foldl_cons]
    split_ifs with there
    · exact ih held apart
    · apply ih
      rw [List.nodup_append]
      refine ⟨apart, List.nodup_singleton first, fun other listed last alone same => ?_⟩
      rw [List.mem_singleton] at alone
      exact there (alone ▸ same ▸ listed)

def chosen (files : List ReviewFile) (paths : List Str) : List ReviewFile :=
  files.filter fun file => file.path ∈ paths

/-- A review limited to some paths: exactly the files with those paths, the counts that are their
own, and every path asked for, each the name of a file it holds. -/
structure Limited (whole : List ReviewFile) (review : Value) (paths : List Str)
    (document : Value) : Prop where
  files : document.get "files".toList = some (.array ((chosen whole paths).map fileValue))
  changed : (document.index "summary".toList).get "files_changed".toList =
    some (.integer (chosen whole paths).length)
  additions : (document.index "summary".toList).get "additions".toList =
    some (.integer ((linesOf (chosen whole paths)).countP (·.kind = .added)))
  deletions : (document.index "summary".toList).get "deletions".toList =
    some (.integer ((linesOf (chosen whole paths)).countP (·.kind = .removed)))
  selected : ∃ selected, document.get "selected".toList = some (Daemon.strings selected) ∧
    selected.Nodup ∧ ∀ path, path ∈ selected ↔ path ∈ paths
  held : ∀ path ∈ paths, ∃ file ∈ chosen whole paths, file.path = path
  kept : ∀ name, name ≠ "files".toList → name ≠ "summary".toList → name ≠ "selected".toList →
    document.get name = review.get name

theorem get_files (files : List ReviewFile) (inputSeal : InputSeal) :
    (reviewDocument files inputSeal).get "files".toList = some (.array (files.map fileValue)) :=
  get_listed _ (apart_review files inputSeal) _ _ (by simp [reviewEntries, sealEntries, entry])

theorem any_named (files : List ReviewFile) (path : Str) :
    (files.map fileValue).any (named path) = true ↔ ∃ file ∈ files, file.path = path := by
  simp only [List.any_map, List.any_eq_true, Function.comp_apply, named_file, decide_eq_true_eq]

/-- A path no file has is refused, the first of them by its name. -/
theorem limited_missing (files : List ReviewFile) (inputSeal : InputSeal) (paths : List Str)
    (missing : ¬∀ path ∈ paths, ∃ file ∈ files, file.path = path) :
    ∃ path ∈ paths, (¬∃ file ∈ files, file.path = path) ∧
      limited (reviewDocument files inputSeal) paths =
        some (.error (toolError ("no file in the patch is named ".toList ++ path))) := by
  have holds : (paths.find? fun path => !(files.map fileValue).any (named path)).isSome := by
    rw [List.find?_isSome]
    push Not at missing
    obtain ⟨path, asked, absent⟩ := missing
    refine ⟨path, asked, ?_⟩
    rw [Bool.not_eq_true', Bool.eq_false_iff, ne_eq, any_named]
    rintro ⟨file, listed, same⟩
    exact absent file listed same
  obtain ⟨path, first⟩ := Option.isSome_iff_exists.1 holds
  have absent := List.find?_some first
  rw [Bool.not_eq_true', Bool.eq_false_iff, ne_eq, any_named] at absent
  refine ⟨path, List.mem_of_find?_eq_some first, absent, ?_⟩
  unfold limited
  rw [get_files]
  dsimp only [Option.bind_some, Value.asArray]
  rw [first]

theorem kept_files (files : List ReviewFile) (paths : List Str) :
    (files.map fileValue).filter (fun file => paths.any fun path => named path file) =
      (chosen files paths).map fileValue := by
  rw [List.filter_map, chosen]
  congr 1
  apply List.filter_congr
  intro file _
  rw [Function.comp_apply, Bool.eq_iff_iff, List.any_eq_true, decide_eq_true_eq]
  simp only [named_file, decide_eq_true_eq]
  exact ⟨fun ⟨path, asked, same⟩ => same ▸ asked, fun asked => ⟨file.path, asked, rfl⟩⟩

theorem limited_known (files : List ReviewFile) (inputSeal : InputSeal) (paths : List Str)
    (known : ∀ path ∈ paths, ∃ file ∈ files, file.path = path) :
    ∃ document, limited (reviewDocument files inputSeal) paths = some (.ok document) ∧
      Limited files (reviewDocument files inputSeal) paths document := by
  have absent : paths.find? (fun path => !(files.map fileValue).any (named path)) = none := by
    rw [List.find?_eq_none]
    intro path asked
    rw [Bool.not_eq_true', Bool.not_eq_false, any_named]
    exact known path asked
  have summary : lookup (collect (reviewEntries files inputSeal)) "summary".toList =
      some (.object (collect [entry "files_changed" (.integer files.length),
        entry "additions" (.integer ((linesOf files).countP (·.kind = .added))),
        entry "deletions" (.integer ((linesOf files).countP (·.kind = .removed))),
        entry "semantic_fallbacks" (.integer (files.countP fellBack))])) :=
    get_listed _ (apart_review files inputSeal) "summary".toList _
      (by simp [reviewEntries, sealEntries, entry, record])
  generalize collect [entry "files_changed" (.integer files.length),
    entry "additions" (.integer ((linesOf files).countP (·.kind = .added))),
    entry "deletions" (.integer ((linesOf files).countP (·.kind = .removed))),
    entry "semantic_fallbacks" (.integer (files.countP fellBack))] = totals at summary
  have apart : "files".toList ≠ "summary".toList := by decide
  have found (value : Value) (members : List (Str × Value)) :
      lookup (setMember "summary".toList value members) "summary".toList = some value := by
    rw [lookup_setMember, if_pos rfl]
  have first : lookup (setMember "files".toList
      (.array ((chosen files paths).map fileValue)) (collect (reviewEntries files inputSeal)))
      "summary".toList = some (.object totals) := by
    rw [lookup_setMember, if_neg apart, summary]
  have run : limited (reviewDocument files inputSeal) paths = some (.ok (.object (setMember
      "selected".toList (Daemon.strings (selection paths)) (setMember "summary".toList
      (.object (setMember "deletions".toList
        (.integer ((linesOf (chosen files paths)).countP (·.kind = .removed)))
        (setMember "additions".toList
          (.integer ((linesOf (chosen files paths)).countP (·.kind = .added)))
          (setMember "files_changed".toList (.integer (chosen files paths).length) totals))))
      (setMember "summary".toList
        (.object (setMember "additions".toList
          (.integer ((linesOf (chosen files paths)).countP (·.kind = .added)))
          (setMember "files_changed".toList (.integer (chosen files paths).length) totals)))
      (setMember "summary".toList
        (.object (setMember "files_changed".toList (.integer (chosen files paths).length) totals))
      (setMember "files".toList (.array ((chosen files paths).map fileValue))
        (collect (reviewEntries files inputSeal))))))))) := by
    unfold limited
    rw [get_files]
    dsimp only [Option.bind_some, Value.asArray]
    rw [absent]
    dsimp only
    rw [kept_files, counts_files, List.length_map]
    unfold reviewDocument record
    rw [assign_member, Option.bind_eq_bind, Option.bind_some,
      assign_inner _ _ _ _ _ first, Option.bind_some, assign_inner _ _ _ _ _ (found _ _),
      Option.bind_some, assign_inner _ _ _ _ _ (found _ _), Option.bind_some,
      assign_member, Nat.zero_add, Nat.zero_add]
    rfl
  have last (value : Value) (others : List (Str × Value)) (chosen' : Value) :
      (Value.object (setMember "selected".toList chosen'
        (setMember "summary".toList value others))).index "summary".toList = value := by
    apply index_of_get
    rw [get_set, if_neg (by decide), get_set, if_pos rfl]
  refine ⟨_, run, ⟨?_, ?_, ?_, ?_, ?_, ?_, ?_⟩⟩
  · rw [get_set, if_neg (by decide), get_set, if_neg (by decide), get_set, if_neg (by decide),
      get_set, if_neg (by decide), get_set, if_pos rfl]
  · rw [last, get_set, if_neg (by decide), get_set, if_neg (by decide), get_set, if_pos rfl]
  · rw [last, get_set, if_neg (by decide), get_set, if_pos rfl]
  · rw [last, get_set, if_pos rfl]
  · refine ⟨selection paths, ?_, nodup_selected paths [] List.nodup_nil, fun path => ?_⟩
    · rw [get_set, if_pos rfl]
    · rw [selection, mem_selected]
      exact ⟨fun either => either.resolve_left List.not_mem_nil, .inr⟩
  · intro path asked
    obtain ⟨file, listed, same⟩ := known path asked
    exact ⟨file, List.mem_filter.2 ⟨listed, decide_eq_true (same ▸ asked)⟩, same⟩
  · intro name notFiles notSummary notSelected
    rw [get_set, if_neg notSelected.symm, get_set, if_neg notSummary.symm, get_set,
      if_neg notSummary.symm, get_set, if_neg notSummary.symm, get_set, if_neg notFiles.symm]
    rfl

/-- The summary of a limited review: its totals, its paths and its seal, and the counts of its files
from the first on, with how many more there are. -/
structure Summarized (document summary : Value) : Prop where
  files : ∃ files, document.get "files".toList = some (.array files) ∧
    summary.get "files".toList = some (.array ((files.take summaryFileLimit).map summaryEntry)) ∧
    summary.get "omitted_files".toList = some (.integer (files.length - summaryFileLimit : Nat))
  alike : ∀ name ∈ ["summary".toList, "selected".toList, "input_sha256".toList, "tool".toList],
    summary.get name = document.get name

theorem get_seal (files : List ReviewFile) (inputSeal : InputSeal) :
    ∃ digest tool, (reviewDocument files inputSeal).get "input_sha256".toList = some digest ∧
      (reviewDocument files inputSeal).get "tool".toList = some tool :=
  ⟨.string inputSeal.inputSha256, record [entry "name" (.string toolName),
      entry "version" (.string inputSeal.toolVersion)],
    get_listed _ (apart_review files inputSeal) _ _ (by simp [reviewEntries, sealEntries, entry]),
    get_listed _ (apart_review files inputSeal) _ _ (by simp [reviewEntries, sealEntries, entry])⟩

theorem summarized (document files totals selected digest tool : Value) (listed : List Value)
    (fullBytes : Nat) (reason : Str) (array : files = .array listed)
    (gotFiles : document.get "files".toList = some files)
    (gotTotals : document.get "summary".toList = some totals)
    (gotSelected : document.get "selected".toList = some selected)
    (gotDigest : document.get "input_sha256".toList = some digest)
    (gotTool : document.get "tool".toList = some tool) :
    Summarized document (summarize document fullBytes reason) := by
  have apart : ∀ a b c d e f g h i j : Value, ([entry "schema" a, entry "input_sha256" b,
      entry "tool" c, entry "detail" d, entry "reason" e, entry "full_bytes" f,
      entry "summary" g, entry "files" h, entry "omitted_files" i, entry "selected" j].map
        (·.1)).Nodup := by
    intros
    simp only [List.map_cons, List.map_nil, entry]
    decide
  subst array
  unfold summarize
  rw [index_of_get _ _ _ gotFiles, index_of_get _ _ _ gotTotals, index_of_get _ _ _ gotDigest,
    index_of_get _ _ _ gotTool, gotSelected]
  refine ⟨⟨listed, gotFiles, ?_, ?_⟩, ?_⟩
  · exact (get_record _ (apart _ _ _ _ _ _ _ _ _ _) _).trans rfl
  · exact (get_record _ (apart _ _ _ _ _ _ _ _ _ _) _).trans rfl
  · simp only [List.forall_mem_cons]
    refine ⟨?_, ?_, ?_, ?_, fun _ listed => absurd listed List.not_mem_nil⟩
    · rw [gotTotals]
      exact (get_record _ (apart _ _ _ _ _ _ _ _ _ _) _).trans rfl
    · rw [gotSelected]
      exact (get_record _ (apart _ _ _ _ _ _ _ _ _ _) _).trans rfl
    · rw [gotDigest]
      exact (get_record _ (apart _ _ _ _ _ _ _ _ _ _) _).trans rfl
    · rw [gotTool]
      exact (get_record _ (apart _ _ _ _ _ _ _ _ _ _) _).trans rfl

theorem pathsOf_strings (paths : List Str) :
    pathsOf (some (Daemon.strings paths)) = some (some paths) := by
  have read : (paths.map Value.string).mapM Value.asText = some paths := by
    induction paths with
    | nil => rfl
    | cons path rest ih =>
      rw [List.map_cons, List.mapM_cons, ih]
      rfl
  change ((paths.map Value.string).mapM Value.asText).map some = _
  rw [read]
  rfl

theorem reviewAnswer_limited (files : List ReviewFile) (inputSeal : InputSeal) (paths : List Str)
    (document : Value) (narrowed : Limited files (reviewDocument files inputSeal) paths document)
    (summaryOnly : Bool) (cap : Nat) :
    ∃ answer, reviewAnswer document summaryOnly cap = structured answer ∧
      if summaryOnly = false ∧ extent document.write ≤ cap then answer = document
      else Summarized document answer := by
  obtain ⟨digest, tool, gotDigest, gotTool⟩ := get_seal files inputSeal
  obtain ⟨selected, gotSelected, -, -⟩ := narrowed.selected
  obtain ⟨totals, gotTotals⟩ : ∃ totals, document.get "summary".toList = some totals := by
    cases got : document.get "summary".toList with
    | some totals => exact ⟨totals, rfl⟩
    | none =>
      have changed := narrowed.changed
      rw [Value.index, got] at changed
      cases changed
  rw [← narrowed.kept _ (by decide) (by decide) (by decide)] at gotDigest gotTool
  have shortened := fun fullBytes reason => summarized document _ totals _ digest tool _ fullBytes
    reason rfl narrowed.files gotTotals gotSelected gotDigest gotTool
  by_cases inside : summaryOnly = false ∧ extent document.write ≤ cap
  · refine ⟨document, ?_, by rw [if_pos inside]⟩
    unfold reviewAnswer
    dsimp only
    rw [inside.1, if_neg Bool.false_ne_true, if_neg (Nat.not_lt.2 inside.2)]
  · simp only [if_neg inside]
    unfold reviewAnswer
    dsimp only
    cases summaryOnly with
    | true => exact ⟨_, if_pos rfl, shortened _ _⟩
    | false =>
      have past : cap < extent document.write := Nat.lt_of_not_le fun fits => inside ⟨rfl, fits⟩
      rw [if_neg Bool.false_ne_true, if_pos past]
      exact ⟨_, rfl, shortened _ _⟩

end Review

/-- A ranking over its cap is answered with as many of its first files as fit, and says so; a
review limited to paths holds exactly their files with the files' own counts, or is refused. -/
theorem answers_honest (release : Release)
    (named : extent toolName + extent release.version ≤ 64) :
    (∀ arguments cap document, rankSummaryOverhead ≤ cap →
      diffRank release (.object arguments) = .ok document →
      cap < extent document.write → extent document.write ≤ usizeMax →
      ∃ summary, rankToolWith release arguments cap = structured summary ∧
        Honest document cap summary) ∧
    (∀ arguments cap paths summaryOnly files inputSeal,
      lookup arguments "paths".toList = some (Daemon.strings paths) →
      detailOf (lookup arguments "detail".toList) = some summaryOnly →
      sealed release (.object (without "paths" (without "detail" arguments))) =
        .ok (files, inputSeal) →
      (∃ path ∈ paths, (¬∃ file ∈ files, file.path = path) ∧
        reviewToolWith release arguments cap =
          some (toolError ("no file in the patch is named ".toList ++ path))) ∨
      ∃ document answer, Limited files (reviewDocument files inputSeal) paths document ∧
        reviewToolWith release arguments cap = some (structured answer) ∧
        if summaryOnly = false ∧ extent document.write ≤ cap then answer = document
        else Summarized document answer) := by
  constructor
  · intro arguments cap document room ranked past sized
    have whole := ranked
    obtain ⟨reviewed, read, rfl⟩ : ∃ reviewed, sealed release (.object arguments) = .ok reviewed ∧
        rankDocument release.scan reviewed.1 reviewed.2 = document := by
      unfold diffRank at ranked
      cases read : sealed release (.object arguments) with
      | error error => rw [read] at ranked; cases ranked
      | ok reviewed => rw [read] at ranked; cases ranked; exact ⟨reviewed, rfl, rfl⟩
    obtain ⟨input, same⟩ := sealed_ok release _ reviewed read
    refine ⟨_, ?_, rank_honest release reviewed.1 input cap named room _ (by rw [same]) past sized⟩
    unfold rankToolWith
    rw [whole]
    dsimp only [daemonValue, Except.mapError]
    rw [if_neg (Nat.not_le.2 past)]
  · intro arguments cap paths summaryOnly files inputSeal asked detail read
    have answered : daemonValue (diffCompute release
        (.object (without "paths" (without "detail" arguments)))) =
        .ok (reviewDocument files inputSeal) := by
      rw [diffCompute, read]
      rfl
    unfold reviewToolWith
    rw [detail, asked, pathsOf_strings]
    dsimp only
    rw [answered]
    dsimp only
    by_cases known : ∀ path ∈ paths, ∃ file ∈ files, file.path = path
    · right
      obtain ⟨document, run, narrowed⟩ := limited_known files inputSeal paths known
      obtain ⟨answer, shown, holds⟩ :=
        reviewAnswer_limited files inputSeal paths document narrowed summaryOnly cap
      refine ⟨document, answer, narrowed, ?_, holds⟩
      rw [run, Option.map_some, ← shown]
    · left
      obtain ⟨path, listed, absent, run⟩ := limited_missing files inputSeal paths known
      refine ⟨path, listed, absent, ?_⟩
      rw [run]
      rfl

def sampleRelease : Release where
  version := "0.9.0".toList
  plainVersion := List.all_eq_true.1 (by decide)
  scan := quietScan
  describe := fun _ => []

def sampleArguments : List (Str × Value) :=
  [entry "patch" (.string "--- a/x\n+++ b/x\n@@ -1 +1 @@\n-a\n+b\n".toList)]

/-- The paths of eight files whose modes change. -/
def modePaths : List Str := "abcdefgh".toList.map (List.replicate 20)

def modeText (path : Str) : Str :=
  "diff --git a/".toList ++ path ++ " b/".toList ++ path ++
    "\nold mode 100644\nnew mode 100755\n".toList

def modeFile (path : Str) : ReviewFile where
  path := path
  status := .modeChanged
  patchTwin :=
    { binaryBody := []
      hunks := []
      metadata := ["old mode 100644".toList, "new mode 100755".toList]
      lossyLines := 0 }
  semanticTwin := none
  planner := { strategy := .line, fallback := none, notes := [] }

def modeArguments : List (Str × Value) := [entry "patch" (.string (modePaths.flatMap modeText))]

def modeDocument : Value :=
  rankDocument sampleRelease.scan (modePaths.map modeFile)
    (.of (Utf8.encode (modePaths.flatMap modeText)) sampleRelease.version)

theorem sealed_patch (release : Release) (text : Str) (files : List ReviewFile)
    (read : parseDecoded (decodePatch (Utf8.encode text)) {} = .ok files) :
    sealed release (.object [entry "patch" (.string text)]) =
      .ok (files, .of (Utf8.encode text) release.version) := by
  have review : sealReview (Utf8.encode text) { files := false, hunks := false } release.version =
      .ok (files, .of (Utf8.encode text) release.version) := by
    rw [sealReview, read]
    rfl
  have patch : strParam (.object [entry "patch" (.string text)]) "patch" = .ok text := rfl
  have filesUnasked : boolParam (.object [entry "patch" (.string text)]) "require_files" =
      .ok false := rfl
  have hunksUnasked : boolParam (.object [entry "patch" (.string text)]) "require_hunks" =
      .ok false := rfl
  rw [sealed, patch, filesUnasked, hunksUnasked]
  dsimp only [bind, Except.bind]
  rw [review]

theorem modeDocument_ranked : diffRank sampleRelease (.object modeArguments) = .ok modeDocument := by
  have read : parseDecoded (decodePatch (Utf8.encode (modePaths.flatMap modeText))) {} =
      .ok (modePaths.map modeFile) := by
    decide +kernel
  rw [diffRank, modeArguments, sealed_patch _ _ _ read]
  rfl

theorem modeDocument_extent :
    800 < extent modeDocument.write ∧ extent modeDocument.write ≤ usizeMax := by
  have sorted : sortRanked ((modePaths.map modeFile).map (RankedFile.scored sampleRelease.scan)) =
      (modePaths.map modeFile).map (RankedFile.scored sampleRelease.scan) :=
    List.mergeSort_of_pairwise (by decide +kernel)
  rw [modeDocument, rankDocument, rankEntries, rank, sorted, InputSeal.of, sha256Hex_eq]
  decide +kernel

/-- A ranking over its cap is summarized, and a path that the sample does not name is refused. -/
theorem answers_honest_refused :
    (∃ summary, rankToolWith sampleRelease modeArguments 800 = structured summary ∧
      Honest modeDocument 800 summary) ∧
    reviewToolWith sampleRelease
      (sampleArguments ++ [entry "paths" (Daemon.strings ["y".toList])]) reviewFullCap =
      some (toolError ("no file in the patch is named ".toList ++ "y".toList)) := by
  have short : extent toolName + extent sampleRelease.version ≤ 64 := by decide +kernel
  refine ⟨(answers_honest sampleRelease short).1 modeArguments 800 modeDocument (by decide)
    modeDocument_ranked modeDocument_extent.1 modeDocument_extent.2, ?_⟩
  have paths : ((sealed sampleRelease (.object sampleArguments)).toOption.map fun reviewed =>
      reviewed.1.map (·.path)) = some ["x".toList] := by decide +kernel
  cases read : sealed sampleRelease (.object sampleArguments) with
  | error error => rw [read] at paths; cases paths
  | ok reviewed =>
    rw [read] at paths
    have own : reviewed.1.map (·.path) = ["x".toList] := Option.some.inj paths
    have absent : ∀ file ∈ reviewed.1, file.path ≠ "y".toList := by
      intro file listed same
      have among := List.mem_map_of_mem (f := (·.path)) listed
      rw [own, same, List.mem_singleton] at among
      exact absurd among (by decide)
    have answer := (answers_honest sampleRelease short).2
      (sampleArguments ++ [entry "paths" (Daemon.strings ["y".toList])]) reviewFullCap
      ["y".toList] false reviewed.1 reviewed.2 (by rfl) (by rfl) read
    rcases answer with ⟨path, asked, -, refused⟩ | ⟨document, answer, holds, -, -⟩
    · rw [refused, List.mem_singleton.1 asked]
    · obtain ⟨file, listed, same⟩ := holds.held _ (List.mem_singleton_self _)
      exact absurd same (absent file (List.mem_filter.1 listed).1)

end DeepDiffForge.Mcp
