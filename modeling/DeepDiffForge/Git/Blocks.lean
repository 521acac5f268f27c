import DeepDiffForge.Git.Ranges
import DeepDiffForge.Patch.Capture
import DeepDiffForge.Patch.Concat

/-! What the parser makes of a captured patch, block by block: when it gives as many files as the
patch has blocks, each file is the one its block gives alone. -/

namespace DeepDiffForge.Git
open Text Tiling Markers Fallible DeepDiffForge.Core DeepDiffForge.Patch

def marked (line : InputLine) : Bool := startsWith "diff --git ".toList line.text

/-- Lines of which the first begins a block and no other does. -/
def Headed (lines : List InputLine) : Prop :=
  ∃ head tail, lines = head :: tail ∧ marked head = true ∧ ∀ line ∈ tail, marked line = false

/-- Only a Git section's first line begins a block. -/
theorem built_heads (p0 : Bool) (lines : List InputLine) (part : Section)
    (built : part.Built p0 lines) :
    ∃ head tail, lines = head :: tail ∧ marked head = part.git ∧
      ∀ line ∈ tail, marked line = false := by
  induction built with
  | @opens line part opens =>
    refine ⟨line, [], rfl, ?_, by simp⟩
    rcases opens_begins p0 line part opens with ⟨git, begins⟩ | ⟨traditional, begins⟩
    · rw [git]
      exact begins
    · rw [traditional]
      have apart := startsWith_apart "--- ".toList "diff --git ".toList (trimmed line.text) begins
        (by decide)
      rwa [trimmed, startsWith_trimEnd '\r' _ _ (by decide)] at apart
  | @grows lines line part grown built grows ih =>
    obtain ⟨head, tail, rfl, begins, plain⟩ := ih
    refine ⟨head, tail ++ [line], rfl, ?_, ?_⟩
    · rw [(grows_git _ _ _ grows).1]
      exact begins
    · intro other listed
      rcases List.mem_append.1 listed with earlier | last
      · exact plain other earlier
      · rw [List.mem_singleton.1 last]
        have undiff := grows_undiff part grown line grows
        by_contra begun
        exact Bool.noConfusion (undiff.symm.trans
          (opensDiff_of_git _ (by simpa [marked] using begun)))

theorem countP_headed (head : InputLine) (tail : List InputLine)
    (plain : ∀ line ∈ tail, marked line = false) :
    (head :: tail).countP marked = if marked head then 1 else 0 := by
  have zero : tail.countP marked = 0 := List.countP_eq_zero.2 fun line listed => by
    rw [plain line listed]
    exact Bool.false_ne_true
  rw [List.countP_cons, zero, Nat.zero_add]

theorem chained_built (p0 : Bool) (last : Option Section) (parts : List Section)
    (chained : Chained p0 last parts) : ∀ part ∈ parts, ∃ guess, part.Built guess part.lines := by
  induction parts generalizing p0 last with
  | nil => simp
  | cons part parts ih =>
    obtain ⟨built, -, rest⟩ := chained
    rw [List.forall_mem_cons]
    exact ⟨⟨p0, built⟩, ih _ _ rest⟩

theorem chained_git (p0 : Bool) (last : Option Section) (parts : List Section)
    (chained : Chained p0 last parts) (git : ∀ part ∈ parts, part.git = true) :
    ∀ part ∈ parts, part.Built p0 part.lines := by
  induction parts generalizing last with
  | nil => simp
  | cons part parts ih =>
    obtain ⟨built, -, rest⟩ := chained
    rw [List.forall_mem_cons] at git ⊢
    have unguessed : part.guesses = false := by
      obtain ⟨opening, opened⟩ := Option.isSome_iff_exists.1 git.1
      simp [Section.guesses, opened]
    rw [unguessed, Bool.or_false] at rest
    exact ⟨built, ih _ rest git.2⟩

theorem countP_marked (doc : Document) (shaped : doc.Shaped)
    (built : ∀ part ∈ doc.sections, ∃ guess, part.Built guess part.lines) :
    doc.lines.countP marked = doc.sections.countP (·.git) := by
  have preamble : doc.preamble.countP marked = 0 := List.countP_eq_zero.2 fun line listed begun => by
    have undiff := (framing_plain _ (shaped.preamble line listed)).2.1
    exact Bool.noConfusion (undiff.symm.trans (opensDiff_of_git _ begun))
  have sections (parts : List Section)
      (built : ∀ part ∈ parts, ∃ guess, part.Built guess part.lines) :
      (parts.flatMap Section.lines).countP marked = parts.countP (·.git) := by
    induction parts with
    | nil => rfl
    | cons part parts ih =>
      rw [List.forall_mem_cons] at built
      obtain ⟨⟨guess, own⟩, rest⟩ := built
      obtain ⟨head, tail, lines, begins, plain⟩ := built_heads guess _ part own
      rw [List.flatMap_cons, List.countP_append, ih rest, List.countP_cons, lines,
        countP_headed head tail plain, begins, Nat.add_comm]
  rw [Document.lines, List.countP_append, preamble, Nat.zero_add, sections _ built]

theorem startsWith_takeWhile (pre text : Str) (kept : Char → Bool)
    (all : ∀ c ∈ pre, kept c = true) :
    startsWith pre (text.takeWhile kept) = startsWith pre text := by
  induction pre generalizing text with
  | nil => rfl
  | cons c pre ih =>
    rw [List.forall_mem_cons] at all
    cases text with
    | nil => rfl
    | cons d text =>
      by_cases same : c = d
      · subst same
        rw [List.takeWhile_cons_of_pos all.1, startsWith, startsWith, stripPrefix, stripPrefix,
          if_pos rfl, if_pos rfl]
        exact ih text all.2
      · have right : startsWith (c :: pre) (d :: text) = false := by
          rw [startsWith, stripPrefix, if_neg same]
          rfl
        rw [right, List.takeWhile_cons]
        split
        · rw [startsWith, stripPrefix, if_neg same]
          rfl
        · rfl

theorem marked_piece (piece : List UInt8) :
    marked (pieceLine piece) = startsWith marker piece := by
  have each : ("diff --git ".toList.all fun c => c.toNat < 0x80 && c != '\x00' && c != '\n') =
      true := by decide
  simp only [List.all_eq_true, Bool.and_eq_true, decide_eq_true_eq, bne_iff_ne] at each
  have bytes : ("diff --git ".toList.map fun c => UInt8.ofNat c.toNat) = marker := by decide
  rw [← bytes, ← Utf8.startsWith_lossy _ piece fun c listed => (each c listed).1]
  exact startsWith_takeWhile _ _ _ fun c listed => decide_eq_true (each c listed).2

theorem length_splitBlocks (patch : List UInt8) :
    (byteLines patch).countP marked = (splitBlocks patch).length := by
  have same : marked ∘ pieceLine = startsWith marker := funext marked_piece
  rw [byteLines, List.countP_map, same, splitBlocks, length_blocks,
    length_starts 0x0A marker lf_marker]

theorem block_headed (patch : List UInt8) (n : Nat)
    (within : n < (splitBlocks patch).length) :
    Headed (byteLines (slice patch (splitBlocks patch)[n])) := by
  have inside := within
  rw [splitBlocks, length_blocks] at inside
  have block : (splitBlocks patch)[n] = (cut 0x0A marker patch n, cut 0x0A marker patch (n + 1)) :=
    getElem_blocks _ _ _ _ within
  have once := length_starts_slice 0x0A marker patch lf_marker n (n + 1) (Nat.lt_succ_self n) inside
  rw [← block, Nat.add_sub_cancel_left] at once
  have count := (length_splitBlocks (slice patch (splitBlocks patch)[n])).trans
    ((length_blocks _ _ _).trans once)
  have begins := startsWith_block 0x0A marker patch lf_marker n inside
  rw [← block] at begins
  have filled : slice patch (splitBlocks patch)[n] ≠ [] := by
    intro absent
    rw [absent] at begins
    revert begins
    decide
  obtain ⟨piece, others, pieces, first⟩ := pieces_marked 0x0A marker lf_marker _ filled begins
  rw [byteLines, pieces, List.map_cons] at count ⊢
  refine ⟨pieceLine piece, others.map pieceLine, rfl, (marked_piece piece).trans first, ?_⟩
  rw [List.countP_cons, marked_piece, first, if_pos rfl, Nat.add_eq_right,
    List.countP_eq_zero] at count
  intro line listed
  exact eq_false_of_ne_true (count line listed)

theorem marker_first (patch : List UInt8) (filled : patch ≠ [])
    (begins : cut 0x0A marker patch 0 = 0) : startsWith marker patch = true := by
  have nonempty : 0 < (starts 0x0A marker patch).length := by
    by_contra absent
    have last := cut_last 0x0A marker patch
    rw [Nat.eq_zero_of_not_pos absent, begins] at last
    exact filled (List.length_eq_zero_iff.1 last.symm)
  have found := ((mem_starts 0x0A marker patch _).1 (List.getElem_mem nonempty)).2.1
  rw [← cut_eq 0x0A marker patch 0 nonempty, begins, List.drop_zero] at found
  exact found

/-- A patch whose first block begins it has nothing before its sections. -/
theorem unpreambled (patch : List UInt8) (doc : Document) (shaped : doc.Shaped)
    (lines : doc.lines = byteLines patch) (begins : cut 0x0A marker patch 0 = 0) :
    doc.preamble = [] := by
  by_cases empty : patch = []
  · rw [empty, Document.lines] at lines
    exact (List.append_eq_nil_iff.1 lines).1
  · have found := marker_first patch empty begins
    obtain ⟨piece, others, pieces, first⟩ := pieces_marked 0x0A marker lf_marker patch empty found
    refine (git_first doc shaped (pieceLine piece) ?_ ((marked_piece piece).trans first)).1
    rw [lines, byteLines, pieces]
    rfl

theorem capture_section (bytes : List UInt8) (part : Section) (reviewed : ReviewFile)
    (built : part.Built false part.lines) (ok : part.review = some reviewed)
    (lines : part.lines = byteLines bytes) (bytesFit : bytes.length ≤ defaultByteBudget)
    (linesFit : (byteLines bytes).length ≤ defaultLineBudget) :
    ∃ alone, captureBytes bytes = .ok alone ∧ alone.files = [reviewed] := by
  have grown := grown_of_chained [] [part] (by simp) ⟨built, by simp [Section.Follows], trivial⟩
  rw [List.nil_append, List.flatMap_singleton, lines] at grown
  refine (captureBytes_files bytes [reviewed]).2 ⟨bytesFit, linesFit, _, grown, ?_⟩
  have empty : Document.sections { preamble := [] } = [] := rfl
  rw [Document.files, sections_extend, empty, List.nil_append]
  simp [reviewFrom, ok, shiftFile_zero]

theorem capture_blocks (patch : List UInt8) (captured : CapturedPatch)
    (taken : captureBytes patch = .ok captured) (begins : cut 0x0A marker patch 0 = 0)
    (count : captured.files.length = (splitBlocks patch).length) :
    List.Forall₂ (fun file block => ∃ alone base reviewed,
      captureBytes (slice patch block) = .ok alone ∧ alone.files = [reviewed] ∧
        file = shiftFile base reviewed) captured.files (splitBlocks patch) := by
  obtain ⟨bytesFit, linesFit, doc, grown, files⟩ :=
    (captureBytes_files patch captured.files).1 ⟨captured, taken, rfl⟩
  obtain ⟨shaped, lines⟩ := shaped_grown _ _ grown
  obtain ⟨-, chained⟩ := chained_of_grown _ _ grown
  have pairs := reviewFrom_forall₂ 0 _ _ files
  have git : ∀ part ∈ doc.sections, part.git = true := by
    rw [← List.countP_eq_length, ← countP_marked doc shaped (chained_built _ _ _ chained), lines,
      length_splitBlocks, ← count]
    exact pairs.length_eq.symm
  have built := chained_git _ _ _ chained git
  have bare := unpreambled patch doc shaped lines begins
  have groups : doc.sections.map Section.lines =
      (splitBlocks patch).map fun block => byteLines (slice patch block) := by
    apply groups_unique marked
    · intro group listed
      obtain ⟨part, member, rfl⟩ := List.mem_map.1 listed
      obtain ⟨head, tail, same, first, plain⟩ := built_heads _ _ _ (built part member)
      exact ⟨head, tail, same, first.trans (git part member), plain⟩
    · intro group listed
      obtain ⟨block, member, rfl⟩ := List.mem_map.1 listed
      obtain ⟨n, within, rfl⟩ := List.getElem_of_mem member
      exact block_headed patch n within
    · have whole := congrArg (List.map pieceLine) (flatMap_pieces 0x0A marker patch begins)
      rw [List.map_flatMap] at whole
      rw [← List.flatMap_def, ← List.flatMap_def]
      rw [Document.lines, bare, List.nil_append] at lines
      exact lines.trans whole.symm
  have lengths : doc.sections.length = (splitBlocks patch).length := by
    have same := congrArg List.length groups
    rwa [List.length_map, List.length_map] at same
  rw [List.forall₂_iff_get] at pairs ⊢
  refine ⟨count, fun n first second => ?_⟩
  obtain ⟨base, reviewed, ok, file⟩ := pairs.2 n (by omega) first
  have member : doc.sections.get ⟨n, by omega⟩ ∈ doc.sections := List.get_mem _ _
  have own : (doc.sections.get ⟨n, by omega⟩).lines =
      byteLines (slice patch ((splitBlocks patch).get ⟨n, second⟩)) := by
    have place := congrArg (·[n]?) groups
    simpa [List.getElem?_eq_getElem second, List.getElem?_eq_getElem (lengths ▸ second)] using place
  have bytesFit' : (slice patch ((splitBlocks patch).get ⟨n, second⟩)).length ≤
      defaultByteBudget := by
    rw [slice, List.length_take, List.length_drop]
    omega
  have linesFit' : (byteLines (slice patch ((splitBlocks patch).get ⟨n, second⟩))).length ≤
      defaultLineBudget := by
    have part := (List.sublist_flatten_of_mem
      (List.mem_map_of_mem (f := Section.lines) member)).length_le
    rw [← List.flatMap_def] at part
    rw [← own]
    rw [← lines, Document.lines, List.length_append] at linesFit
    omega
  obtain ⟨alone, taken', files'⟩ :=
    capture_section _ _ reviewed (built _ member) ok own bytesFit' linesFit'
  exact ⟨alone, base, reviewed, taken', files', file⟩

end DeepDiffForge.Git
