import DeepDiffForge.Projection.Inline
import DeepDiffForge.Projection.SideBySide

/-! The three projections pair a hunk's lines alike: the side-by-side layout and the terminal view
gather change blocks, the inline layout counts through them. -/

namespace DeepDiffForge.Projection
open Text DeepDiffForge.Core

section Gather
variable {α β : Type} (kind : α → PatchLineKind)

def zipRuns (removed added : List α) : List (Option α × Option α) :=
  (List.range (max removed.length added.length)).map fun k => (removed[k]?, added[k]?)

theorem changed_left (line : α) (rest : List α) (changed : kind line ≠ .context) :
    (((line :: rest).dropWhile (kind · = .removed)).dropWhile (kind · = .added)).length <
      (line :: rest).length := by
  have less (items : List α) := (List.dropWhile_sublist (kind · = .added) (l := items)).length_le
  cases own : kind line with
  | context => exact absurd own changed
  | removed =>
    rw [List.dropWhile_cons_of_pos (by simpa using own)]
    exact Nat.lt_succ_of_le ((less _).trans (List.dropWhile_sublist _).length_le)
  | added =>
    rw [List.dropWhile_cons_of_neg (by simp [own]), List.dropWhile_cons_of_pos (by simpa using own)]
    exact Nat.lt_succ_of_le (less rest)

def pairRows : List α → List (Option α × Option α)
  | [] => []
  | line :: rest =>
      if kind line = .context then (some line, some line) :: pairRows rest
      else
        let removed := (line :: rest).takeWhile (kind · = .removed)
        let later := (line :: rest).dropWhile (kind · = .removed)
        zipRuns removed (later.takeWhile (kind · = .added)) ++
          pairRows (later.dropWhile (kind · = .added))
termination_by lines => lines.length
decreasing_by
  · exact Nat.lt_succ_self _
  · rename_i changed
    exact changed_left kind line rest changed

/-- Some lines as context lines and change blocks, each block as long as it can be. -/
inductive Parts : List α → Prop
  | nil : Parts []
  | context (line : α) (rest : List α) (unchanged : kind line = .context) (parts : Parts rest) :
      Parts (line :: rest)
  | change (removed added rest : List α) (gone : ∀ line ∈ removed, kind line = .removed)
      (new : ∀ line ∈ added, kind line = .added) (filled : removed ++ added ≠ [])
      (stop : ∀ line ∈ rest.head?, kind line ≠ .added ∧ (added = [] → kind line ≠ .removed))
      (parts : Parts rest) : Parts (removed ++ added ++ rest)

theorem parts_all (lines : List α) : Parts kind lines := by
  induction size : lines.length using Nat.strongRecOn generalizing lines with
  | _ size ih =>
    cases lines with
    | nil => exact .nil
    | cons line rest =>
      by_cases unchanged : kind line = .context
      · exact .context line rest unchanged
          (ih _ (by rw [← size]; exact Nat.lt_succ_self _) rest rfl)
      · have less := changed_left kind line rest unchanged
        have whole : (line :: rest).takeWhile (kind · = .removed) ++
            ((line :: rest).dropWhile (kind · = .removed)).takeWhile (kind · = .added) ++
              ((line :: rest).dropWhile (kind · = .removed)).dropWhile (kind · = .added) =
                line :: rest := by
          rw [List.append_assoc, List.takeWhile_append_dropWhile, List.takeWhile_append_dropWhile]
        rw [← whole]
        refine .change _ _ _ ?_ ?_ ?_ ?_ (ih _ (by rw [← size]; exact less) _ rfl)
        · exact fun _ listed => by simpa using List.mem_takeWhile_imp listed
        · exact fun _ listed => by simpa using List.mem_takeWhile_imp listed
        · intro absent
          rw [absent, List.nil_append] at whole
          rw [whole] at less
          exact absurd less (Nat.lt_irrefl _)
        · intro next head
          refine ⟨of_decide_eq_false (dropWhile_stops (kind · = .added) _ next head), ?_⟩
          intro absent
          have same := List.takeWhile_append_dropWhile (p := (kind · = .added))
            (l := (line :: rest).dropWhile (kind · = .removed))
          rw [absent, List.nil_append] at same
          rw [same] at head
          exact of_decide_eq_false (dropWhile_stops (kind · = .removed) _ next head)

theorem pairRows_context (line : α) (rest : List α) (unchanged : kind line = .context) :
    pairRows kind (line :: rest) = (some line, some line) :: pairRows kind rest := by
  rw [pairRows, if_pos unchanged]

theorem pairRows_change (removed added rest : List α)
    (gone : ∀ line ∈ removed, kind line = .removed) (new : ∀ line ∈ added, kind line = .added)
    (filled : removed ++ added ≠ [])
    (stop : ∀ line ∈ rest.head?, kind line ≠ .added ∧ (added = [] → kind line ≠ .removed)) :
    pairRows kind (removed ++ added ++ rest) = zipRuns removed added ++ pairRows kind rest := by
  have between : ∀ line ∈ (added ++ rest).head?, decide (kind line = .removed) = false := by
    intro line head
    cases added with
    | nil => exact decide_eq_false ((stop line head).2 rfl)
    | cons first added =>
      obtain rfl := Option.some.inj head
      rw [new first List.mem_cons_self]
      rfl
  obtain ⟨front, later⟩ := takeWhile_run (kind · = .removed) removed (added ++ rest)
    (fun line listed => decide_eq_true (gone line listed)) between
  obtain ⟨middle, behind⟩ := takeWhile_run (kind · = .added) added rest
    (fun line listed => decide_eq_true (new line listed))
    fun line head => decide_eq_false (stop line head).1
  rw [List.append_assoc]
  cases whole : removed ++ (added ++ rest) with
  | nil => simp_all
  | cons line tail =>
    have changed : kind line ≠ .context := by
      have listed : line ∈ removed ++ added := by
        obtain ⟨first, behind, front⟩ := List.exists_cons_of_ne_nil filled
        rw [← List.append_assoc, front] at whole
        rw [front, (List.cons.inj whole).1]
        exact List.mem_cons_self
      rcases List.mem_append.1 listed with old | fresh
      · rw [gone line old]
        decide
      · rw [new line fresh]
        decide
    rw [pairRows, if_neg changed, ← whole, front, later]
    dsimp only
    rw [middle, behind]

theorem range_get (items : List α) (count : Nat) (enough : items.length ≤ count) :
    (List.range count).filterMap (items[·]?) = items := by
  have taken (count : Nat) : (List.range count).filterMap (items[·]?) = items.take count := by
    induction count with
    | zero => rfl
    | succ count ih =>
      rw [List.range_succ, List.filterMap_append, ih, List.take_add_one]
      cases held : items[count]? with
      | none => rw [List.filterMap_cons_none held]; rfl
      | some item => rw [List.filterMap_cons_some held]; rfl
  rw [taken, List.take_of_length_le enough]

theorem zipRuns_left (removed added : List α) :
    (zipRuns removed added).filterMap (·.1) = removed := by
  rw [zipRuns, List.filterMap_map]
  exact range_get removed _ (Nat.le_max_left _ _)

theorem zipRuns_right (removed added : List α) :
    (zipRuns removed added).filterMap (·.2) = added := by
  rw [zipRuns, List.filterMap_map]
  exact range_get added _ (Nat.le_max_right _ _)

/-- The left cells are the lines of the old side. -/
theorem pairRows_left (lines : List α) :
    (pairRows kind lines).filterMap (·.1) = lines.filter fun line => kind line ≠ .added := by
  induction parts_all kind lines with
  | nil => rw [pairRows]; rfl
  | context line rest unchanged parts ih =>
    rw [pairRows_context kind line rest unchanged, List.filterMap_cons]
    dsimp only
    rw [ih, List.filter_cons_of_pos (by rw [unchanged]; rfl)]
  | change removed added rest gone new filled stop parts ih =>
    have old : removed.filter (fun line => kind line ≠ .added) = removed :=
      List.filter_eq_self.2 fun line listed => by rw [gone line listed]; rfl
    have empty : added.filter (fun line => kind line ≠ .added) = [] :=
      List.filter_eq_nil_iff.2 fun line listed => by rw [new line listed]; decide
    rw [pairRows_change kind removed added rest gone new filled stop, List.filterMap_append, ih,
      zipRuns_left, List.filter_append, List.filter_append, old, empty, List.append_nil]

/-- The right cells are the lines of the new side. -/
theorem pairRows_right (lines : List α) :
    (pairRows kind lines).filterMap (·.2) = lines.filter fun line => kind line ≠ .removed := by
  induction parts_all kind lines with
  | nil => rw [pairRows]; rfl
  | context line rest unchanged parts ih =>
    rw [pairRows_context kind line rest unchanged, List.filterMap_cons]
    dsimp only
    rw [ih, List.filter_cons_of_pos (by rw [unchanged]; rfl)]
  | change removed added rest gone new filled stop parts ih =>
    have empty : removed.filter (fun line => kind line ≠ .removed) = [] :=
      List.filter_eq_nil_iff.2 fun line listed => by rw [gone line listed]; decide
    have fresh : added.filter (fun line => kind line ≠ .removed) = added :=
      List.filter_eq_self.2 fun line listed => by rw [new line listed]; rfl
    rw [pairRows_change kind removed added rest gone new filled stop, List.filterMap_append, ih,
      zipRuns_right, List.filter_append, List.filter_append, empty, fresh, List.nil_append]

theorem pairRows_kinds (lines : List α) :
    ∀ row ∈ pairRows kind lines, (∃ line, kind line = .context ∧ row = (some line, some line)) ∨
      (∀ line ∈ row.1, kind line = .removed) ∧ ∀ line ∈ row.2, kind line = .added := by
  induction parts_all kind lines with
  | nil =>
    intro row listed
    rw [pairRows] at listed
    cases listed
  | context line rest unchanged parts ih =>
    intro row listed
    rw [pairRows_context kind line rest unchanged] at listed
    rcases List.mem_cons.1 listed with rfl | later
    · exact .inl ⟨line, unchanged, rfl⟩
    · exact ih row later
  | change removed added rest gone new filled stop parts ih =>
    intro row listed
    rw [pairRows_change kind removed added rest gone new filled stop] at listed
    rcases List.mem_append.1 listed with here | later
    · obtain ⟨k, -, rfl⟩ := List.mem_map.1 here
      exact .inr ⟨fun line held => gone line (List.mem_of_getElem? held),
        fun line held => new line (List.mem_of_getElem? held)⟩
    · exact ih row later

end Gather

section Map
variable {α β : Type}

def both (f : α → β) (row : Option α × Option α) : Option β × Option β :=
  (row.1.map f, row.2.map f)

theorem zipRuns_map (f : α → β) (removed added : List α) :
    zipRuns (removed.map f) (added.map f) = (zipRuns removed added).map (both f) := by
  rw [zipRuns, zipRuns, List.map_map, List.length_map, List.length_map]
  refine List.map_congr_left fun k _ => ?_
  rw [List.getElem?_map, List.getElem?_map]
  rfl

theorem pairRows_map (kind : β → PatchLineKind) (f : α → β) (lines : List α) :
    pairRows kind (lines.map f) = (pairRows (fun line => kind (f line)) lines).map (both f) := by
  induction parts_all (fun line => kind (f line)) lines with
  | nil => rw [List.map_nil, pairRows, pairRows]; rfl
  | context line rest unchanged parts ih =>
    rw [List.map_cons, pairRows_context kind (f line) _ unchanged, ih,
      pairRows_context (fun line => kind (f line)) line rest unchanged]
    rfl
  | change removed added rest gone new filled stop parts ih =>
    rw [pairRows_change _ removed added rest gone new filled stop, List.map_append,
      List.map_append, pairRows_change kind (removed.map f) (added.map f) (rest.map f), ih,
      zipRuns_map, List.map_append]
    · exact List.forall_mem_map.2 gone
    · exact List.forall_mem_map.2 new
    · rw [← List.map_append]
      exact fun absent => filled (List.map_eq_nil_iff.1 absent)
    · intro line head
      rw [List.head?_map] at head
      obtain ⟨source, own, rfl⟩ := Option.map_eq_some_iff.1 head
      exact ⟨(stop source own).1, fun absent => (stop source own).2 (List.map_eq_nil_iff.1 absent)⟩

end Map

def pairHunk (lines : List PatchLine) : List (Option PatchLine × Option PatchLine) :=
  pairRows (·.kind) lines

abbrev Placed := PatchLine × Nat

def placedKind (placed : Placed) : PatchLineKind := placed.1.kind

def placedRows (lines : List PatchLine) : List (Option Placed × Option Placed) :=
  pairRows placedKind lines.zipIdx

theorem placedRows_lines (lines : List PatchLine) :
    (placedRows lines).map (both (·.1)) = pairHunk lines := by
  have unplaced : lines.zipIdx.map (·.1) = lines := List.zipIdx_map_fst 0 lines
  rw [pairHunk, ← unplaced, pairRows_map, unplaced]
  rfl

def leftCell (line : PatchLine) : SideCell :=
  if line.kind = .context then { cell line ' ' with line := line.oldLine.getD 0 } else cell line '-'

def rightCell (line : PatchLine) : SideCell :=
  if line.kind = .context then cell line ' ' else cell line '+'

def sideRow (row : Option PatchLine × Option PatchLine) : SideRow :=
  ⟨row.1.map leftCell, row.2.map rightCell⟩

theorem changeRows_zipRuns (removed added : List PatchLine)
    (gone : ∀ line ∈ removed, line.kind = .removed) (new : ∀ line ∈ added, line.kind = .added) :
    changeRows removed added = (zipRuns removed added).map sideRow := by
  rw [changeRows, zipRuns, List.map_map]
  refine List.map_congr_left fun k _ => ?_
  have left : removed[k]?.map (cell · '-') = removed[k]?.map leftCell := by
    refine Option.map_congr fun line held => ?_
    rw [leftCell, if_neg (by rw [gone line (List.mem_of_getElem? held)]; decide)]
  have right : added[k]?.map (cell · '+') = added[k]?.map rightCell := by
    refine Option.map_congr fun line held => ?_
    rw [rightCell, if_neg (by rw [new line (List.mem_of_getElem? held)]; decide)]
  rw [left, right]
  rfl

theorem contextRow_sideRow (line : PatchLine) (unchanged : line.kind = .context) :
    contextRow line = sideRow (some line, some line) := by
  rw [contextRow, sideRow, Option.map_some, Option.map_some, leftCell, rightCell, if_pos unchanged,
    if_pos unchanged]

/-- The side-by-side layout has the terminal view's rows. -/
theorem hunkSideRows_pairHunk (lines : List PatchLine) :
    hunkSideRows lines = (pairHunk lines).map sideRow := by
  induction size : lines.length using Nat.strongRecOn generalizing lines with
  | _ size ih =>
    cases lines with
    | nil =>
      rw [hunkSideRows, pairHunk, pairRows]
      rfl
    | cons line rest =>
      rw [hunkSideRows, pairHunk, pairRows]
      by_cases unchanged : line.kind = .context
      · rw [if_pos unchanged, if_pos unchanged, contextRow_sideRow line unchanged,
          ih _ (by rw [← size]; exact Nat.lt_succ_self _) rest rfl]
        rfl
      · have less := changed_left PatchLine.kind line rest unchanged
        rw [if_neg unchanged, if_neg unchanged, List.map_append]
        dsimp only
        rw [changeRows_zipRuns]
        · rw [ih _ (by rw [← size]; exact less) _ rfl]
          rfl
        · exact fun _ listed => by simpa using List.mem_takeWhile_imp listed
        · exact fun _ listed => by simpa using List.mem_takeWhile_imp listed

theorem filterMap_left (rows : List (Option PatchLine × Option PatchLine)) :
    (rows.map sideRow).filterMap (·.left) = (rows.filterMap (·.1)).map leftCell := by
  rw [List.filterMap_map, List.map_filterMap]
  rfl

theorem filterMap_right (rows : List (Option PatchLine × Option PatchLine)) :
    (rows.map sideRow).filterMap (·.right) = (rows.filterMap (·.2)).map rightCell := by
  rw [List.filterMap_map, List.map_filterMap]
  rfl

theorem sideRows_left (file : ReviewFile) :
    (sideRows file).filterMap (·.left) =
      ((file.patchTwin.hunks.flatMap (·.lines)).filter (·.onOldSide)).map leftCell := by
  rw [sideRows]
  induction file.patchTwin.hunks with
  | nil => rfl
  | cons hunk hunks ih =>
    rw [List.flatMap_cons, List.flatMap_cons, List.filterMap_append, List.filter_append,
      List.map_append, ih, hunkSideRows_pairHunk, filterMap_left, pairHunk, pairRows_left]
    rfl

theorem sideRows_right (file : ReviewFile) :
    (sideRows file).filterMap (·.right) =
      ((file.patchTwin.hunks.flatMap (·.lines)).filter (·.onNewSide)).map rightCell := by
  rw [sideRows]
  induction file.patchTwin.hunks with
  | nil => rfl
  | cons hunk hunks ih =>
    rw [List.flatMap_cons, List.flatMap_cons, List.filterMap_append, List.filter_append,
      List.map_append, ih, hunkSideRows_pairHunk, filterMap_right, pairHunk, pairRows_right]
    rfl

section Counted

/-- Rows that put an added line beside a removed one: the added line's place and the other's. -/
def matched (rows : List (Option Placed × Option Placed)) :
    List (Nat × Nat) :=
  rows.filterMap fun row =>
    match row.1, row.2 with
    | some old, some new => if new.1.kind = .added then some (new.2, old.2) else none
    | _, _ => none

/-- What is paired, with the places from `i` on. -/
def numbered (i : Nat) (paired : List (Option Nat)) : List (Nat × Nat) :=
  (paired.zipIdx i).filterMap fun entry => entry.1.map fun r => (entry.2, r)

theorem numbered_append (i : Nat) (first second : List (Option Nat)) :
    numbered i (first ++ second) = numbered i first ++ numbered (i + first.length) second := by
  rw [numbered, List.zipIdx_append, List.filterMap_append]
  rfl

theorem pairsFrom_next (lines : List PatchLine) (i next next' : Nat) (removed : List Nat)
    (previous : PatchLineKind) (outside : previous ≠ .added) :
    pairsFrom i removed next previous lines = pairsFrom i removed next' previous lines := by
  induction lines generalizing i removed previous with
  | nil => rfl
  | cons line rest ih =>
    rw [pairsFrom, pairsFrom]
    cases line.kind with
    | context => exact congrArg _ (ih _ _ _ (by decide))
    | removed => exact congrArg _ (ih _ _ _ (by decide))
    | added =>
      dsimp only
      rw [if_pos outside, if_pos outside]

/-- Where a block ends, what came before it does not matter. -/
theorem pairsFrom_fresh (lines : List PatchLine) (i next : Nat) (removed : List Nat)
    (previous : PatchLineKind)
    (stop : ∀ line ∈ lines.head?, line.kind ≠ .added ∧
      (previous = .removed → line.kind ≠ .removed)) :
    pairsFrom i removed next previous lines = pairsFrom i [] 0 .context lines := by
  cases lines with
  | nil => rfl
  | cons line rest =>
    have ends := stop line rfl
    rw [pairsFrom, pairsFrom]
    cases own : line.kind with
    | context => exact congrArg _ (pairsFrom_next rest _ _ _ _ _ (by decide))
    | added => exact absurd own ends.1
    | removed =>
      dsimp only
      rw [if_pos fun same => ends.2 same own, if_pos (by decide)]
      exact congrArg _ (pairsFrom_next rest _ _ _ _ _ (by decide))

theorem pairsFrom_removed (removed rest : List PatchLine) (i next : Nat) (held : List Nat)
    (gone : ∀ line ∈ removed, line.kind = .removed) :
    pairsFrom i held next .removed (removed ++ rest) = List.replicate removed.length none ++
      pairsFrom (i + removed.length) (held ++ List.range' i removed.length) next .removed rest := by
  induction removed generalizing i held with
  | nil => simp
  | cons line removed ih =>
    rw [List.cons_append, pairsFrom, gone line List.mem_cons_self]
    dsimp only
    rw [if_neg (by simp), ih _ _ fun other listed => gone other (List.mem_cons_of_mem _ listed),
      List.append_assoc, List.length_cons, List.replicate_succ, List.range'_succ,
      Nat.add_assoc, Nat.add_comm 1]
    rfl

theorem pairsFrom_added (added rest : List PatchLine) (i next : Nat) (held : List Nat)
    (new : ∀ line ∈ added, line.kind = .added) :
    pairsFrom i held next .added (added ++ rest) =
      (List.range' next added.length).map (held[·]?) ++
        pairsFrom (i + added.length) held (next + added.length) .added rest := by
  induction added generalizing i next with
  | nil => simp
  | cons line added ih =>
    rw [List.cons_append, pairsFrom, new line List.mem_cons_self]
    dsimp only
    rw [if_neg (by simp), ih _ _ fun other listed => new other (List.mem_cons_of_mem _ listed),
      List.length_cons, List.range'_succ, List.map_cons, Nat.add_assoc, Nat.add_assoc,
      Nat.add_comm 1]
    rfl

/-- A run of added lines is paired from the block's first removed line on. -/
theorem pairsFrom_run (added rest : List PatchLine) (i next : Nat) (held : List Nat)
    (previous : PatchLineKind) (outside : previous ≠ .added) (filled : added ≠ [])
    (new : ∀ line ∈ added, line.kind = .added) :
    pairsFrom i held next previous (added ++ rest) =
      (List.range' 0 added.length).map (held[·]?) ++
        pairsFrom (i + added.length) held added.length .added rest := by
  obtain ⟨line, later, rfl⟩ := List.exists_cons_of_ne_nil filled
  have low := pairsFrom_added (line :: later) rest i 0 held new
  rw [Nat.zero_add] at low
  rw [← low, List.cons_append, pairsFrom, pairsFrom, new line List.mem_cons_self]
  dsimp only
  rw [if_pos outside, if_neg (by simp)]

/-- A block's removed lines are counted from its first one. -/
theorem pairsFrom_block (removed rest : List PatchLine) (i : Nat)
    (gone : ∀ line ∈ removed, line.kind = .removed) :
    ∃ previous, previous ≠ .added ∧ pairsFrom i [] 0 .context (removed ++ rest) =
      List.replicate removed.length none ++
        pairsFrom (i + removed.length) (List.range' i removed.length) 0 previous rest := by
  cases removed with
  | nil => exact ⟨.context, by decide, rfl⟩
  | cons line removed =>
    refine ⟨.removed, by decide, ?_⟩
    have run := pairsFrom_removed (line :: removed) rest i 0 [] gone
    rw [List.nil_append] at run
    rw [← run, List.cons_append, pairsFrom, pairsFrom, gone line List.mem_cons_self]
    dsimp only
    rw [if_pos (by decide), if_neg (by simp)]

/-- A change block's added lines are paired with its removed ones in order. -/
theorem pairsFrom_change (removed added rest : List PatchLine) (i : Nat)
    (gone : ∀ line ∈ removed, line.kind = .removed) (new : ∀ line ∈ added, line.kind = .added)
    (stop : ∀ line ∈ rest.head?, line.kind ≠ .added ∧ (added = [] → line.kind ≠ .removed)) :
    pairsFrom i [] 0 .context (removed ++ added ++ rest) =
      List.replicate removed.length none ++
        (List.range' 0 added.length).map ((List.range' i removed.length)[·]?) ++
          pairsFrom (i + removed.length + added.length) [] 0 .context rest := by
  obtain ⟨previous, outside, run⟩ := pairsFrom_block removed (added ++ rest) i gone
  rw [List.append_assoc, run, List.append_assoc]
  refine congrArg (List.replicate removed.length none ++ ·) ?_
  by_cases bare : added = []
  · subst bare
    exact pairsFrom_fresh rest _ _ _ _ fun line head =>
      ⟨(stop line head).1, fun _ => (stop line head).2 rfl⟩
  · rw [pairsFrom_run added rest _ _ _ _ outside bare new]
    refine congrArg (_ ++ ·) (pairsFrom_fresh rest _ _ _ _ fun line head => ?_)
    exact ⟨(stop line head).1, fun same => nomatch same⟩

/-- Past where a function of places gives something, more places give nothing more. -/
theorem range_filterMap {β : Type} (f : Nat → Option β) (few many : Nat) (within : few ≤ many)
    (outside : ∀ k, few ≤ k → f k = none) :
    (List.range many).filterMap f = (List.range few).filterMap f := by
  induction many with
  | zero => rw [Nat.le_zero.1 within]
  | succ many ih =>
    by_cases same : few = many + 1
    · rw [same]
    · rw [List.range_succ, List.filterMap_append, ih (by omega),
        List.filterMap_cons_none (outside many (by omega)), List.filterMap_nil, List.append_nil]

theorem numbered_none (i count : Nat) : numbered i (List.replicate count none) = [] := by
  rw [numbered, List.filterMap_eq_nil_iff]
  rintro ⟨paired, place⟩ listed
  have value := List.eq_of_mem_replicate (List.fst_mem_of_mem_zipIdx listed)
  rw [value]
  rfl

theorem numbered_range (f : Nat → Option Nat) (j count : Nat) :
    numbered j ((List.range count).map f) =
      (List.range count).filterMap fun k => (f k).map fun r => (j + k, r) := by
  induction count with
  | zero => rfl
  | succ count ih =>
    rw [List.range_succ, List.map_append, numbered_append, ih, List.filterMap_append,
      List.length_map, List.length_range]
    rfl

/-- The pairs of a block's rows. -/
theorem matched_zipRuns (removed added : List PatchLine) (i : Nat)
    (new : ∀ line ∈ added, line.kind = .added) :
    matched (zipRuns (removed.zipIdx i) (added.zipIdx (i + removed.length))) =
      numbered (i + removed.length)
        ((List.range' 0 added.length).map ((List.range' i removed.length)[·]?)) := by
  rw [← List.range_eq_range', numbered_range, matched, zipRuns, List.filterMap_map,
    List.length_zipIdx, List.length_zipIdx, range_filterMap _ added.length _ (Nat.le_max_right _ _)]
  · refine List.filterMap_congr fun k listed => ?_
    have within := List.mem_range.1 listed
    have kind := new _ (List.getElem_mem within)
    simp only [Function.comp_apply, List.getElem?_zipIdx, List.getElem?_eq_getElem within,
      Option.map_some]
    by_cases held : k < removed.length
    · rw [List.getElem?_eq_getElem held, List.getElem?_range' held]
      simp [kind]
    · rw [List.getElem?_eq_none (Nat.not_lt.1 held), List.getElem?_eq_none (by simpa using held)]
      rfl
  · intro k past
    simp only [Function.comp_apply, List.getElem?_zipIdx, List.getElem?_eq_none past,
      Option.map_none]
    cases Option.map (fun line => (line, i + k)) removed[k]? <;> rfl

theorem matched_append (first second : List (Option Placed × Option Placed)) :
    matched (first ++ second) = matched first ++ matched second :=
  List.filterMap_append

theorem forall_zipIdx (test : PatchLine → Prop) (lines : List PatchLine) (i : Nat)
    (all : ∀ line ∈ lines, test line) : ∀ placed ∈ lines.zipIdx i, test placed.1 :=
  fun _ listed => all _ (List.fst_mem_of_mem_zipIdx listed)

theorem matched_pairRows (lines : List PatchLine) (i : Nat) :
    matched (pairRows placedKind (lines.zipIdx i)) =
      numbered i (pairsFrom i [] 0 .context lines) := by
  induction parts_all PatchLine.kind lines generalizing i with
  | nil =>
    rw [List.zipIdx_nil, pairRows]
    rfl
  | context line rest unchanged parts ih =>
    have row : matched [(some (line, i), some (line, i))] = [] := by simp [matched, unchanged]
    have count : pairsFrom i [] 0 .context (line :: rest) =
        [none] ++ pairsFrom (i + 1) [] 0 .context rest := by
      rw [pairsFrom, unchanged]
      rfl
    rw [List.zipIdx_cons, pairRows_context placedKind (line, i) _ unchanged, count,
      ← List.singleton_append, matched_append, row, ih, numbered_append]
    rfl
  | change removed added rest gone new filled stop parts ih =>
    rw [List.zipIdx_append, List.zipIdx_append, pairsFrom_change removed added rest i gone new stop,
      pairRows_change placedKind, matched_append, matched_zipRuns removed added i new,
      List.length_append, ← Nat.add_assoc, ih, numbered_append, numbered_append, numbered_none,
      List.nil_append, List.length_append, List.length_replicate, List.length_map,
      List.length_range', Nat.add_assoc]
    · exact forall_zipIdx (fun line => line.kind = .removed) removed i gone
    · exact forall_zipIdx (fun line => line.kind = .added) added _ new
    · rw [← List.zipIdx_append]
      exact fun absent => filled (List.zipIdx_eq_nil_iff.1 absent)
    · intro placed head
      rw [List.head?_zipIdx] at head
      obtain ⟨line, own, rfl⟩ := Option.map_eq_some_iff.1 head
      exact ⟨(stop line own).1, fun absent => (stop line own).2 (List.zipIdx_eq_nil_iff.1 absent)⟩

theorem mem_numbered (paired : List (Option Nat)) (i r : Nat) :
    (i, r) ∈ numbered 0 paired ↔ paired[i]? = some (some r) := by
  rw [numbered, List.mem_filterMap]
  constructor
  · rintro ⟨⟨value, place⟩, listed, own⟩
    obtain ⟨other, rfl, pair⟩ := Option.map_eq_some_iff.1 own
    obtain ⟨rfl, rfl⟩ := Prod.mk.inj pair
    exact List.mk_mem_zipIdx_iff_getElem?.1 listed
  · intro held
    exact ⟨(some r, i), List.mk_mem_zipIdx_iff_getElem?.2 held, rfl⟩

theorem pairs_iff (lines : List PatchLine) (i r : Nat) :
    (pairs lines)[i]? = some (some r) ↔ ∃ old new,
      (some (old, r), some (new, i)) ∈ placedRows lines ∧ old.kind = .removed ∧
        new.kind = .added := by
  rw [← mem_numbered, pairs, ← matched_pairRows lines 0, matched, List.mem_filterMap]
  constructor
  · rintro ⟨⟨left, right⟩, listed, own⟩
    cases left with
    | none => cases own
    | some old =>
      cases right with
      | none => cases own
      | some new =>
        dsimp only at own
        split_ifs at own with added
        obtain ⟨rfl, rfl⟩ := Prod.mk.inj (Option.some.inj own)
        refine ⟨old.1, new.1, listed, ?_, added⟩
        rcases pairRows_kinds placedKind lines.zipIdx _ listed with ⟨line, same, row⟩ | ⟨gone, -⟩
        · obtain rfl := Option.some.inj (Prod.mk.inj row).2
          cases added.symm.trans same
        · exact gone old rfl
  · rintro ⟨old, new, listed, -, added⟩
    exact ⟨_, listed, if_pos added⟩

end Counted

/-- The inline layout pairs an added line with a removed one where the side-by-side layout puts
both in one row, the terminal view has the same rows, and the cells of a side are its lines. -/
theorem projections_alike :
    (∀ lines i r, (pairs lines)[i]? = some (some r) ↔ ∃ old new,
      (some (old, r), some (new, i)) ∈ placedRows lines ∧ old.kind = .removed ∧
        new.kind = .added) ∧
    (∀ lines, hunkSideRows lines = (placedRows lines).map fun row => sideRow (both (·.1) row)) ∧
    (∀ lines, (placedRows lines).filterMap (·.1) =
        lines.zipIdx.filter (fun placed => placed.1.onOldSide) ∧
      (placedRows lines).filterMap (·.2) = lines.zipIdx.filter fun placed => placed.1.onNewSide) ∧
    (∀ lines, hunkSideRows lines = (pairHunk lines).map sideRow) ∧
    ∀ file, (sideRows file).filterMap (·.left) =
        ((file.patchTwin.hunks.flatMap (·.lines)).filter (·.onOldSide)).map leftCell ∧
      (sideRows file).filterMap (·.right) =
        ((file.patchTwin.hunks.flatMap (·.lines)).filter (·.onNewSide)).map rightCell := by
  refine ⟨pairs_iff, fun lines => ?_, fun lines => ⟨pairRows_left placedKind lines.zipIdx,
    pairRows_right placedKind lines.zipIdx⟩, hunkSideRows_pairHunk,
    fun file => ⟨sideRows_left file, sideRows_right file⟩⟩
  rw [hunkSideRows_pairHunk, ← placedRows_lines, List.map_map]
  rfl

end DeepDiffForge.Projection
