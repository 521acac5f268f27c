import DeepDiffForge.Lib.Packing
import DeepDiffForge.Projection.Notes

/-! Text in terminal cells: clipped and fitted to a width, and wrapped into lines of it. -/

namespace DeepDiffForge.Projection
open Text Slices Packing

/-- The lines pushed so far, and the line under way with the cells it takes. -/
structure Wrapping where
  result : List Str
  line : Str
  used : Nat

/-- A grapheme as a line of `width` cells shows it. -/
def wrappedGrapheme (terminal : Terminal) (width : Nat) (grapheme : Str) : Str :=
  if width < terminal.cellWidth grapheme then ['?'] else grapheme

def Wrapping.broken (wrapping : Wrapping) : Wrapping where
  result := wrapping.result ++ [wrapping.line]
  line := []
  used := 0

def Wrapping.add (terminal : Terminal) (width : Nat) (wrapping : Wrapping) (grapheme : Str) :
    Wrapping :=
  let cells := terminal.cellWidth grapheme
  let wrapping :=
    if width < wrapping.used + cells && !wrapping.line.isEmpty then wrapping.broken else wrapping
  if width < cells then
    { wrapping with line := wrapping.line ++ ['?'], used := wrapping.used + 1 }
  else { wrapping with line := wrapping.line ++ grapheme, used := wrapping.used + cells }

def Wrapping.lines (wrapping : Wrapping) : List Str :=
  if !wrapping.line.isEmpty || wrapping.result.isEmpty then wrapping.result ++ [wrapping.line]
  else wrapping.result

/-- A safe text hard-wrapped into lines of `width` cells. -/
def wrapCells (terminal : Terminal) (text : Str) (width : Nat) : List Str :=
  let width := max width 1
  ((terminal.graphemes (expandTabs text)).foldl (Wrapping.add terminal width) ⟨[], [], 0⟩).lines

/-- What grapheme clusters and their cells are taken to do: the clusters of a text are its parts,
cut alike in any run of them and where some stand as one `?`, and cells add up. -/
structure Geometry (terminal : Terminal) : Prop where
  whole : ∀ text, (terminal.graphemes text).flatten = text
  filled : ∀ text, ∀ grapheme ∈ terminal.graphemes text, grapheme ≠ []
  added : ∀ text, terminal.cellWidth text = total terminal.cellWidth (terminal.graphemes text)
  between : ∀ text one two three, terminal.graphemes text = one ++ (two ++ three) →
    terminal.graphemes two.flatten = two
  replaced : ∀ text width, 1 ≤ width →
    terminal.graphemes ((terminal.graphemes text).map (wrappedGrapheme terminal width)).flatten =
      (terminal.graphemes text).map (wrappedGrapheme terminal width)
  question : terminal.cellWidth ['?'] = 1
  padded : ∀ text count, terminal.cellWidth (text ++ spaces count) =
    terminal.cellWidth text + count

section
variable (terminal : Terminal) (width : Nat)

def wrappedLine (graphemes : List Str) : Str :=
  (graphemes.map (wrappedGrapheme terminal width)).flatten

def charge (grapheme : Str) : Nat :=
  if width < terminal.cellWidth grapheme then 1 else terminal.cellWidth grapheme

theorem expandTabs_eq_nil (text : Str) (empty : expandTabs text = []) : text = [] := by
  cases text with
  | nil => rfl
  | cons c text =>
    have first : (if c = '\t' then spaces 4 else [c]) = [] := (List.append_eq_nil_iff.1 empty).1
    split at first <;> cases first

theorem wrappedLine_isEmpty (graphemes : List Str)
    (filled : ∀ grapheme ∈ graphemes, grapheme ≠ []) :
    (wrappedLine terminal width graphemes).isEmpty = graphemes.isEmpty := by
  cases graphemes with
  | nil => rfl
  | cons grapheme rest =>
    rw [wrappedLine, List.map_cons, List.flatten_cons, wrappedGrapheme]
    have first := filled grapheme List.mem_cons_self
    split
    · rfl
    · cases grapheme with
      | nil => exact absurd rfl first
      | cons c grapheme => rfl

theorem wrappedLine_append (one two : List Str) :
    wrappedLine terminal width (one ++ two) =
      wrappedLine terminal width one ++ wrappedLine terminal width two := by
  rw [wrappedLine, List.map_append, List.flatten_append]
  rfl

theorem wrappedLine_flatten (groups : List (List Str)) :
    (groups.map (wrappedLine terminal width)).flatten =
      wrappedLine terminal width groups.flatten := by
  induction groups with
  | nil => rfl
  | cons group groups ih => rw [List.map_cons, List.flatten_cons, List.flatten_cons, ih,
      wrappedLine_append]

theorem wrappedLine_singleton (grapheme : Str) :
    wrappedLine terminal width [grapheme] = wrappedGrapheme terminal width grapheme :=
  List.append_nil _

theorem add_line (result : List Str) (group : List Str) (item : Str) (used : Nat)
    (filled : ∀ grapheme ∈ group, grapheme ≠ []) :
    Wrapping.add terminal width ⟨result, wrappedLine terminal width group, used⟩ item =
      if width < used + terminal.cellWidth item && !group.isEmpty then
        ⟨result ++ [wrappedLine terminal width group], wrappedLine terminal width [item],
          charge terminal width item⟩
      else ⟨result, wrappedLine terminal width (group ++ [item]),
        used + charge terminal width item⟩ := by
  have empty := wrappedLine_isEmpty terminal width group filled
  rw [Wrapping.add, empty, wrappedLine_append, wrappedLine_singleton, wrappedGrapheme, charge]
  by_cases full : (width < used + terminal.cellWidth item && !group.isEmpty) = true
  · rw [if_pos full, if_pos full]
    by_cases wide : width < terminal.cellWidth item
    · rw [if_pos wide, if_pos wide, if_pos wide]
      rfl
    · rw [if_neg wide, if_neg wide, if_neg wide]
      exact congrArg (Wrapping.mk _ _) (Nat.zero_add _)
  · rw [if_neg full, if_neg full]
    by_cases wide : width < terminal.cellWidth item
    · rw [if_pos wide, if_pos wide, if_pos wide]
    · rw [if_neg wide, if_neg wide, if_neg wide]

/-- The loop from a line under way is the packing of the graphemes still to come. -/
theorem foldl_add (result : List Str) (group items : List Str) (used : Nat)
    (filled : ∀ grapheme ∈ group ++ items, grapheme ≠ []) :
    (items.foldl (Wrapping.add terminal width)
        ⟨result, wrappedLine terminal width group, used⟩).lines =
      if result = [] ∧ group ++ items = [] then [[]]
      else result ++ (packFrom width terminal.cellWidth (charge terminal width) group used items).map
        (wrappedLine terminal width) := by
  induction items generalizing result group used with
  | nil =>
    rw [List.foldl_nil, Wrapping.lines, packFrom, List.append_nil]
    have empty := wrappedLine_isEmpty terminal width group
      fun grapheme listed => filled grapheme (List.mem_append_left _ listed)
    rw [empty]
    cases group with
    | nil =>
      cases result with
      | nil => rfl
      | cons first result => simp
    | cons first group => simp
  | cons item items ih =>
    have before (grapheme : Str) (listed : grapheme ∈ group) : grapheme ≠ [] :=
      filled grapheme (List.mem_append_left _ listed)
    have after (grapheme : Str) (listed : grapheme ∈ item :: items) : grapheme ≠ [] :=
      filled grapheme (List.mem_append_right _ listed)
    have more : ¬ (result = [] ∧ group ++ item :: items = []) := by
      rintro ⟨-, absent⟩
      exact List.cons_ne_nil _ _ (List.append_eq_nil_iff.1 absent).2
    rw [List.foldl_cons, add_line terminal width result group item used before, packFrom,
      if_neg more]
    by_cases full : (width < used + terminal.cellWidth item && !group.isEmpty) = true
    · rw [if_pos full, if_pos full, ih _ [item] _ after, if_neg, List.map_cons,
        List.append_assoc, List.singleton_append]
      rintro ⟨absent, -⟩
      exact List.cons_ne_nil _ _ (List.append_eq_nil_iff.1 absent).2
    · rw [if_neg full, if_neg full, ih result (group ++ [item]) _, if_neg]
      · rintro ⟨-, absent⟩
        exact List.cons_ne_nil _ _ (List.append_eq_nil_iff.1 (List.append_eq_nil_iff.1 absent).1).2
      · rwa [List.append_assoc, List.singleton_append]

theorem charge_within (positive : 1 ≤ width) (grapheme : Str) :
    charge terminal width grapheme ≤ width ∧
      charge terminal width grapheme ≤ terminal.cellWidth grapheme := by
  unfold charge
  split <;> omega

def lineGroups (graphemes : List Str) : List (List Str) :=
  if graphemes = [] then [[]]
  else pack width terminal.cellWidth (charge terminal width) graphemes

theorem flatten_lineGroups (graphemes : List Str) :
    (lineGroups terminal width graphemes).flatten = graphemes := by
  unfold lineGroups
  split
  · rename_i absent
    exact absent.symm
  · exact flatten_packFrom width terminal.cellWidth (charge terminal width) [] graphemes 0

theorem lineGroups_within (positive : 1 ≤ width) (graphemes : List Str) :
    ∀ group ∈ lineGroups terminal width graphemes,
      total (charge terminal width) group ≤ width := by
  unfold lineGroups
  split
  · exact List.forall_mem_singleton.2 (Nat.zero_le _)
  · exact packFrom_within width terminal.cellWidth (charge terminal width) [] graphemes 0 rfl
      (charge_within terminal width positive) (Nat.zero_le _)

theorem lineGroups_chain (graphemes : List Str) :
    (lineGroups terminal width graphemes).IsChain fun one two => ∀ grapheme ∈ two.head?,
      width < total (charge terminal width) one + terminal.cellWidth grapheme := by
  unfold lineGroups
  split
  · exact .singleton _
  · exact packFrom_chain width terminal.cellWidth (charge terminal width) [] graphemes 0 rfl

theorem lineGroups_filled (graphemes group : List Str) (nonempty : graphemes ≠ [])
    (listed : group ∈ lineGroups terminal width graphemes) : group ≠ [] := by
  rw [lineGroups, if_neg nonempty] at listed
  exact packFrom_filled width terminal.cellWidth (charge terminal width) [] graphemes 0 group listed

theorem clipFrom_kept (used : Nat) (graphemes : List Str) :
    ∃ kept rest, graphemes = kept ++ rest ∧
      clipFrom terminal width used graphemes = kept.flatten ∧
      (used ≤ width → used + total terminal.cellWidth kept ≤ width) ∧
      ∀ next ∈ rest.head?, width < used + total terminal.cellWidth (kept ++ [next]) := by
  induction graphemes generalizing used with
  | nil => exact ⟨[], [], rfl, rfl, fun fits => fits, fun next absent => absurd absent (by simp)⟩
  | cons grapheme graphemes ih =>
    rw [clipFrom]
    split
    · rename_i full
      refine ⟨[], grapheme :: graphemes, rfl, rfl, fun fits => fits, fun next found => ?_⟩
      obtain rfl := Option.some.inj found
      rw [List.nil_append, total_singleton]
      exact full
    · rename_i room
      obtain ⟨kept, rest, cut, clipped, within, least⟩ :=
        ih (used + terminal.cellWidth grapheme)
      refine ⟨grapheme :: kept, rest, by rw [cut]; rfl, by rw [clipped]; rfl, fun _ => ?_, ?_⟩
      · have fits := within (Nat.le_of_not_lt room)
        rwa [Nat.add_assoc] at fits
      · intro next found
        have more := least next found
        rwa [Nat.add_assoc] at more

variable (geometry : Geometry terminal)

include geometry

theorem cellWidth_wrappedGrapheme (grapheme : Str) :
    terminal.cellWidth (wrappedGrapheme terminal width grapheme) =
      charge terminal width grapheme := by
  unfold wrappedGrapheme charge
  split
  · exact geometry.question
  · rfl

/-- A run of graphemes takes the cells of each, once the wide ones are replaced. -/
theorem cellWidth_wrappedLine (text : Str) (one two three : List Str) (positive : 1 ≤ width)
    (cut : terminal.graphemes text = one ++ (two ++ three)) :
    terminal.cellWidth (wrappedLine terminal width two) =
      total (charge terminal width) two := by
  have replaced := geometry.replaced text width positive
  rw [cut, List.map_append, List.map_append] at replaced
  rw [wrappedLine, geometry.added, geometry.between _ _ _ _ replaced, total, List.map_map]
  exact congrArg List.sum (List.map_congr_left fun grapheme _ =>
    cellWidth_wrappedGrapheme terminal width geometry grapheme)

theorem cellWidth_group (text : Str) (positive : 1 ≤ width) (group : List Str)
    (listed : group ∈ lineGroups terminal width (terminal.graphemes text)) :
    terminal.cellWidth (wrappedLine terminal width group) =
      total (charge terminal width) group := by
  obtain ⟨before, after, same⟩ := List.append_of_mem listed
  refine cellWidth_wrappedLine terminal width geometry text before.flatten group after.flatten
    positive ?_
  rw [← flatten_lineGroups terminal width (terminal.graphemes text), same, List.flatten_append,
    List.flatten_cons]

theorem cellWidth_kept (text : Str) (kept rest : List Str)
    (cut : terminal.graphemes text = kept ++ rest) :
    terminal.cellWidth kept.flatten = total terminal.cellWidth kept := by
  rw [geometry.added, geometry.between text [] kept rest cut]

theorem wrapCells_eq (text : Str) (positive : 1 ≤ width) :
    wrapCells terminal text width =
      (lineGroups terminal width (terminal.graphemes (expandTabs text))).map
        (wrappedLine terminal width) := by
  have filled := geometry.filled (expandTabs text)
  have walked := foldl_add terminal width [] [] (terminal.graphemes (expandTabs text)) 0 filled
  simp only [true_and, List.nil_append] at walked
  rw [wrapCells, Nat.max_eq_left positive, lineGroups]
  split at walked
  · rename_i absent
    rw [if_pos absent]
    exact walked
  · rename_i present
    rw [if_neg present]
    exact walked

theorem graphemes_eq_nil (text : Str) (empty : terminal.graphemes text = []) : text = [] := by
  rw [← geometry.whole text, empty, List.flatten_nil]

theorem wrapCells_filled (text : Str) (positive : 1 ≤ width) (line : Str)
    (listed : line ∈ wrapCells terminal text width) (empty : line = []) : text = [] := by
  by_contra present
  have graphemes : terminal.graphemes (expandTabs text) ≠ [] := fun absent =>
    present (expandTabs_eq_nil text (graphemes_eq_nil terminal geometry _ absent))
  rw [wrapCells_eq terminal width geometry text positive] at listed
  obtain ⟨group, among, rfl⟩ := List.mem_map.1 listed
  have filled (grapheme : Str) (held : grapheme ∈ group) : grapheme ≠ [] := by
    refine geometry.filled (expandTabs text) grapheme ?_
    rw [← flatten_lineGroups terminal width (terminal.graphemes (expandTabs text))]
    exact List.mem_flatten.2 ⟨group, among, held⟩
  have shown := wrappedLine_isEmpty terminal width group filled
  rw [empty] at shown
  exact lineGroups_filled terminal width _ group graphemes among (List.isEmpty_iff.1 shown.symm)

/-- What `clipCells` keeps is the longest run of first graphemes that fits. -/
theorem clipCells_longest (text : Str) :
    ∃ kept rest, terminal.graphemes (expandTabs text) = kept ++ rest ∧
      clipCells terminal text width = kept.flatten ∧
      terminal.cellWidth (clipCells terminal text width) ≤ width ∧
      ∀ longer, longer <+: terminal.graphemes (expandTabs text) →
        terminal.cellWidth longer.flatten ≤ width → longer <+: kept := by
  obtain ⟨kept, rest, cut, clipped, within, least⟩ :=
    clipFrom_kept terminal width 0 (terminal.graphemes (expandTabs text))
  have fits := within (Nat.zero_le _)
  rw [Nat.zero_add] at fits
  refine ⟨kept, rest, cut, clipped, ?_, ?_⟩
  · rw [clipCells, clipped, cellWidth_kept terminal geometry _ kept rest cut]
    exact fits
  · rintro longer ⟨tail, same⟩ narrow
    rw [cellWidth_kept terminal geometry _ longer tail same.symm] at narrow
    have both : longer <+: kept ++ rest := ⟨tail, same.trans cut⟩
    rcases Nat.le_total longer.length kept.length with short | long
    · exact List.prefix_of_prefix_length_le both (List.prefix_append kept rest) short
    · obtain ⟨more, rfl⟩ :=
        List.prefix_of_prefix_length_le (List.prefix_append kept rest) both long
      rw [List.prefix_append_right_inj] at both
      cases more with
      | nil => exact ⟨[], by rw [List.append_nil, List.append_nil]⟩
      | cons next more =>
        obtain ⟨others, rfl⟩ := both
        have full := least next rfl
        rw [Nat.zero_add, total_append, total_singleton] at full
        rw [total_append, ← List.singleton_append, total_append, total_singleton] at narrow
        omega

theorem fitCells_exact (text : Str) :
    ∃ count, fitCells terminal text width = .ok (clipCells terminal text width ++ spaces count) ∧
      terminal.cellWidth (clipCells terminal text width ++ spaces count) = width := by
  obtain ⟨-, -, -, -, fits, -⟩ := clipCells_longest terminal width geometry text
  refine ⟨width - terminal.cellWidth (clipCells terminal text width), ?_, ?_⟩
  · rw [fitCells, lessBy, if_pos fits]
    rfl
  · rw [geometry.padded]
    exact Nat.add_sub_cancel' fits

/-- Wrapping keeps every grapheme in order, the ones wider than a line as one `?`, on lines that
fit and could not take the grapheme which begins the next, as wide as the text has it; clipping
keeps as many graphemes as fit, and fitting pads what is kept to the width. -/
theorem cells_kept (text : Str) (positive : 1 ≤ width) :
    ((wrapCells terminal text width).flatten =
        ((terminal.graphemes (expandTabs text)).map (wrappedGrapheme terminal width)).flatten ∧
      (∀ line ∈ wrapCells terminal text width, terminal.cellWidth line ≤ width) ∧
      (∀ line ∈ wrapCells terminal text width, line = [] → text = []) ∧
      ∃ groups : List (List Str), groups.flatten = terminal.graphemes (expandTabs text) ∧
        wrapCells terminal text width = groups.map (wrappedLine terminal width) ∧
        groups.IsChain fun one two => ∀ grapheme ∈ two.head?,
          width < terminal.cellWidth (wrappedLine terminal width one) +
            terminal.cellWidth grapheme) ∧
    (∃ kept rest, terminal.graphemes (expandTabs text) = kept ++ rest ∧
      clipCells terminal text width = kept.flatten ∧
      terminal.cellWidth (clipCells terminal text width) ≤ width ∧
      ∀ longer, longer <+: terminal.graphemes (expandTabs text) →
        terminal.cellWidth longer.flatten ≤ width → longer <+: kept) ∧
    ∃ count, fitCells terminal text width = .ok (clipCells terminal text width ++ spaces count) ∧
      terminal.cellWidth (clipCells terminal text width ++ spaces count) = width := by
  have lines := wrapCells_eq terminal width geometry text positive
  have size := cellWidth_group terminal width geometry (expandTabs text) positive
  refine ⟨⟨?_, ?_, wrapCells_filled terminal width geometry text positive, ?_⟩,
    clipCells_longest terminal width geometry text, fitCells_exact terminal width geometry text⟩
  · rw [lines, wrappedLine_flatten, flatten_lineGroups]
    rfl
  · intro line listed
    rw [lines] at listed
    obtain ⟨group, among, rfl⟩ := List.mem_map.1 listed
    rw [size group among]
    exact lineGroups_within terminal width positive _ group among
  · refine ⟨lineGroups terminal width (terminal.graphemes (expandTabs text)),
      flatten_lineGroups terminal width _, lines, ?_⟩
    refine (lineGroups_chain terminal width _).imp_of_mem_imp ?_
    intro one two first _ full grapheme found
    rw [size one first]
    exact full grapheme found

end

structure AsciiCells (terminal : Terminal) : Prop where
  graphemes : ∀ text, (∀ c ∈ text, Json.printable c = true) →
    terminal.graphemes text = text.map ([·])
  cell : ∀ c, Json.printable c = true → terminal.cellWidth [c] = 1

theorem length_wrapCells_ascii (terminal : Terminal) (ascii : AsciiCells terminal) (text : Str)
    (width : Nat) (printable : ∀ c ∈ expandTabs text, Json.printable c = true) :
    (wrapCells terminal text width).length =
      max (((expandTabs text).length + max width 1 - 1) / max width 1) 1 := by
  have singles := ascii.graphemes (expandTabs text) printable
  have positive : 0 < max width 1 := Nat.lt_of_lt_of_le Nat.zero_lt_one (Nat.le_max_right ..)
  have each (grapheme : Str) (listed : grapheme ∈ (expandTabs text).map ([·])) :
      terminal.cellWidth grapheme = 1 ∧ charge terminal (max width 1) grapheme = 1 := by
    obtain ⟨c, among, rfl⟩ := List.mem_map.1 listed
    have cell := ascii.cell c (printable c among)
    refine ⟨cell, ?_⟩
    rw [charge, cell, if_neg (by omega)]
  have walked := foldl_add terminal (max width 1) [] [] ((expandTabs text).map ([·])) 0
    fun grapheme listed => by
      obtain ⟨c, -, rfl⟩ := List.mem_map.1 listed
      exact List.cons_ne_nil _ _
  simp only [true_and, List.nil_append, List.map_eq_nil_iff] at walked
  have packed := length_packFrom (max width 1) terminal.cellWidth (charge terminal (max width 1))
    [] ((expandTabs text).map ([·])) 0 rfl (Nat.zero_le _) positive each
  rw [List.length_nil, Nat.zero_add, List.length_map] at packed
  have lines : wrapCells terminal text width = if expandTabs text = [] then [[]] else
      (packFrom (max width 1) terminal.cellWidth (charge terminal (max width 1)) [] 0
        ((expandTabs text).map ([·]))).map (wrappedLine terminal (max width 1)) := by
    rw [wrapCells, singles]
    exact walked
  rw [lines]
  split
  · rename_i absent
    rw [absent, List.length_nil, Nat.zero_add, Nat.div_eq_of_lt (by omega)]
    rfl
  · rename_i present
    have filled := List.length_pos_iff.2 present
    rw [List.length_map, packed]
    refine (Nat.max_eq_left ?_).symm
    exact (Nat.le_div_iff_mul_le positive).2 (by omega)

/-- A terminal of one cell for each character but the Khmer sign beyyal, which takes three. -/
def beyyalTerminal : Terminal where
  graphemes text := text.map ([·])
  cellWidth text := (text.map fun c => if c = '\u17d8' then 3 else 1).sum
  charWidth c := some (if c = '\u17d8' then 3 else 1)

theorem graphemes_singles (pieces : List Str) (single : ∀ piece ∈ pieces, ∃ c, piece = [c]) :
    beyyalTerminal.graphemes pieces.flatten = pieces := by
  induction pieces with
  | nil => rfl
  | cons piece pieces ih =>
    obtain ⟨c, rfl⟩ := single piece List.mem_cons_self
    have rest := ih fun other listed => single other (List.mem_cons_of_mem _ listed)
    exact congrArg ([c] :: ·) rest

theorem beyyalTerminal_single (text : Str) :
    ∀ piece ∈ beyyalTerminal.graphemes text, ∃ c, piece = [c] := by
  intro piece listed
  obtain ⟨c, -, rfl⟩ := List.mem_map.1 listed
  exact ⟨c, rfl⟩

theorem beyyalTerminal_geometry : Geometry beyyalTerminal where
  whole text := by
    induction text with
    | nil => rfl
    | cons c text ih => exact congrArg (c :: ·) ih
  filled text grapheme listed := by
    obtain ⟨c, rfl⟩ := beyyalTerminal_single text grapheme listed
    exact List.cons_ne_nil _ _
  added text := by
    induction text with
    | nil => rfl
    | cons c text ih => exact congrArg ((if c = '\u17d8' then 3 else 1) + ·) ih
  between text one two three cut := by
    refine graphemes_singles two fun piece listed => beyyalTerminal_single text piece ?_
    rw [cut]
    exact List.mem_append_right _ (List.mem_append_left _ listed)
  replaced text width _ := by
    refine graphemes_singles _ fun piece listed => ?_
    obtain ⟨grapheme, among, rfl⟩ := List.mem_map.1 listed
    unfold wrappedGrapheme
    split
    · exact ⟨'?', rfl⟩
    · exact beyyalTerminal_single text grapheme among
  question := rfl
  padded text count := by
    have blanks : beyyalTerminal.cellWidth (spaces count) = count := by
      induction count with
      | zero => rfl
      | succ count ih => exact (congrArg (1 + ·) ih).trans (Nat.add_comm 1 count)
    have parts : beyyalTerminal.cellWidth (text ++ spaces count) =
        beyyalTerminal.cellWidth text + beyyalTerminal.cellWidth (spaces count) := by
      simp only [beyyalTerminal, List.map_append, List.sum_append]
    rw [parts, blanks]

/-- A sign too wide for two cells is one `?` on a line of its own, though the line before it has
room for that. -/
theorem wrapCells_beyyal :
    wrapCells beyyalTerminal ['a', '\u17d8'] 2 = [['a'], ['?']] ∧
      ¬ ∀ text width, 1 ≤ width → (wrapCells beyyalTerminal text width).IsChain fun one two =>
        ∀ grapheme ∈ (beyyalTerminal.graphemes two).head?,
          width < beyyalTerminal.cellWidth one + beyyalTerminal.cellWidth grapheme := by
  have lines : wrapCells beyyalTerminal ['a', '\u17d8'] 2 = [['a'], ['?']] := by decide
  refine ⟨lines, fun every => ?_⟩
  have chain := every ['a', '\u17d8'] 2 (by decide)
  rw [lines, List.isChain_cons_cons] at chain
  exact absurd (chain.1 ['?'] rfl) (by decide)

theorem cells_kept_beyyal :
    (wrapCells beyyalTerminal ['a', '\u17d8', '\t'] 2).flatten = ['a', '?', ' ', ' ', ' ', ' '] ∧
      ∃ count, fitCells beyyalTerminal ['a', '\u17d8'] 2 =
        .ok (clipCells beyyalTerminal ['a', '\u17d8'] 2 ++ spaces count) := by
  have kept := cells_kept beyyalTerminal 2 beyyalTerminal_geometry
  obtain ⟨count, fitted, -⟩ := (kept ['a', '\u17d8'] (by decide)).2.2
  exact ⟨(kept ['a', '\u17d8', '\t'] (by decide)).1.1, count, fitted⟩

end DeepDiffForge.Projection
