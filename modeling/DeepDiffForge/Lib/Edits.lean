import Mathlib.Data.List.Basic
import DeepDiffForge.Lib.Markers

/-! Edits of a list, each at the place it states on both sides: what stands between two edits is
kept. And lists of lines, laid out so that they can be read back from their text. -/

namespace DeepDiffForge.Edits

/-- What an edit takes out and puts in, and how many items stand in front of it on each side. -/
structure Edit (α : Type) where
  before : Nat
  after : Nat
  gone : List α
  made : List α

section
variable {α : Type}

inductive Applied : Nat → Nat → List α → List (Edit α) → List α → Prop
  | rest (i j : Nat) (items : List α) : Applied i j items [] items
  | edit (i j : Nat) (kept items result : List α) (edit : Edit α) (edits : List (Edit α))
      (old : edit.before = i + kept.length) (new : edit.after = j + kept.length)
      (next : Applied (edit.before + edit.gone.length) (edit.after + edit.made.length) items edits
        result) :
      Applied i j (kept ++ (edit.gone ++ items)) (edit :: edits) (kept ++ (edit.made ++ result))

/-- Whether an edit takes out the item of a number, the first being number one. -/
def Takes (edits : List (Edit α)) (n : Nat) : Prop :=
  ∃ edit ∈ edits, edit.before < n ∧ n ≤ edit.before + edit.gone.length

theorem applied_behind (i j : Nat) (items result : List α) (edits : List (Edit α))
    (applied : Applied i j items edits result) :
    ∀ edit ∈ edits, i ≤ edit.before ∧ j ≤ edit.after := by
  induction applied with
  | rest => exact fun edit listed => absurd listed List.not_mem_nil
  | edit i j kept items result edit edits old new next ih =>
    intro other listed
    rcases List.mem_cons.1 listed with rfl | later
    · omega
    · have behind := ih other later
      omega

/-- The old side: each edit takes out the items at its place. -/
theorem applied_gone (i j : Nat) (items result : List α) (edits : List (Edit α))
    (applied : Applied i j items edits result) (edit : Edit α) (listed : edit ∈ edits) (k : Nat)
    (item : α) (taken : edit.gone[k]? = some item) : items[edit.before + k - i]? = some item := by
  induction applied with
  | rest => cases listed
  | edit i j kept items result first edits old new next ih =>
    have behind := applied_behind _ _ _ _ _ next
    rcases List.mem_cons.1 listed with rfl | later
    · have within := (List.getElem?_eq_some_iff.1 taken).1
      rw [List.getElem?_append_right (by omega), List.getElem?_append_left (by omega)]
      have place : edit.before + k - i - kept.length = k := by omega
      rw [place]
      exact taken
    · have past := (behind edit later).1
      rw [List.getElem?_append_right (by omega), List.getElem?_append_right (by omega)]
      have place : edit.before + k - i - kept.length - first.gone.length =
          edit.before + k - (first.before + first.gone.length) := by omega
      rw [place]
      exact ih later

/-- The new side: what each edit puts in stands at its place. -/
theorem applied_made (i j : Nat) (items result : List α) (edits : List (Edit α))
    (applied : Applied i j items edits result) (edit : Edit α) (listed : edit ∈ edits) (k : Nat)
    (item : α) (put : edit.made[k]? = some item) : result[edit.after + k - j]? = some item := by
  induction applied with
  | rest => cases listed
  | edit i j kept items result first edits old new next ih =>
    have behind := applied_behind _ _ _ _ _ next
    rcases List.mem_cons.1 listed with rfl | later
    · have within := (List.getElem?_eq_some_iff.1 put).1
      rw [List.getElem?_append_right (by omega), List.getElem?_append_left (by omega)]
      have place : edit.after + k - j - kept.length = k := by omega
      rw [place]
      exact put
    · have past := (behind edit later).2
      rw [List.getElem?_append_right (by omega), List.getElem?_append_right (by omega)]
      have place : edit.after + k - j - kept.length - first.made.length =
          edit.after + k - (first.after + first.made.length) := by omega
      rw [place]
      exact ih later

/-- Where nothing is left, every item of what is passed over was taken out. -/
theorem applied_nothing (i j : Nat) (items : List α) (edits : List (Edit α))
    (applied : Applied i j items edits []) :
    ∀ n, i < n → n ≤ i + items.length → Takes edits n := by
  generalize absent : ([] : List α) = result at applied
  induction applied with
  | rest i j items =>
    intro n past within
    rw [← absent, List.length_nil] at within
    omega
  | edit i j kept items result edit edits old new next ih =>
    obtain ⟨rfl, tail⟩ := List.append_eq_nil_iff.1 absent.symm
    obtain ⟨-, rest⟩ := List.append_eq_nil_iff.1 tail
    intro n past within
    rw [List.nil_append, List.length_append] at within
    rw [List.length_nil] at old
    by_cases own : n ≤ edit.before + edit.gone.length
    · exact ⟨edit, List.mem_cons_self, by omega, own⟩
    · obtain ⟨other, listed, place⟩ := ih rest.symm n (by omega) (by omega)
      exact ⟨other, List.mem_cons_of_mem _ listed, place⟩

/-- Where every item is taken out and nothing put in, nothing is left. -/
theorem applied_taken (i j : Nat) (items result : List α) (edits : List (Edit α))
    (applied : Applied i j items edits result) (bare : ∀ edit ∈ edits, edit.made = [])
    (taken : ∀ n, i < n → n ≤ i + items.length → Takes edits n) : result = [] := by
  induction applied with
  | rest i j items =>
    cases items with
    | nil => rfl
    | cons item items =>
      obtain ⟨edit, listed, -⟩ := taken (i + 1) (by omega) (by rw [List.length_cons]; omega)
      cases listed
  | edit i j kept items result edit edits old new next ih =>
    have behind := applied_behind _ _ _ _ _ next
    have empty : kept = [] := by
      cases kept with
      | nil => rfl
      | cons item kept =>
        rw [List.length_cons] at old
        obtain ⟨other, listed, low, -⟩ := taken (i + 1) (by omega)
          (by simp only [List.length_append, List.length_cons]; omega)
        rcases List.mem_cons.1 listed with rfl | later
        · omega
        · have past := (behind other later).1
          omega
    rw [empty, List.length_nil] at old
    rw [empty, bare edit List.mem_cons_self,
      ih (fun other listed => bare other (List.mem_cons_of_mem _ listed)) ?_]
    · rfl
    · intro n past within
      obtain ⟨other, listed, low, high⟩ := taken n (by omega)
        (by simp only [List.length_append, empty, List.length_nil]; omega)
      rcases List.mem_cons.1 listed with rfl | later
      · omega
      · exact ⟨other, later, low, high⟩

/-- With no old items left, every item is one that an edit puts in at its place. -/
theorem applied_new (i j : Nat) (result : List α) (edits : List (Edit α))
    (applied : Applied i j [] edits result) (p : Nat) (item : α) (there : result[p]? = some item) :
    ∃ edit ∈ edits, ∃ k, edit.made[k]? = some item ∧ edit.after + k = j + p := by
  generalize absent : ([] : List α) = items at applied
  induction applied generalizing p with
  | rest i j items =>
    rw [← absent, List.getElem?_nil] at there
    cases there
  | edit i j kept items result edit edits old new next ih =>
    obtain ⟨rfl, tail⟩ := List.append_eq_nil_iff.1 absent.symm
    obtain ⟨-, rest⟩ := List.append_eq_nil_iff.1 tail
    rw [List.nil_append] at there
    rw [List.length_nil] at new
    by_cases own : p < edit.made.length
    · rw [List.getElem?_append_left own] at there
      exact ⟨edit, List.mem_cons_self, p, there, by omega⟩
    · rw [List.getElem?_append_right (by omega)] at there
      obtain ⟨other, listed, k, put, place⟩ := ih (p - edit.made.length) there rest.symm
      exact ⟨other, List.mem_cons_of_mem _ listed, k, put, by omega⟩

theorem applied_mem (i j : Nat) (items result : List α) (edits : List (Edit α))
    (applied : Applied i j items edits result) (item : α) (listed : item ∈ result) :
    item ∈ items ∨ ∃ edit ∈ edits, item ∈ edit.made := by
  induction applied with
  | rest => exact .inl listed
  | edit i j kept items result edit edits old new next ih =>
    rcases List.mem_append.1 listed with held | rest
    · exact .inl (List.mem_append_left _ held)
    · rcases List.mem_append.1 rest with put | later
      · exact .inr ⟨edit, List.mem_cons_self, put⟩
      · rcases ih later with held | ⟨other, among, put⟩
        · exact .inl (List.mem_append_right _ (List.mem_append_right _ held))
        · exact .inr ⟨other, List.mem_cons_of_mem _ among, put⟩

theorem made_mem (i j : Nat) (items result : List α) (edits : List (Edit α))
    (applied : Applied i j items edits result) (edit : Edit α) (listed : edit ∈ edits)
    (item : α) (put : item ∈ edit.made) : item ∈ result := by
  obtain ⟨k, there⟩ := List.mem_iff_getElem?.1 put
  exact List.mem_of_getElem? (applied_made i j items result edits applied edit listed k item there)

theorem takes_later (edit : Edit α) (edits : List (Edit α)) (n : Nat)
    (past : edit.before + edit.gone.length < n) (taken : Takes (edit :: edits) n) :
    Takes edits n := by
  obtain ⟨other, listed, low, high⟩ := taken
  rcases List.mem_cons.1 listed with rfl | later
  · omega
  · exact ⟨other, later, low, high⟩

theorem takes_cons (edit : Edit α) (edits : List (Edit α)) (n : Nat)
    (taken : Takes edits n) : Takes (edit :: edits) n := by
  obtain ⟨other, listed, place⟩ := taken
  exact ⟨other, List.mem_cons_of_mem _ listed, place⟩

theorem applied_empty (i j : Nat) (items result : List α) (edits : List (Edit α))
    (applied : Applied i j items edits result) (empty : items = []) :
    ∀ edit ∈ edits, edit.gone = [] ∧ edit.before = i := by
  induction applied with
  | rest => exact fun edit listed => absurd listed List.not_mem_nil
  | edit i j kept items result edit edits old new next ih =>
    obtain ⟨rfl, tail⟩ := List.append_eq_nil_iff.1 empty
    obtain ⟨gone, rest⟩ := List.append_eq_nil_iff.1 tail
    rw [List.length_nil, Nat.add_zero] at old
    rw [gone, List.length_nil, Nat.add_zero, old] at ih
    rw [List.forall_mem_cons]
    exact ⟨⟨gone, old⟩, ih rest⟩

theorem ended_mem (lf : α) (line : List α) (ended : ∃ body, lf ∉ body ∧ line = body ++ [lf]) :
    lf ∈ line := by
  obtain ⟨body, -, rfl⟩ := ended
  exact List.mem_append_right _ List.mem_cons_self

end

section
variable {α : Type} [DecidableEq α] (lf : α)
open Markers

/-! ### Lists of lines -/

/-- A line, or the rest of a text: an end, if it has one, comes last. -/
def Lineish (line : List α) : Prop := ∃ body, lf ∉ body ∧ (line = body ++ [lf] ∨ line = body)

def Readable (lines : List (List α)) : Prop := pieces lf lines.flatten = lines

theorem pieces_unended (line rest : List α) (plain : lf ∉ line) (more : rest ≠ []) :
    ∃ tail others, tail ≠ [] ∧ pieces lf (line ++ rest) = (line ++ tail) :: others := by
  induction rest using by_lines lf with
  | empty => exact absurd rfl more
  | last body absent present =>
    refine ⟨body, [], present, ?_⟩
    apply pieces_last
    · rw [List.mem_append, not_or]
      exact ⟨plain, absent⟩
    · exact List.append_ne_nil_of_right_ne_nil _ present
  | line body others absent ih =>
    refine ⟨body ++ [lf], pieces lf others, by simp, ?_⟩
    have whole : lf ∉ line ++ body := by
      rw [List.mem_append, not_or]
      exact ⟨plain, absent⟩
    rw [← List.append_assoc, pieces_line lf _ _ whole, List.append_assoc]

theorem pieces_ended (body rest : List α) (plain : lf ∉ body) :
    pieces lf (body ++ [lf] ++ rest) = (body ++ [lf]) :: pieces lf rest := by
  rw [List.append_assoc, List.singleton_append, pieces_line lf body rest plain]

theorem readable_ended (body : List α) (lines : List (List α)) (plain : lf ∉ body) :
    Readable lf ((body ++ [lf]) :: lines) ↔ Readable lf lines := by
  unfold Readable
  rw [List.flatten_cons, pieces_ended lf body _ plain, List.cons.injEq, and_iff_right rfl]

theorem readable_unended (line : List α) (lines : List (List α)) (plain : lf ∉ line)
    (nonempty : line ≠ []) : Readable lf (line :: lines) ↔ lines = [] := by
  unfold Readable
  rw [List.flatten_cons]
  constructor
  · intro same
    by_cases absent : lines.flatten = []
    · rw [absent, List.append_nil, pieces_last lf line plain nonempty] at same
      exact (List.cons.inj same).2.symm
    · obtain ⟨tail, others, more, read⟩ := pieces_unended lf line _ plain absent
      rw [read] at same
      have first := (List.cons.inj same).1
      exact absurd (List.append_right_eq_self.1 first) more
  · rintro rfl
    rw [List.flatten_nil, List.append_nil, pieces_last lf line plain nonempty]

theorem readable_nil : Readable lf ([] : List (List α)) := rfl

theorem readable_mem (lines : List (List α)) (readable : Readable lf lines) (line : List α)
    (listed : line ∈ lines) : line ≠ [] ∧ Lineish lf line := by
  rw [← readable] at listed
  obtain ⟨body, plain, shape⟩ := mem_pieces lf _ line listed
  rcases shape with rfl | ⟨rfl, present⟩
  · exact ⟨by simp, body, plain, .inl rfl⟩
  · exact ⟨present, line, plain, .inr rfl⟩

theorem readable_append (front lines : List (List α)) (more : lines ≠ []) :
    Readable lf (front ++ lines) ↔
      (∀ line ∈ front, ∃ body, lf ∉ body ∧ line = body ++ [lf]) ∧ Readable lf lines := by
  induction front with
  | nil => simp
  | cons line front ih =>
    rw [List.cons_append, List.forall_mem_cons, and_assoc, ← ih]
    constructor
    · intro readable
      obtain ⟨present, body, plain, ended | same⟩ :=
        readable_mem lf _ readable line List.mem_cons_self
      · rw [ended, readable_ended lf body _ plain] at readable
        exact ⟨⟨body, plain, ended⟩, readable⟩
      · rw [← same] at plain
        have absent := (readable_unended lf line _ plain present).1 readable
        exact absurd (List.append_eq_nil_iff.1 absent).2 more
    · rintro ⟨⟨body, plain, rfl⟩, readable⟩
      exact (readable_ended lf body _ plain).2 readable

theorem readable_last (lines : List (List α)) (readable : Readable lf lines) (p : Nat)
    (line : List α) (there : lines[p]? = some line) (plain : lf ∉ line) :
    p + 1 = lines.length := by
  obtain ⟨within, same⟩ := List.getElem?_eq_some_iff.1 there
  by_contra more
  have rest : lines.drop (p + 1) ≠ [] := by
    intro absent
    have length := congrArg List.length absent
    rw [List.length_drop, List.length_nil] at length
    omega
  rw [← List.take_append_drop (p + 1) lines] at readable
  have ends := ((readable_append lf _ _ rest).1 readable).1 line
    (List.mem_of_getElem? (i := p) (by rw [List.getElem?_take_of_lt (Nat.lt_succ_self p), there]))
  obtain ⟨body, -, rfl⟩ := ends
  exact plain (List.mem_append_right _ List.mem_cons_self)

theorem pieces_front (front : List (List α)) (rest : List α)
    (ended : ∀ line ∈ front, ∃ body, lf ∉ body ∧ line = body ++ [lf]) :
    pieces lf (front.flatten ++ rest) = front ++ pieces lf rest := by
  induction front with
  | nil => rfl
  | cons line front ih =>
    rw [List.forall_mem_cons] at ended
    obtain ⟨⟨body, plain, rfl⟩, others⟩ := ended
    rw [List.flatten_cons, List.append_assoc, pieces_ended lf body _ plain, ih others,
      List.cons_append]

/-- A text of lines has no more lines than were put together, and fewer behind an unended one. -/
theorem length_pieces (lines : List (List α)) (shaped : ∀ line ∈ lines, Lineish lf line) :
    (pieces lf lines.flatten).length ≤ lines.length ∧
      ∀ first : List α, lf ∉ first → first ≠ [] → lines ≠ [] →
        (pieces lf (first ++ lines.flatten)).length ≤ lines.length := by
  induction lines with
  | nil => exact ⟨Nat.le_refl 0, fun _ _ _ more => absurd rfl more⟩
  | cons line lines ih =>
    rw [List.forall_mem_cons] at shaped
    obtain ⟨⟨body, plain, shape⟩, others⟩ := shaped
    obtain ⟨few, fewer⟩ := ih others
    have behind (first : List α) (unended : lf ∉ first) (nonempty : first ≠ []) :
        (pieces lf (first ++ (line :: lines).flatten)).length ≤ (line :: lines).length := by
      have whole : lf ∉ first ++ body := by
        rw [List.mem_append, not_or]
        exact ⟨unended, plain⟩
      rw [List.flatten_cons, ← List.append_assoc, List.length_cons]
      rcases shape with rfl | rfl
      · rw [← List.append_assoc, pieces_ended lf _ _ whole, List.length_cons]
        exact Nat.succ_le_succ few
      · by_cases last : lines = []
        · rw [last, List.flatten_nil, List.append_nil,
            pieces_last lf _ whole (List.append_ne_nil_of_left_ne_nil nonempty _)]
          exact Nat.le_add_left 1 _
        · exact (fewer _ whole (List.append_ne_nil_of_left_ne_nil nonempty _) last).trans
            (Nat.le_succ _)
    refine ⟨?_, fun first unended nonempty _ => behind first unended nonempty⟩
    rcases shape with rfl | rfl
    · rw [List.flatten_cons, pieces_ended lf _ _ plain, List.length_cons, List.length_cons]
      exact Nat.succ_le_succ few
    · by_cases empty : line = []
      · rw [empty, List.flatten_cons, List.nil_append, List.length_cons]
        exact few.trans (Nat.le_succ _)
      · by_cases last : lines = []
        · rw [last, List.flatten_cons, List.flatten_nil, List.append_nil,
            pieces_last lf _ plain empty]
        · rw [List.flatten_cons, List.length_cons]
          exact (fewer line plain empty last).trans (Nat.le_succ _)

/-! ### Edited lines -/

/-- The kept lines end, or the last one does not and nothing old is left behind it. -/
theorem kept_ends (kept rest : List (List α)) (readable : Readable lf (kept ++ rest)) :
    (∀ line ∈ kept, ∃ body, lf ∉ body ∧ line = body ++ [lf]) ∨
      (rest = [] ∧ ∃ front line, kept = front ++ [line] ∧ lf ∉ line ∧ line ≠ [] ∧
        ∀ line ∈ front, ∃ body, lf ∉ body ∧ line = body ++ [lf]) := by
  by_cases more : rest = []
  · subst more
    rw [List.append_nil] at readable
    rcases List.eq_nil_or_concat kept with rfl | ⟨front, last, rfl⟩
    · exact .inl fun line listed => absurd listed List.not_mem_nil
    · rw [List.concat_eq_append] at readable ⊢
      obtain ⟨ended, -⟩ := (readable_append lf front [last] (by simp)).1 readable
      obtain ⟨present, body, plain, shape | shape⟩ :=
        readable_mem lf _ readable last (List.mem_append_right _ List.mem_cons_self)
      · left
        intro line listed
        rcases List.mem_append.1 listed with before | same
        · exact ended line before
        · rw [List.mem_singleton.1 same]
          exact ⟨body, plain, shape⟩
      · right
        rw [← shape] at plain
        exact ⟨rfl, front, last, rfl, plain, present, ended⟩
  · exact .inl ((readable_append lf kept rest more).1 readable).1

theorem readable_rest (kept rest : List (List α)) (readable : Readable lf (kept ++ rest)) :
    Readable lf rest := by
  by_cases more : rest = []
  · rw [more]
    exact readable_nil lf
  · exact ((readable_append lf kept rest more).1 readable).2

theorem readable_made (made rest : List (List α))
    (placed : ∀ (k : Nat) (line : List α), made[k]? = some line →
      (pieces lf (made ++ rest).flatten)[k]? = some line)
    (filled : rest.flatten = [] → rest = [])
    (rest' : (∀ line ∈ made, ∃ body, lf ∉ body ∧ line = body ++ [lf]) → Readable lf rest) :
    Readable lf (made ++ rest) := by
  induction made with
  | nil => exact rest' fun line listed => absurd listed List.not_mem_nil
  | cons line made ih =>
    have first := placed 0 line rfl
    obtain ⟨body, plain, shape⟩ := mem_pieces lf _ line (List.mem_of_getElem? first)
    rcases shape with rfl | ⟨rfl, present⟩
    · rw [List.cons_append, readable_ended lf body _ plain]
      apply ih
      · intro k other there
        have next := placed (k + 1) other there
        rw [List.cons_append, List.flatten_cons, pieces_ended lf body _ plain,
          List.getElem?_cons_succ] at next
        exact next
      · intro ended
        apply rest'
        rw [List.forall_mem_cons]
        exact ⟨⟨body, plain, rfl⟩, ended⟩
    · rw [List.cons_append, readable_unended lf line _ plain present]
      have empty : (made ++ rest).flatten = [] := by
        by_contra more
        obtain ⟨tail, others, tailed, read⟩ := pieces_unended lf line _ plain more
        rw [List.cons_append, List.flatten_cons, read] at first
        have same := Option.some.inj first
        exact tailed (List.append_right_eq_self.1 same)
      have alone : made = [] := by
        cases made with
        | nil => rfl
        | cons other made =>
          have next := placed 1 other rfl
          rw [List.cons_append, List.flatten_cons, empty, List.append_nil,
            pieces_last lf line plain present] at next
          cases next
      rw [alone, List.nil_append] at empty ⊢
      exact filled empty

/-- Where every line put in is read at its place, the whole is read line by line. -/
theorem readable_of_placed (i j : Nat) (items result : List (List α))
    (edits : List (Edit (List α))) (applied : Applied i j items edits result)
    (readable : Readable lf items)
    (shaped : ∀ edit ∈ edits, ∀ line ∈ edit.made, Lineish lf line)
    (placed : ∀ edit ∈ edits, ∀ k line, edit.made[k]? = some line →
      (pieces lf result.flatten)[edit.after + k - j]? = some line) : Readable lf result := by
  induction applied with
  | rest => exact readable
  | edit i j kept items result edit edits old new next ih =>
    have behind := applied_behind _ _ _ _ _ next
    rw [← List.append_assoc] at readable
    have readable' := readable_rest lf _ _ readable
    rw [List.append_assoc] at readable
    have full : ∀ line ∈ result, line ≠ [] := by
      intro line listed
      rcases applied_mem _ _ _ _ _ next line listed with held | ⟨other, among, put⟩
      · exact (readable_mem lf _ readable' line held).1
      · obtain ⟨k, there⟩ := List.mem_iff_getElem?.1 put
        obtain ⟨body, -, shape⟩ := mem_pieces lf _ line (List.mem_of_getElem?
          (placed other (List.mem_cons_of_mem _ among) k line there))
        rcases shape with rfl | ⟨rfl, present⟩
        · simp
        · exact present
    have filled : result.flatten = [] → result = [] := by
      intro absent
      cases result with
      | nil => rfl
      | cons line result =>
        rw [List.flatten_cons] at absent
        exact absurd (List.append_eq_nil_iff.1 absent).1 (full line List.mem_cons_self)
    rcases kept_ends lf kept _ readable with ended | ⟨last, front, line, rfl, plain, present, ended⟩
    · have read := pieces_front lf kept (edit.made ++ result).flatten ended
      have whole : (kept ++ (edit.made ++ result)).flatten =
          kept.flatten ++ (edit.made ++ result).flatten := List.flatten_append
      have made : Readable lf (edit.made ++ result) := by
        apply readable_made lf edit.made result ?_ filled
        · intro ends
          apply ih readable' fun other among => shaped other (List.mem_cons_of_mem _ among)
          intro other among k line there
          have place := placed other (List.mem_cons_of_mem _ among) k line there
          have past := (behind other among).2
          have split : (edit.made ++ result).flatten = edit.made.flatten ++ result.flatten :=
            List.flatten_append
          rw [whole, read, List.getElem?_append_right (by omega), split,
            pieces_front lf edit.made _ ends, List.getElem?_append_right (by omega)] at place
          rw [← place]
          congr 1
          omega
        · intro k line there
          have place := placed edit List.mem_cons_self k line there
          rw [whole, read, List.getElem?_append_right (by omega)] at place
          rw [← place]
          congr 1
          omega
      by_cases more : edit.made ++ result = []
      · rw [more, List.append_nil]
        exact (by
          unfold Readable
          rw [← List.append_nil kept.flatten, pieces_front lf kept [] ended]
          exact List.append_nil kept)
      · exact (readable_append lf kept _ more).2 ⟨ended, made⟩
    · obtain ⟨-, rest⟩ := List.append_eq_nil_iff.1 last
      subst rest
      by_cases more : edit.made ++ result = []
      · rw [more, List.append_nil]
        exact (readable_append lf front [line] (by simp)).2
          ⟨ended, (readable_unended lf line [] plain present).2 rfl⟩
      · exfalso
        have all : Applied edit.before edit.after [] (edit :: edits) (edit.made ++ result) := by
          have absent := (List.append_eq_nil_iff.1 last).1
          have start := Applied.edit edit.before edit.after [] [] result edit edits rfl rfl next
          rw [absent] at start
          exact start
        have size : (edit.made ++ result).length ≠ 0 := fun zero =>
          more (List.eq_nil_of_length_eq_zero zero)
        obtain ⟨other, among, k, put, place⟩ := applied_new _ _ _ _ all
          ((edit.made ++ result).length - 1) _
          (List.getElem?_eq_getElem (Nat.sub_lt (Nat.pos_of_ne_zero size) Nat.one_pos))
        have there := (List.getElem?_eq_some_iff.1 (placed other among k _ put)).1
        have lines : ∀ line ∈ edit.made ++ result, Lineish lf line := by
          intro line listed
          rcases applied_mem _ _ _ _ _ all line listed with held | ⟨one, within, put⟩
          · cases held
          · exact shaped one within line put
        have few := (length_pieces lf (edit.made ++ result) lines).2 line plain present more
        have whole : (front ++ [line] ++ (edit.made ++ result)).flatten =
            front.flatten ++ (line ++ (edit.made ++ result).flatten) := by
          rw [List.append_assoc, List.flatten_append, List.singleton_append, List.flatten_cons]
        rw [whole, pieces_front lf front _ ended, List.length_append] at there
        rw [List.length_append, List.length_singleton] at new
        omega

/-! ### What keeps edited lines readable -/

def EndsLast (lines : List (List α)) : Prop :=
  lines.Pairwise fun one _ => lf ∈ one

/-- What an edited list needs to be read again: no empty line put in, behind a line without an end
nothing is kept, and nothing put in behind an old one that is kept. -/
structure Safe (i : Nat) (items : List (List α)) (edits : List (Edit (List α))) : Prop where
  filled : ∀ edit ∈ edits, ∀ line ∈ edit.made, line ≠ []
  ended : ∀ edit ∈ edits, (∃ line ∈ edit.made, lf ∉ line) →
    ∀ n, edit.before + edit.gone.length < n → n ≤ i + items.length → Takes edits n
  last : (∃ line, items.getLast? = some line ∧ lf ∉ line) →
    (∃ edit ∈ edits, edit.gone = [] ∧ edit.made ≠ [] ∧ edit.before = i + items.length) →
      Takes edits (i + items.length)

theorem ended_of_readable (i j : Nat) (items result : List (List α))
    (edits : List (Edit (List α))) (applied : Applied i j items edits result)
    (readable : Readable lf result) (edit : Edit (List α)) (listed : edit ∈ edits)
    (unended : ∃ line ∈ edit.made, lf ∉ line) :
    ∀ n, edit.before + edit.gone.length < n → n ≤ i + items.length → Takes edits n := by
  induction applied with
  | rest => cases listed
  | edit i j kept items result first edits old new next ih =>
    have readable' := readable_rest lf _ _ (readable_rest lf _ _ readable)
    intro n past within
    simp only [List.length_append] at within
    apply takes_cons
    rcases List.mem_cons.1 listed with rfl | later
    · have empty : result = [] := by
        by_contra more
        obtain ⟨line, put, plain⟩ := unended
        have ends := (readable_append lf _ _ more).1 (readable_rest lf _ _ readable)
        exact plain (ended_mem lf line (ends.1 line put))
      rw [empty] at next
      exact applied_nothing _ _ _ _ next n past (by omega)
    · exact ih readable' later n past (by omega)

/-- Behind an old last line without its end that is kept, a readable list puts nothing. -/
theorem last_of_readable (i j : Nat) (items result : List (List α))
    (edits : List (Edit (List α))) (applied : Applied i j items edits result)
    (readable : Readable lf result)
    (unended : ∃ line, items.getLast? = some line ∧ lf ∉ line)
    (behind : ∃ edit ∈ edits, edit.gone = [] ∧ edit.made ≠ [] ∧ edit.before = i + items.length) :
    Takes edits (i + items.length) := by
  induction applied with
  | rest =>
    obtain ⟨edit, listed, -⟩ := behind
    cases listed
  | edit i j kept items result first edits old new next ih =>
    have readable' := readable_rest lf _ _ (readable_rest lf _ _ readable)
    obtain ⟨line, last, plain⟩ := unended
    obtain ⟨edit, listed, gone, made, place⟩ := behind
    simp only [List.length_append] at place ⊢
    by_cases more : items = []
    · subst more
      rw [List.append_nil] at last
      rw [List.length_nil] at place ⊢
      by_cases untaken : first.gone = []
      · exfalso
        rw [untaken, List.append_nil] at last
        have put : first.made ++ result ≠ [] := by
          intro absent
          obtain ⟨made', rest⟩ := List.append_eq_nil_iff.1 absent
          rcases List.mem_cons.1 listed with rfl | later
          · exact made made'
          · obtain ⟨other, there⟩ := List.exists_mem_of_ne_nil _ made
            have inside := made_mem _ _ _ _ _ next edit later other there
            rw [rest] at inside
            cases inside
        have ends := ((readable_append lf kept _ put).1 readable).1
        exact plain (ended_mem lf line (ends line (List.mem_of_getLast? last)))
      · have width := List.length_pos_of_ne_nil untaken
        exact ⟨first, List.mem_cons_self, by omega, by omega⟩
    · have nonempty := List.length_pos_of_ne_nil more
      rcases List.mem_cons.1 listed with rfl | later
      · omega
      · rw [← List.append_assoc, List.getLast?_append_of_ne_nil _ more] at last
        have taken := ih readable' ⟨line, last, plain⟩ ⟨edit, later, gone, made, by omega⟩
        have total : i + (kept.length + (first.gone.length + items.length)) =
            first.before + first.gone.length + items.length := by omega
        rw [total]
        exact takes_cons first edits _ taken

theorem safe_of_readable (i j : Nat) (items result : List (List α))
    (edits : List (Edit (List α))) (applied : Applied i j items edits result)
    (readable : Readable lf result) : Safe lf i items edits where
  filled edit listed line put :=
    (readable_mem lf result readable line
      (made_mem i j items result edits applied edit listed line put)).1
  ended := ended_of_readable lf i j items result edits applied readable
  last := last_of_readable lf i j items result edits applied readable

theorem readable_lines (lines : List (List α)) (shaped : ∀ line ∈ lines, Lineish lf line)
    (filled : ∀ line ∈ lines, line ≠ []) (order : EndsLast lf lines) : Readable lf lines := by
  induction lines with
  | nil => exact readable_nil lf
  | cons line lines ih =>
    rw [List.forall_mem_cons] at shaped filled
    obtain ⟨before, order'⟩ := List.pairwise_cons.1 order
    obtain ⟨⟨body, plain, shape⟩, shaped'⟩ := shaped
    rcases shape with rfl | rfl
    · exact (readable_ended lf body lines plain).2 (ih shaped' filled.2 order')
    · apply (readable_unended lf line lines plain filled.1).2
      cases lines with
      | nil => rfl
      | cons other lines => exact absurd (before other List.mem_cons_self) plain

omit [DecidableEq α] in
theorem safe_rest (i : Nat) (kept items : List (List α)) (edit : Edit (List α))
    (edits : List (Edit (List α))) (old : edit.before = i + kept.length)
    (behind : ∀ other ∈ edits, edit.before + edit.gone.length ≤ other.before)
    (safe : Safe lf i (kept ++ (edit.gone ++ items)) (edit :: edits)) :
    Safe lf (edit.before + edit.gone.length) items edits where
  filled other listed := safe.filled other (List.mem_cons_of_mem _ listed)
  ended other listed opened n past within := by
    have low := behind other listed
    apply takes_later edit edits n (by omega)
    apply safe.ended other (List.mem_cons_of_mem _ listed) opened n past
    simp only [List.length_append]
    omega
  last opened put := by
    obtain ⟨line, last, plain⟩ := opened
    obtain ⟨other, listed, gone, made, place⟩ := put
    have nonempty : items ≠ [] := by
      rintro rfl
      cases last
    have size := List.length_pos_of_ne_nil nonempty
    have total : i + (kept ++ (edit.gone ++ items)).length =
        edit.before + edit.gone.length + items.length := by
      simp only [List.length_append]
      omega
    apply takes_later edit edits _ (by omega)
    rw [← total]
    apply safe.last
    · rw [← List.append_assoc, List.getLast?_append_of_ne_nil _ nonempty]
      exact ⟨line, last, plain⟩
    · exact ⟨other, List.mem_cons_of_mem _ listed, gone, made, place.trans total.symm⟩

theorem readable_of_safe (i j : Nat) (items result : List (List α))
    (edits : List (Edit (List α))) (applied : Applied i j items edits result)
    (readable : Readable lf items)
    (shaped : ∀ edit ∈ edits, ∀ line ∈ edit.made, Lineish lf line)
    (order : EndsLast lf (edits.flatMap (·.made))) (safe : Safe lf i items edits) :
    Readable lf result := by
  induction applied with
  | rest => exact readable
  | edit i j kept items result edit edits old new next ih =>
    have behind := applied_behind _ _ _ _ _ next
    rw [← List.append_assoc] at readable
    have readable' := readable_rest lf _ _ readable
    rw [List.append_assoc] at readable
    rw [List.forall_mem_cons] at shaped
    unfold EndsLast at order ih
    rw [List.flatMap_cons, List.pairwise_append] at order
    obtain ⟨own, order', across⟩ := order
    have result' : Readable lf result := ih readable' shaped.2 order'
      (safe_rest lf i kept items edit edits old (fun other among => (behind other among).1) safe)
    have filled := safe.filled edit List.mem_cons_self
    have made : Readable lf (edit.made ++ result) := by
      by_cases ended : ∀ line ∈ edit.made, lf ∈ line
      · by_cases more : result = []
        · rw [more, List.append_nil]
          exact readable_lines lf edit.made shaped.1 filled own
        · refine (readable_append lf _ _ more).2 ⟨fun line put => ?_, result'⟩
          obtain ⟨body, plain, rfl | rfl⟩ := shaped.1 line put
          · exact ⟨body, plain, rfl⟩
          · exact absurd (ended line put) plain
      · obtain ⟨line, unended⟩ := not_forall.1 ended
        obtain ⟨put, plain⟩ := Classical.not_imp.1 unended
        have bare : ∀ other ∈ edits, other.made = [] := by
          intro other among
          by_contra more
          obtain ⟨later, there⟩ := List.exists_mem_of_ne_nil _ more
          exact plain (across line put later (List.mem_flatMap.2 ⟨other, among, there⟩))
        have taken : ∀ n, edit.before + edit.gone.length < n →
            n ≤ edit.before + edit.gone.length + items.length → Takes edits n := by
          intro n past within
          apply takes_later edit edits n past
          apply safe.ended edit List.mem_cons_self ⟨line, put, plain⟩ n past
          simp only [List.length_append]
          omega
        rw [applied_taken _ _ _ _ _ next bare taken, List.append_nil]
        exact readable_lines lf edit.made shaped.1 filled own
    by_cases more : edit.made ++ result = []
    · rw [more, List.append_nil]
      rcases kept_ends lf kept _ readable with ended | ⟨-, front, line, rfl, plain, present, ended⟩
      · unfold Readable
        rw [← List.append_nil kept.flatten, pieces_front lf kept [] ended]
        exact List.append_nil kept
      · exact (readable_append lf front [line] (by simp)).2
          ⟨ended, (readable_unended lf line [] plain present).2 rfl⟩
    · rcases kept_ends lf kept _ readable with ended | ⟨last, front, line, same, plain, -, -⟩
      · exact (readable_append lf kept _ more).2 ⟨ended, made⟩
      · exfalso
        obtain ⟨gone, rest⟩ := List.append_eq_nil_iff.1 last
        subst rest
        have empty := applied_empty _ _ _ _ _ next rfl
        rw [gone, List.length_nil, Nat.add_zero] at empty
        have total : i + (kept ++ (edit.gone ++ [])).length = edit.before := by
          rw [last, List.append_nil]
          exact old.symm
        have behind' : ∃ other ∈ edit :: edits, other.gone = [] ∧ other.made ≠ [] ∧
            other.before = i + (kept ++ (edit.gone ++ [])).length := by
          by_cases unmade : edit.made = []
          · rw [unmade, List.nil_append] at more
            obtain ⟨held, there⟩ := List.exists_mem_of_ne_nil _ more
            rcases applied_mem _ _ _ _ _ next held there with old' | ⟨other, among, put⟩
            · cases old'
            · exact ⟨other, List.mem_cons_of_mem _ among, (empty other among).1,
                List.ne_nil_of_mem put, (empty other among).2.trans total.symm⟩
          · exact ⟨edit, List.mem_cons_self, gone, unmade, total.symm⟩
        have unterminated : ∃ line, (kept ++ (edit.gone ++ [])).getLast? = some line ∧ lf ∉ line := by
          rw [last, List.append_nil, same]
          exact ⟨line, List.getLast?_concat, plain⟩
        obtain ⟨other, listed, low, high⟩ := safe.last unterminated behind'
        rw [total] at low high
        rcases List.mem_cons.1 listed with rfl | later
        · omega
        · rw [(empty other later).2] at low
          exact Nat.lt_irrefl _ low

/-- Edited lines can be read again exactly when each line put in is read at its place. -/
theorem readable_iff_placed (i j : Nat) (items result : List (List α))
    (edits : List (Edit (List α))) (applied : Applied i j items edits result)
    (readable : Readable lf items)
    (shaped : ∀ edit ∈ edits, ∀ line ∈ edit.made, Lineish lf line) :
    Readable lf result ↔ ∀ edit ∈ edits, ∀ k line, edit.made[k]? = some line →
      (pieces lf result.flatten)[edit.after + k - j]? = some line := by
  constructor
  · intro whole edit listed k line there
    rw [whole]
    exact applied_made i j items result edits applied edit listed k line there
  · exact readable_of_placed lf i j items result edits applied readable shaped

end

end DeepDiffForge.Edits
