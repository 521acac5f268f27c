import DeepDiffForge.Lib.Markers

/-! A stream as its reads bring it, and a line of it read within a limit. -/

namespace DeepDiffForge.Reads
open Markers

variable {α : Type}

/-- What is left of a stream, cut as its reads bring it: no read is empty before the end. -/
structure Reader (α : Type) where
  chunks : List (List α)
  filled : ∀ chunk ∈ chunks, chunk ≠ []

namespace Reader

def items (reader : Reader α) : List α := reader.chunks.flatten

def available (reader : Reader α) : List α := reader.chunks.headD []

def keep (count : Nat) : List (List α) → List (List α)
  | [] => []
  | chunk :: rest => if chunk.length ≤ count then rest else chunk.drop count :: rest

def consume (reader : Reader α) (count : Nat) : Reader α where
  chunks := keep count reader.chunks
  filled := by
    intro chunk listed
    obtain ⟨chunks, filled⟩ := reader
    cases chunks with
    | nil => exact absurd listed List.not_mem_nil
    | cons first rest =>
      rw [keep] at listed
      split_ifs at listed with whole
      · exact filled chunk (List.mem_cons_of_mem _ listed)
      · rcases List.mem_cons.1 listed with rfl | listed
        · rw [ne_eq, List.drop_eq_nil_iff]
          exact whole
        · exact filled chunk (List.mem_cons_of_mem _ listed)

theorem items_available (reader : Reader α) :
    ∃ rest, reader.items = reader.available ++ rest := by
  obtain ⟨chunks, filled⟩ := reader
  cases chunks with
  | nil => exact ⟨[], rfl⟩
  | cons first rest => exact ⟨rest.flatten, rfl⟩

/-- Nothing is available only at the end. -/
theorem available_eq_nil (reader : Reader α) : reader.available = [] ↔ reader.items = [] := by
  obtain ⟨chunks, filled⟩ := reader
  cases chunks with
  | nil => exact Iff.rfl
  | cons first rest =>
    have present := filled first (List.mem_cons_self ..)
    constructor
    · intro absent
      exact absurd absent present
    · intro absent
      exact absurd (List.append_eq_nil_iff.1 absent).1 present

theorem items_consume (reader : Reader α) (count : Nat)
    (within : count ≤ reader.available.length) :
    (reader.consume count).items = reader.items.drop count := by
  obtain ⟨chunks, filled⟩ := reader
  cases chunks with
  | nil =>
    change [] = [].drop count
    rw [List.drop_nil]
  | cons first rest =>
    change count ≤ first.length at within
    change (keep count (first :: rest)).flatten = (first ++ rest.flatten).drop count
    rw [keep]
    split_ifs with whole
    · rw [Nat.le_antisymm within whole, List.drop_left]
    · rw [List.drop_append_of_le_length within, List.flatten_cons]

theorem take_consume (reader : Reader α) (count : Nat)
    (within : count ≤ reader.available.length) :
    reader.available.take count ++ (reader.consume count).items = reader.items := by
  obtain ⟨rest, whole⟩ := reader.items_available
  rw [items_consume reader count within, whole, List.drop_append_of_le_length within,
    ← List.append_assoc, List.take_append_drop]

theorem length_consume (reader : Reader α) (count : Nat) (positive : 0 < count)
    (within : count ≤ reader.available.length) :
    (reader.consume count).items.length < reader.items.length := by
  have whole := congrArg List.length (reader.take_consume count within)
  rw [List.length_append, List.length_take] at whole
  omega

end Reader

section UpTo
variable [DecidableEq α] (lf : α)

/-- The first line, up to and with its end. -/
def upTo : List α → List α
  | [] => []
  | x :: rest => if x = lf then [x] else x :: upTo rest

theorem upTo_take (items : List α) (limit : Nat) :
    upTo lf (items.take limit) = (upTo lf items).take limit := by
  induction items generalizing limit with
  | nil => rw [List.take_nil, upTo, List.take_nil]
  | cons x items ih =>
    cases limit with
    | zero => rfl
    | succ limit =>
      rw [List.take_succ_cons, upTo, upTo]
      split_ifs
      · rw [List.take_succ_cons, List.take_nil]
      · rw [List.take_succ_cons, ih]

theorem upTo_found (items : List α) (place : Nat)
    (found : items.findIdx? (· = lf) = some place) (more : List α) :
    upTo lf (items ++ more) = items.take (place + 1) := by
  induction items generalizing place with
  | nil => cases found
  | cons x items ih =>
    rw [List.findIdx?_cons] at found
    rw [List.cons_append, upTo]
    split_ifs with same
    · rw [if_pos (decide_eq_true same), Option.some.injEq] at found
      rw [← found]
      rfl
    · rw [if_neg (by simpa using same), Option.map_eq_some_iff] at found
      obtain ⟨before, found, rfl⟩ := found
      rw [List.take_succ_cons, ih before found]

theorem upTo_absent (items : List α) (absent : items.findIdx? (· = lf) = none) (more : List α) :
    upTo lf (items ++ more) = items ++ upTo lf more := by
  induction items with
  | nil => rfl
  | cons x items ih =>
    rw [List.findIdx?_cons] at absent
    split_ifs at absent with same
    rw [Option.map_eq_none_iff] at absent
    rw [List.cons_append, upTo, if_neg (by simpa using same), ih absent, List.cons_append]

/-- A search through what is available ends at a line's end or at the end of it. -/
theorem found_within (items : List α) (nonempty : items ≠ []) :
    0 < (items.findIdx? (· = lf)).elim items.length (· + 1) ∧
      (items.findIdx? (· = lf)).elim items.length (· + 1) ≤ items.length := by
  cases found : items.findIdx? (· = lf) with
  | none => exact ⟨List.length_pos_iff.2 nonempty, Nat.le_refl _⟩
  | some place => exact ⟨Nat.succ_pos _, (List.findIdx?_eq_some_iff_findIdx_eq.1 found).1⟩

theorem takeWhile_found (items : List α) (place : Nat)
    (found : items.findIdx? (· = lf) = some place) (more : List α) :
    (items ++ more).takeWhile (· ≠ lf) = items.take place := by
  induction items generalizing place with
  | nil => cases found
  | cons x items ih =>
    rw [List.findIdx?_cons] at found
    split_ifs at found with same
    · obtain rfl := Option.some.inj found
      rw [List.cons_append, List.takeWhile_cons_of_neg (by simpa using same), List.take_zero]
    · obtain ⟨before, earlier, rfl⟩ := Option.map_eq_some_iff.1 found
      rw [List.cons_append, List.takeWhile_cons_of_pos (by simpa using same), List.take_succ_cons,
        ih before earlier]

theorem takeWhile_absent (items : List α) (absent : items.findIdx? (· = lf) = none)
    (more : List α) : (items ++ more).takeWhile (· ≠ lf) = items ++ more.takeWhile (· ≠ lf) := by
  refine List.takeWhile_append_of_pos fun item listed => ?_
  have apart := List.findIdx?_eq_none_iff.1 absent item listed
  simpa using apart

theorem bare_upTo (items : List α) : bare lf (upTo lf items) = items.takeWhile (· ≠ lf) := by
  induction items with
  | nil => rfl
  | cons x items ih =>
    rw [upTo]
    split_ifs with same
    · rw [bare, List.takeWhile_cons_of_neg (by simpa using same),
        List.takeWhile_cons_of_neg (by simpa using same)]
    · rw [bare, List.takeWhile_cons_of_pos (by simpa using same),
        List.takeWhile_cons_of_pos (by simpa using same)]
      exact congrArg (x :: ·) ih

theorem pieces_upTo (items : List α) (nonempty : items ≠ []) :
    pieces lf items = upTo lf items :: pieces lf (items.drop (upTo lf items).length) := by
  induction items with
  | nil => exact absurd rfl nonempty
  | cons x items ih =>
    rw [pieces, upTo]
    split_ifs with same
    · rfl
    · rw [List.length_cons, List.drop_succ_cons]
      by_cases absent : items = []
      · rw [absent]
        rfl
      · rw [ih absent]

theorem length_upTo (items : List α) : (upTo lf items).length ≤ items.length := by
  induction items with
  | nil => exact Nat.le_refl 0
  | cons x items ih =>
    rw [upTo]
    split_ifs
    · exact Nat.succ_le_succ (Nat.zero_le _)
    · exact Nat.succ_le_succ ih

theorem upTo_eq_nil (items : List α) : upTo lf items = [] ↔ items = [] := by
  cases items with
  | nil => exact Iff.rfl
  | cons x items =>
    rw [upTo]
    split_ifs <;> simp

end UpTo

section Read
variable [DecidableEq α] (lf : α)

/-- A line read onto what is held, within `limit` more items. -/
def readUntil (limit : Nat) (reader : Reader α) (held : List α) : List α × Reader α :=
  let available := reader.available.take limit
  match available.findIdx? (· = lf) with
  | some place => (held ++ available.take (place + 1), reader.consume (place + 1))
  | none =>
      if available = [] then (held, reader)
      else readUntil (limit - available.length) (reader.consume available.length) (held ++ available)
termination_by limit
decreasing_by
  rename_i present
  have positive : 0 < (reader.available.take limit).length := List.length_pos_iff.2 present
  have most : (reader.available.take limit).length ≤ limit := List.length_take_le ..
  change limit - (reader.available.take limit).length < limit
  omega

theorem readUntil_zero (reader : Reader α) (held : List α) :
    readUntil lf 0 reader held = (held, reader) := by
  rw [readUntil]
  rfl

/-- However the stream is cut, its first line is read, or as much of it as the limit lets. -/
theorem readUntil_eq (limit : Nat) (reader : Reader α) (held : List α) :
    (readUntil lf limit reader held).1 = held ++ (upTo lf reader.items).take limit ∧
      (readUntil lf limit reader held).2.items =
        reader.items.drop ((upTo lf reader.items).take limit).length := by
  induction limit using Nat.strong_induction_on generalizing reader held with
  | _ limit ih =>
    obtain ⟨rest, whole⟩ := reader.items_available
    obtain ⟨chunk, named⟩ : ∃ chunk, chunk = reader.available.take limit := ⟨_, rfl⟩
    have length : chunk.length = min limit reader.available.length := by
      rw [named, List.length_take]
    have cut : reader.items = chunk ++ (reader.available.drop limit ++ rest) := by
      rw [whole, named, ← List.append_assoc, List.take_append_drop]
    rw [readUntil, ← named]
    cases found : chunk.findIdx? (· = lf) with
    | some place =>
      dsimp only
      have inside : place < chunk.length := (List.findIdx?_eq_some_iff_findIdx_eq.1 found).1
      have line := upTo_found lf chunk place found (reader.available.drop limit ++ rest)
      have short : (chunk.take (place + 1)).length = place + 1 := by
        rw [List.length_take]
        omega
      rw [cut, line, List.take_of_length_le (i := limit) (by omega), short, ← cut]
      exact ⟨rfl, reader.items_consume _ (by omega)⟩
    | none =>
      dsimp only
      split_ifs with empty
      · rw [empty, List.length_nil] at length
        have hollow : (upTo lf reader.items).take limit = [] := by
          rcases Nat.eq_zero_or_pos limit with rfl | positive
          · exact List.take_zero
          · have ends : reader.available = [] := List.length_eq_zero_iff.1 (by omega)
            rw [(reader.available_eq_nil).1 ends, upTo, List.take_nil]
        rw [hollow, List.append_nil, List.length_nil, List.drop_zero]
        exact ⟨rfl, rfl⟩
      · have positive := List.length_pos_iff.2 empty
        obtain ⟨line, left⟩ := ih (limit - chunk.length) (by omega) (reader.consume chunk.length)
          (held ++ chunk)
        have most : chunk.length ≤ limit := by omega
        rw [line, left, reader.items_consume _ (by omega)]
        rw [cut, upTo_absent lf chunk found, List.drop_left, List.take_append,
          List.take_of_length_le (l := chunk) most, List.append_assoc, List.length_append,
          ← List.drop_drop, List.drop_left]
        exact ⟨rfl, rfl⟩

end Read

end DeepDiffForge.Reads
