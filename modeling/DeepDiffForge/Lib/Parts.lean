import DeepDiffForge.Lib.Text

/-! The parts of a list between separators. -/

namespace DeepDiffForge.Parts
open Text

variable {α : Type} [DecidableEq α] (sep : α)

/-- The first part comes before the first separator, every other between two; one more separator
ends the last. -/
theorem splitOn_parts (whole : List α) :
    ∃ first rest, whole.splitOn sep = first :: rest ∧
      (∃ later, whole ++ [sep] = first ++ sep :: later) ∧
        ∀ part ∈ rest, ∃ earlier later, whole ++ [sep] = earlier ++ sep :: part ++ sep :: later := by
  induction whole with
  | nil => exact ⟨[], [], List.splitOn_nil sep, ⟨[], rfl⟩, nofun⟩
  | cons x whole ih =>
    obtain ⟨first, rest, split, ⟨later, start⟩, others⟩ := ih
    have onward (part : List α) (listed : part ∈ rest) :
        ∃ earlier later, x :: whole ++ [sep] = earlier ++ sep :: part ++ sep :: later := by
      obtain ⟨earlier, later, held⟩ := others part listed
      exact ⟨x :: earlier, later, by rw [List.cons_append, held]; rfl⟩
    rw [List.splitOn_cons_eq_if_modifyHead, split]
    by_cases same : x = sep
    · subst same
      rw [if_pos (beq_self_eq_true x)]
      refine ⟨[], first :: rest, rfl, ⟨whole ++ [x], rfl⟩, List.forall_mem_cons.2 ⟨?_, onward⟩⟩
      exact ⟨[], later, by rw [List.cons_append, start]; rfl⟩
    · rw [if_neg (by simpa using same)]
      exact ⟨x :: first, rest, rfl, ⟨later, by rw [List.cons_append, start]; rfl⟩, onward⟩

/-- What stands between two separators, none in it, is a part. -/
theorem part_between (earlier part later : List α) (clean : sep ∉ part) :
    part ∈ (earlier ++ sep :: part ++ sep :: later).splitOn sep := by
  rw [List.append_assoc, List.cons_append, List.splitOn_append_cons_of_beq _ _ (beq_self_eq_true sep),
    List.splitOn_append_cons_of_beq _ _ (beq_self_eq_true sep), List.splitOn_eq_singleton clean]
  exact List.mem_append_right _ List.mem_cons_self

/-- A part of a list that begins and ends with a bracket, which the part does not have, stands
between two separators. -/
theorem bracketed_part (bracket : α) (inner part : List α) (filled : part ≠ [])
    (clean : bracket ∉ part)
    (listed : part ∈ (bracket :: inner ++ [bracket]).splitOn sep) :
    ∃ earlier later, bracket :: inner ++ [bracket] = earlier ++ sep :: part ++ sep :: later := by
  obtain ⟨first, rest, split, ⟨after, start⟩, others⟩ :=
    splitOn_parts sep (bracket :: inner ++ [bracket])
  rw [split] at listed
  rcases List.mem_cons.1 listed with rfl | listed
  · cases part with
    | nil => exact absurd rfl filled
    | cons x part =>
      obtain ⟨rfl, -⟩ := List.cons.inj start
      exact absurd List.mem_cons_self clean
  · obtain ⟨earlier, later, held⟩ := others part listed
    rcases List.eq_nil_or_concat later with rfl | ⟨later, last, rfl⟩
    · have ends : bracket :: inner ++ [bracket] = earlier ++ sep :: part :=
        List.append_cancel_right held
      rcases List.eq_nil_or_concat part with rfl | ⟨front, last, rfl⟩
      · exact absurd rfl filled
      · rw [List.concat_eq_append, ← List.cons_append, ← List.append_assoc] at ends
        have same := (List.append_inj' ends rfl).2
        rw [List.concat_eq_append, ← same] at clean
        exact absurd (List.mem_append_right _ List.mem_cons_self) clean
    · refine ⟨earlier, later, ?_⟩
      rw [List.concat_eq_append, ← List.cons_append, ← List.append_assoc] at held
      exact (List.append_inj' held rfl).1

end DeepDiffForge.Parts
