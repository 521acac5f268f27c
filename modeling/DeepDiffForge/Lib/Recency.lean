import Mathlib.Data.List.Basic

/-! Entries kept from the least to the most recently used, shed from the front. -/

namespace DeepDiffForge.Recency

variable {Entry : Type}

/-- What is left once the least recently used entries are dropped until the rest fits. -/
def shed (fits : List Entry → Bool) : List Entry → List Entry
  | [] => []
  | entry :: rest => if fits (entry :: rest) then entry :: rest else shed fits rest

/-- What is shed is the shortest part at the front that makes the rest fit. -/
theorem shed_shortest (fits : List Entry → Bool) (recent : List Entry) :
    ∃ gone, recent = gone ++ shed fits recent ∧
      ∀ shorter extra, gone = shorter ++ extra → extra ≠ [] →
        fits (extra ++ shed fits recent) = false := by
  induction recent with
  | nil =>
    refine ⟨[], rfl, ?_⟩
    intro shorter extra split present
    exact absurd (List.append_eq_nil_iff.1 split.symm).2 present
  | cons entry rest ih =>
    obtain ⟨gone, whole, least⟩ := ih
    rw [shed]
    by_cases fit : fits (entry :: rest) = true
    · rw [if_pos fit]
      refine ⟨[], rfl, ?_⟩
      intro shorter extra split present
      exact absurd (List.append_eq_nil_iff.1 split.symm).2 present
    · rw [if_neg fit]
      refine ⟨entry :: gone, by rw [List.cons_append, ← whole], ?_⟩
      intro shorter extra split present
      cases shorter with
      | nil =>
        rw [List.nil_append] at split
        rw [← split, List.cons_append, ← whole]
        exact Bool.eq_false_iff.2 fit
      | cons first shorter => exact least shorter extra (List.cons.inj split).2 present

theorem shed_fits (fits : List Entry → Bool) (recent : List Entry) (empty : fits [] = true) :
    fits (shed fits recent) = true := by
  induction recent with
  | nil => exact empty
  | cons entry rest ih =>
    rw [shed]
    split_ifs with fit
    · exact fit
    · exact ih

/-- Shedding looks at entries only as `fits` does. -/
theorem shed_map {Other : Type} (view : Entry → Other) (fits : List Entry → Bool)
    (fits' : List Other → Bool) (same : ∀ entries, fits' (entries.map view) = fits entries)
    (recent : List Entry) : shed fits' (recent.map view) = (shed fits recent).map view := by
  induction recent with
  | nil => rfl
  | cons entry rest ih =>
    have here := same (entry :: rest)
    rw [List.map_cons] at here
    rw [List.map_cons, shed, shed, here]
    split_ifs
    · rfl
    · exact ih

end DeepDiffForge.Recency
