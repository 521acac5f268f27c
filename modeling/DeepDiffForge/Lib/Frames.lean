import Mathlib.Data.List.Basic

/-! Encodings that mark their own end: what is written with one, followed by anything, reads back
in one way only. -/

namespace DeepDiffForge.Frames
variable {α β γ : Type}

/-- Two valid values, each followed by anything, are written alike only if they are the same, and
so is what follows. -/
def Delimits (encode : α → List γ) (valid : α → Prop) : Prop :=
  ∀ one two, valid one → valid two → ∀ after after', encode one ++ after = encode two ++ after' →
    one = two ∧ after = after'

section
variable (encode : α → List γ) (valid : α → Prop) (delimits : Delimits encode valid)

include delimits

/-- One encoding after another. -/
theorem Delimits.append (encode' : β → List γ) (valid' : β → Prop)
    (delimits' : Delimits encode' valid') :
    Delimits (fun pair : α × β => encode pair.1 ++ encode' pair.2)
      fun pair => valid pair.1 ∧ valid' pair.2 := by
  rintro ⟨a, b⟩ ⟨c, d⟩ ⟨first, second⟩ ⟨first', second'⟩ after after' same
  dsimp only at same first second first' second'
  rw [List.append_assoc, List.append_assoc] at same
  obtain ⟨rfl, tail⟩ := delimits a c first first' _ _ same
  obtain ⟨rfl, rest⟩ := delimits' b d second second' _ _ tail
  exact ⟨rfl, rest⟩

/-- Values that another type's tell apart. -/
theorem Delimits.comp (f : β → α) (injective : ∀ one two, f one = f two → one = two) :
    Delimits (fun value => encode (f value)) fun value => valid (f value) := by
  intro one two first second after after' same
  obtain ⟨whole, rest⟩ := delimits (f one) (f two) first second after after' same
  exact ⟨injective one two whole, rest⟩

/-- A list of values, none written as nothing, written one after another to the end. -/
theorem Delimits.flatMap (filled : ∀ value, encode value ≠ []) (one two : List α)
    (first : ∀ value ∈ one, valid value) (second : ∀ value ∈ two, valid value)
    (same : one.flatMap encode = two.flatMap encode) : one = two := by
  induction one generalizing two with
  | nil =>
    cases two with
    | nil => rfl
    | cons value two =>
      rw [List.flatMap_nil, List.flatMap_cons] at same
      exact absurd (List.append_eq_nil_iff.1 same.symm).1 (filled value)
  | cons value one ih =>
    cases two with
    | nil =>
      rw [List.flatMap_nil, List.flatMap_cons] at same
      exact absurd (List.append_eq_nil_iff.1 same).1 (filled value)
    | cons other two =>
      rw [List.flatMap_cons, List.flatMap_cons] at same
      obtain ⟨rfl, rest⟩ := delimits value other (first value List.mem_cons_self)
        (second other List.mem_cons_self) _ _ same
      rw [ih two (fun item listed => first item (.tail _ listed))
        (fun item listed => second item (.tail _ listed)) rest]

end

theorem Delimits.optional (encode : α → List γ) (valid : α → Prop)
    (delimits : Delimits encode valid) (absent present : γ) (apart : absent ≠ present) :
    Delimits (fun value : Option α => value.elim [absent] fun value => present :: encode value)
      fun value => ∀ held ∈ value, valid held := by
  intro one two first second after after' same
  cases one with
  | none =>
    cases two with
    | none => exact ⟨rfl, (List.cons.inj same).2⟩
    | some value => exact absurd (List.cons.inj same).1 apart
  | some value =>
    cases two with
    | none => exact absurd (List.cons.inj same).1.symm apart
    | some other =>
      obtain ⟨rfl, rest⟩ := delimits value other (first value rfl) (second other rfl) _ _
        (List.cons.inj same).2
      exact ⟨rfl, rest⟩

end DeepDiffForge.Frames
