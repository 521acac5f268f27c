import DeepDiffForge.Daemon.Views

/-! A cursor as a page writes it, read back by the next request. -/

namespace DeepDiffForge.Daemon
open Text DeepDiffForge.Core DeepDiffForge.Graph DeepDiffForge.Patch

theorem position_decimal (n : Nat) (fits : n ≤ usizeMax) : position (decimal n) = some n := by
  have digits : (decimal n).all Char.isDigit = true := by
    rw [List.all_eq_true]
    exact decimal_digit n
  have canonical : decimal n = ['0'] ∨ (decimal n).head? ≠ some '0' := decimal_head n
  rw [position, ofDigitChars_decimal]
  exact if_pos ⟨decimal_ne_nil n, digits, canonical, fits⟩

theorem decimal_dotless (n : Nat) : '.' ∉ decimal n := by
  intro member
  exact absurd (decimal_digit n '.' member) (by decide)

theorem splitOn_field (field rest : Str) (dotless : '.' ∉ field) :
    (field ++ '.' :: rest).splitOn '.' = field :: rest.splitOn '.' := by
  rw [List.splitOn_append_cons_of_beq _ _ (by decide), List.splitOn_eq_singleton dotless]
  rfl

theorem take_dotless (count : Nat) (field : Str) (dotless : '.' ∉ field) :
    '.' ∉ field.take count := fun member => dotless (List.mem_of_mem_take member)

def picked (selection : Str) : Str := (sha256Hex (Utf8.encode selection)).take 8

theorem splitOn_cursor (review : SealedReview) (selection : Str) (item inner : Nat) :
    (cursor review.inputSeal selection item inner).splitOn '.' =
      [review.inputSeal.inputSha256.take 16, picked selection, decimal item, decimal inner] := by
  obtain ⟨input, version, same⟩ := review.origin
  have first : '.' ∉ review.inputSeal.inputSha256.take 16 := by
    rw [same]
    exact take_dotless _ _ (sha256Hex_dotless input)
  have second : '.' ∉ picked selection := take_dotless _ _ (sha256Hex_dotless _)
  rw [cursor, splitOn_field _ _ first]
  change _ :: (picked selection ++ '.' :: (decimal item ++ '.' :: decimal inner)).splitOn '.' = _
  rw [splitOn_field _ _ second, splitOn_field _ _ (decimal_dotless item),
    List.splitOn_eq_singleton (decimal_dotless inner)]

/-- An accepted request is in the budget's range, and begins at the start or inside an item. -/
theorem resume_eq_ok (page : Page) (inputSeal : InputSeal) (selection : Str)
    (innerLen : Nat → Option Nat) (start : Nat × Nat)
    (resumed : resume page inputSeal selection innerLen = .ok start) :
    (minMaxBytes ≤ page.maxBytes ∧ page.maxBytes ≤ maxMaxBytes) ∧
      (start = (0, 0) ∨ ∃ len, innerLen start.1 = some len ∧ (start.2 = 0 ∨ start.2 < len)) := by
  rw [resume] at resumed
  split_ifs at resumed with range
  refine ⟨by omega, ?_⟩
  split at resumed
  · exact .inl (Except.ok.inj resumed).symm
  · split at resumed
    · split_ifs at resumed
      split at resumed
      · rename_i item inner _ _
        split at resumed
        · rename_i len known
          split_ifs at resumed with inside
          obtain rfl := Except.ok.inj resumed
          exact .inr ⟨len, known, inside⟩
        · cases resumed
      · cases resumed
    · cases resumed

section Resume
variable (review : SealedReview) (selection : Str) (innerLen : Nat → Option Nat) (budget : Nat)
  (ranged : minMaxBytes ≤ budget ∧ budget ≤ maxMaxBytes)
include ranged

theorem resume_first : resume ⟨budget, none⟩ review.inputSeal selection innerLen = .ok (0, 0) := by
  rw [resume, if_neg (by simp only; omega)]

/-- A page begins where the cursor of the one before it says. -/
theorem resume_cursor (item inner len : Nat) (known : innerLen item = some len)
    (inside : inner = 0 ∨ inner < len) (itemFits : item ≤ usizeMax) (innerFits : inner ≤ usizeMax) :
    resume ⟨budget, some (cursor review.inputSeal selection item inner)⟩ review.inputSeal selection
      innerLen = .ok (item, inner) := by
  rw [resume, if_neg (by simp only; omega)]
  simp only [splitOn_cursor, position_decimal item itemFits, position_decimal inner innerFits, known]
  rw [if_neg (by simp), if_neg (by simp [picked]), if_pos inside]

theorem resume_outside (item inner : Nat) (itemFits : item ≤ usizeMax) (innerFits : inner ≤ usizeMax)
    (outside : ∀ len, innerLen item = some len → ¬(inner = 0 ∨ inner < len)) :
    resume ⟨budget, some (cursor review.inputSeal selection item inner)⟩ review.inputSeal selection
      innerLen = .error (.cursor "its position is outside the selection".toList) := by
  rw [resume, if_neg (by simp only; omega)]
  simp only [splitOn_cursor, position_decimal item itemFits, position_decimal inner innerFits]
  rw [if_neg (by simp), if_neg (by simp [picked])]
  cases known : innerLen item with
  | none => rfl
  | some len => exact if_neg (outside len known)

/-- A cursor of another selection is refused when the two digests differ. -/
theorem resume_other (other : Str) (item inner : Nat) (apart : picked other ≠ picked selection) :
    resume ⟨budget, some (cursor review.inputSeal other item inner)⟩ review.inputSeal selection
      innerLen = .error (.cursor "it belongs to another selection".toList) := by
  rw [resume, if_neg (by simp only; omega)]
  simp only [splitOn_cursor]
  rw [if_neg (by simp)]
  exact if_pos apart

end Resume

end DeepDiffForge.Daemon
