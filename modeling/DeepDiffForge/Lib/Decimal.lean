import DeepDiffForge.Lib.Text

/-! Decimal numbers as they are written and read back. -/

namespace DeepDiffForge.Text

def decimal (n : Nat) : Str := Nat.toDigits 10 n

example : decimal 2026 = "2026".toList := by decide +kernel

theorem decimal_ne_nil (n : Nat) : decimal n ≠ [] := Nat.toDigits_ne_nil

theorem decimal_digit (n : Nat) (c : Char) (member : c ∈ decimal n) : c.isDigit = true :=
  Nat.isDigit_of_mem_toDigits (by decide) (by decide) member

theorem ofDigitChars_decimal (n : Nat) : Nat.ofDigitChars 10 (decimal n) 0 = n :=
  Nat.ofDigitChars_ten_toDigits

/-- Only zero is written with a leading zero. -/
theorem decimal_head (n : Nat) : decimal n = ['0'] ∨ (decimal n).head? ≠ some '0' := by
  have every : ∀ n < 10, [Nat.digitChar n] = ['0'] ∨ [Nat.digitChar n].head? ≠ some '0' := by
    decide
  induction n using Nat.strongRecOn with
  | _ n ih =>
    unfold decimal at ih ⊢
    by_cases small : n < 10
    · rw [Nat.toDigits_of_lt_base small]
      exact every n small
    · rw [Nat.toDigits_of_base_le (by decide) (by omega)]
      right
      have most : n / 10 < n := by omega
      rcases ih (n / 10) most with zero | other
      · have read := Nat.ofDigitChars_ten_toDigits (n := n / 10)
        rw [zero] at read
        simp [Nat.ofDigitChars_cons] at read
        omega
      · cases digits : Nat.toDigits 10 (n / 10) with
        | nil => exact absurd digits Nat.toDigits_ne_nil
        | cons c rest =>
          rw [digits] at other
          simpa using other

end DeepDiffForge.Text
