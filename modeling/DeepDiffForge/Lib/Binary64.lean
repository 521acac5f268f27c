import Mathlib.Data.Int.Log
import Mathlib.Data.Rat.Floor
import Mathlib.Tactic.NormNum

/-! Binary floating point of 64 bits, for values of the size that whole numbers of 64 bits and their
quotients have: 53 significant bits, to the nearest, a tie to the even one. -/

namespace DeepDiffForge.Binary64

/-- The nearest whole number, the even one of two. -/
def halfEven (value : Rat) : Int :=
  let whole := ⌊value⌋
  let rest := value - whole
  if rest < 1 / 2 then whole
  else if 1 / 2 < rest then whole + 1
  else if whole % 2 = 0 then whole
  else whole + 1

/-- The weight of the last of a value's 53 significant bits. -/
def ulp (value : Rat) : Rat := 2 ^ (Int.log 2 value - 52)

def rounded (value : Rat) : Rat :=
  if value ≤ 0 then 0 else halfEven (value / ulp value) * ulp value

def ofNat (n : Nat) : Rat := rounded n

def divide (one two : Rat) : Rat := rounded (one / two)

theorem halfEven_intCast (n : Int) : halfEven n = n := by
  simp [halfEven]

/-- What 53 bits can hold is kept as it is. -/
theorem rounded_exact (m : Nat) (e : Int) (bits : m < 2 ^ 53) :
    rounded (m * 2 ^ e) = m * 2 ^ e := by
  unfold rounded
  have positive : (0 : Rat) < 2 ^ e := zpow_pos (by norm_num) e
  split_ifs with least
  · exact le_antisymm (mul_nonneg m.cast_nonneg positive.le) least
  rw [not_le] at least
  generalize scale : Int.log 2 ((m : Rat) * 2 ^ e) - 52 = s
  have low := Int.zpow_log_le_self (b := 2) (by decide) least
  have small : (m : Rat) * 2 ^ e < 2 ^ (53 + e) := by
    rw [zpow_add₀ (by norm_num)]
    have bound : (m : Rat) < 2 ^ (53 : Int) := by exact_mod_cast bits
    exact mul_lt_mul_of_pos_right bound positive
  have order : s ≤ e := by
    have less : ((2 : Nat) : Rat) ^ Int.log 2 ((m : Rat) * 2 ^ e) < (2 : Nat) ^ (53 + e) :=
      low.trans_lt (by exact_mod_cast small)
    rw [zpow_lt_zpow_iff_right₀ (by norm_num)] at less
    omega
  obtain ⟨k, rfl⟩ := Int.le.dest order
  have whole : (m : Rat) * 2 ^ (s + (k : Int)) / 2 ^ s = ((m * 2 ^ k : Nat) : Int) := by
    rw [zpow_add₀ (by norm_num), zpow_natCast, mul_left_comm,
      mul_div_cancel_left₀ _ (zpow_ne_zero s (by norm_num))]
    push_cast
    rfl
  rw [ulp, scale, whole, halfEven_intCast, ← whole, div_mul_cancel₀ _ (zpow_ne_zero s (by norm_num))]

theorem ofNat_exact (n : Nat) (bits : n < 2 ^ 53) : ofNat n = n := by
  have kept := rounded_exact n 0 bits
  rwa [zpow_zero, mul_one] at kept

example : ofNat (2 ^ 53 + 1) = 2 ^ 53 := by decide +kernel

end DeepDiffForge.Binary64
