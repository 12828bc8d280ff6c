import Mathlib.Data.Int.Log
import Mathlib.Data.Rat.Floor
import Mathlib.Tactic

/-!
# Numbers with 53 binary digits

The result of an operation on double-precision numbers is the double nearest to the exact result:
it differs from that by one part in 2⁵³ at most.
-/

namespace AgenticKibana.Library.Doubles

def roundHalfEven (q : ℚ) : ℤ :=
  let r := q - ⌊q⌋
  if r < 1 / 2 then ⌊q⌋
  else if 1 / 2 < r then ⌊q⌋ + 1
  else if ⌊q⌋ % 2 = 0 then ⌊q⌋ else ⌊q⌋ + 1

/-- The nearest number with 53 binary digits. -/
def toDouble (q : ℚ) : ℚ :=
  let unit : ℚ := 2 ^ (Int.log 2 |q| - 52)
  roundHalfEven (q / unit) * unit

theorem abs_roundHalfEven_sub_le (q : ℚ) : |(roundHalfEven q : ℚ) - q| ≤ 1 / 2 := by
  have hfloor := Int.floor_le q
  have hnext := Int.lt_floor_add_one q
  rw [abs_le]
  unfold roundHalfEven
  dsimp only
  split
  · constructor <;> linarith
  · split
    · push_cast
      constructor <;> linarith
    · split
      · constructor <;> linarith
      · push_cast
        constructor <;> linarith

theorem abs_toDouble_sub_le (q : ℚ) : |toDouble q - q| ≤ |q| / 2 ^ 53 := by
  by_cases hq : q = 0
  · subst hq
    simp [toDouble, roundHalfEven]
  · have hpos : (0 : ℚ) < 2 ^ (Int.log 2 |q| - 52) := by positivity
    have hround := abs_roundHalfEven_sub_le (q / 2 ^ (Int.log 2 |q| - 52))
    have hlog : (2 : ℚ) ^ Int.log 2 |q| ≤ |q| := by
      exact_mod_cast Int.zpow_log_le_self (b := 2) (by norm_num) (abs_pos.mpr hq)
    have hsplit : (2 : ℚ) ^ (Int.log 2 |q| - 52) = 2 ^ Int.log 2 |q| / 2 ^ 52 := by
      rw [zpow_sub₀ (by norm_num)]
      norm_num
    have hexact : q = q / 2 ^ (Int.log 2 |q| - 52) * 2 ^ (Int.log 2 |q| - 52) := by
      field_simp
    calc |toDouble q - q|
        = |(roundHalfEven (q / 2 ^ (Int.log 2 |q| - 52)) : ℚ) - q / 2 ^ (Int.log 2 |q| - 52)| *
            2 ^ (Int.log 2 |q| - 52) := by
          rw [← abs_of_pos hpos, ← abs_mul, abs_of_pos hpos, sub_mul, ← hexact]
          rfl
      _ ≤ 1 / 2 * 2 ^ (Int.log 2 |q| - 52) := mul_le_mul_of_nonneg_right hround hpos.le
      _ ≤ |q| / 2 ^ 53 := by
          rw [hsplit]
          linarith

end AgenticKibana.Library.Doubles
