import Mathlib.Algebra.Order.Floor.Ring
import Mathlib.Data.Rat.Floor
import Mathlib.Tactic.Linarith

/-!
# Rounding and half-pixel sampling

Rounding to the nearest whole number, halves to even, and truncation toward zero; and where
a line of `m` samples, each taken at the middle of its cell, falls on a line of `n` cells.
-/

namespace ShipInfer.Lib

/-- The nearest whole number; of two equally near ones the even one. -/
def roundEven (q : ℚ) : Int :=
  if q - ⌊q⌋ < 1 / 2 then ⌊q⌋
  else if 1 / 2 < q - ⌊q⌋ then ⌊q⌋ + 1
  else if ⌊q⌋ % 2 = 0 then ⌊q⌋ else ⌊q⌋ + 1

@[simp] theorem roundEven_int (n : Int) : roundEven n = n := by
  simp [roundEven]

theorem roundEven_le {q : ℚ} {n : Int} (h : q ≤ n) : roundEven q ≤ n := by
  have hfloor : ⌊q⌋ ≤ n := Int.floor_le_iff.mpr (lt_of_le_of_lt h (lt_add_one _))
  rcases hfloor.lt_or_eq with hlt | heq
  · unfold roundEven
    split
    · omega
    split
    · omega
    split <;> omega
  · have hq : q = n := le_antisymm h (by rw [← heq]; exact Int.floor_le q)
    rw [hq, roundEven_int]

/-- Toward zero. -/
def truncate (q : ℚ) : Int := if 0 ≤ q then ⌊q⌋ else ⌈q⌉

theorem truncate_of_nonneg {q : ℚ} (h : 0 ≤ q) : truncate q = ⌊q⌋ := if_pos h

@[simp] theorem truncate_int (n : Int) : truncate n = n := by
  unfold truncate
  split <;> simp

theorem truncate_nonneg {q : ℚ} (h : 0 ≤ q) : 0 ≤ truncate q := by
  rw [truncate_of_nonneg h]
  exact Int.floor_nonneg.mpr h

/-- The middle of sample `d` of `m`, on the line of `n` cells; before the first middle it is
the first. -/
def middle (d n m : Int) : ℚ := max 0 ((d + 1 / 2) * n / m - 1 / 2)

theorem middle_nonneg (d n m : Int) : 0 ≤ middle d n m := le_max_left _ _

theorem middle_lt {d n m : Int} (hn : 0 < n) (hd : d < m) (hm : 0 < m) : middle d n m < n := by
  have hm' : (0 : ℚ) < m := by exact_mod_cast hm
  have hn' : (0 : ℚ) < n := by exact_mod_cast hn
  have hd' : (d : ℚ) + 1 ≤ m := by exact_mod_cast hd
  unfold middle
  rw [max_lt_iff]
  refine ⟨hn', ?_⟩
  have hle : ((d : ℚ) + 1 / 2) * n / m ≤ n := by
    rw [div_le_iff₀ hm', mul_comm (n : ℚ)]
    exact mul_le_mul_of_nonneg_right (by linarith) hn'.le
  linarith

/-- As many samples as cells fall on the cells. -/
theorem middle_self {d n : Int} (hd : 0 ≤ d) (hn : 0 < n) : middle d n n = d := by
  have hn' : (n : ℚ) ≠ 0 := by exact_mod_cast hn.ne'
  have hd' : (0 : ℚ) ≤ d := by exact_mod_cast hd
  unfold middle
  rw [mul_div_assoc, div_self hn', mul_one, add_sub_cancel_right, max_eq_right hd']

/-- The cell a middle lies in is one of the line. -/
theorem floor_middle_le {d n m : Int} (hn : 0 < n) (hd : d < m) (hm : 0 < m) : ⌊middle d n m⌋ ≤ n - 1 := by
  have := Int.floor_lt.mpr (middle_lt hn hd hm)
  omega

theorem floor_middle_nonneg (d n m : Int) : 0 ≤ ⌊middle d n m⌋ := Int.floor_nonneg.mpr (middle_nonneg d n m)

end ShipInfer.Lib
