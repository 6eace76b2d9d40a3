import Mathlib.Data.Int.ConditionallyCompleteOrder
import Mathlib.Order.Interval.Set.UnorderedInterval
import Mathlib.Order.Lattice.Nat

/-!
# Linear interpolation between integers

`interp a b n j` is the value at step `j` of `n` on the way from `a` to `b`, with a division that
rounds toward zero. Every value lies between `a` and `b` (`interp_mem_uIcc`), and the values move
from `a` towards `b` only (`monotone_interp`, `antitone_interp`).
-/

namespace Interpolation

/-- The value at step `j` of `n` on the way from `a` to `b`. -/
def interp (a b n j : Int) : Int := a + ((b - a) * j).tdiv n

section
variable {a b n j : Int}

/-- The way begins at its first end. -/
theorem interp_zero (a b n : Int) : interp a b n 0 = a := by
  unfold interp
  rw [Int.mul_zero, Int.zero_tdiv, Int.add_zero]

/-- A way down is a way up seen from below. -/
theorem interp_neg (a b n j : Int) : interp (-a) (-b) n j = -interp a b n j := by
  have hdiff : (-b - -a) * j = -((b - a) * j) := by
    rw [← Int.neg_mul]
    congr 1
    omega
  unfold interp
  rw [hdiff, Int.neg_tdiv, Int.neg_add]

/-- Upwards the values never go back. -/
theorem monotone_interp (hn : 0 < n) (hab : a ≤ b) : Monotone (interp a b n) := by
  intro i j hij
  have hdiff : 0 ≤ b - a := Int.sub_nonneg_of_le hab
  exact Int.add_le_add_left (Int.tdiv_le_tdiv hn (Int.mul_le_mul_of_nonneg_left hij hdiff)) a

/-- Downwards they never go back either. -/
theorem antitone_interp (hn : 0 < n) (hab : b ≤ a) : Antitone (interp a b n) := by
  intro i j hij
  have hneg := monotone_interp hn (Int.neg_le_neg hab) hij
  rw [interp_neg, interp_neg] at hneg
  exact Int.le_of_neg_le_neg hneg

/-- The last step arrives at the second end. -/
theorem interp_self (hn : 0 < n) (a b : Int) : interp a b n n = b := by
  unfold interp
  rw [Int.mul_tdiv_cancel _ (Int.ne_of_gt hn)]
  omega

/-- No value leaves the range of `a` and `b`: the way is monotone, and ends at the two of them. -/
theorem interp_mem_uIcc (hn : 0 < n) (hj : 0 ≤ j) (hjn : j ≤ n) :
    interp a b n j ∈ Set.uIcc a b := by
  rcases Int.le_total a b with hab | hab
  · have hmono := monotone_interp hn hab
    rw [Set.uIcc_of_le hab]
    constructor
    · calc a = interp a b n 0 := (interp_zero a b n).symm
        _ ≤ interp a b n j := hmono hj
    · calc interp a b n j ≤ interp a b n n := hmono hjn
        _ = b := interp_self hn a b
  · have hanti := antitone_interp hn hab
    rw [Set.uIcc_of_ge hab]
    constructor
    · calc b = interp a b n n := (interp_self hn a b).symm
        _ ≤ interp a b n j := hanti hjn
    · calc interp a b n j ≤ interp a b n 0 := hanti hj
        _ = a := interp_zero a b n

end

end Interpolation
