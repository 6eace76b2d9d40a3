import Mathlib.Data.List.Basic
import Mathlib.Logic.Function.Basic

/-!
# A ring of cells

A ring of `n` cells holds the values from its head up to its tail, wrapping behind the last cell;
it is empty when the two are equal, so one cell always stays free. The pending values are read off
the cells by walking from the head. A write to the cell at the tail does not touch them
(`pending_update`), moving the tail appends the cell behind it (`pending_next_tail`), and moving
the head drops the first of them (`pending_of_ne`).
-/

namespace Ring

variable {α : Type*} {n : Nat}

/-- The cell behind the cell `i`. -/
def next (n i : Nat) : Nat := (i + 1) % n

/-- The number of cells from the head up to the tail. -/
def count (n head tail : Nat) : Nat := (tail + (n - head)) % n

/-- The values of `k` cells, from the cell `i` on. -/
def segment (n : Nat) (cells : Nat → α) : Nat → Nat → List α
  | _, 0 => []
  | i, k + 1 => cells i :: segment n cells (next n i) k

/-- The values from the head up to the tail. -/
def pending (n : Nat) (cells : Nat → α) (head tail : Nat) : List α :=
  segment n cells head (count n head tail)

/-! ## Indices -/

section
variable {i head tail : Nat}

/-- The last cell is followed by the first one. -/
theorem next_eq (hi : i < n) : next n i = if i + 1 = n then 0 else i + 1 := by
  unfold next
  split
  · rename_i h
    rw [h, Nat.mod_self]
  · exact Nat.mod_eq_of_lt (by omega)

/-- The cell behind a cell is a cell. -/
theorem next_lt (hi : i < n) : next n i < n := Nat.mod_lt _ (Nat.zero_lt_of_lt hi)

/-- The cells from the head to the tail, where the tail is above the head and where it has come
round. -/
theorem count_eq (hhead : head < n) (htail : tail < n) :
    count n head tail = if head ≤ tail then tail - head else tail + n - head := by
  unfold count
  split
  · rw [show tail + (n - head) = tail - head + n by omega, Nat.add_mod_right]
    exact Nat.mod_eq_of_lt (by omega)
  · rw [Nat.mod_eq_of_lt (by omega)]
    omega

/-- A ring never counts as many values as it has cells: one stays free, or full and empty would look
the same. -/
theorem count_lt (hhead : head < n) (htail : tail < n) : count n head tail < n := by
  rw [count_eq hhead htail]
  split <;> omega

/-- With head and tail together the ring is empty. -/
theorem count_self (hhead : head < n) : count n head head = 0 := by
  rw [count_eq hhead hhead, if_pos (Nat.le_refl _), Nat.sub_self]

/-- Moving the tail, unless it runs into the head, counts one more cell. -/
theorem count_next_tail (hhead : head < n) (htail : tail < n) (hfree : next n tail ≠ head) :
    count n head (next n tail) = count n head tail + 1 := by
  rw [count_eq hhead (next_lt htail), count_eq hhead htail]
  rw [next_eq htail] at hfree ⊢
  rcases eq_or_ne (tail + 1) n with hlast | hlast
  · rw [if_pos hlast] at hfree ⊢
    split <;> split <;> omega
  · rw [if_neg hlast] at hfree ⊢
    split <;> split <;> omega

/-- Moving the head of a ring that is not empty counts one cell less. -/
theorem count_of_ne (hhead : head < n) (htail : tail < n) (hne : head ≠ tail) :
    count n head tail = count n (next n head) tail + 1 := by
  rw [count_eq (next_lt hhead) htail, count_eq hhead htail, next_eq hhead]
  split <;> split <;> split <;> omega

/-- The tail is as many cells behind the head as there are values. -/
theorem add_count (hhead : head < n) (htail : tail < n) :
    (head + count n head tail) % n = tail := by
  rw [count_eq hhead htail]
  split
  · rw [show head + (tail - head) = tail by omega]
    exact Nat.mod_eq_of_lt htail
  · rw [show head + (tail + n - head) = tail + n by omega, Nat.add_mod_right]
    exact Nat.mod_eq_of_lt htail

/-- Moving the head of a ring that is not empty leaves the cell behind the tail free. -/
theorem next_tail_ne_next_head (hhead : head < n) (htail : tail < n) (hne : head ≠ tail) :
    next n tail ≠ next n head := by
  rw [next_eq hhead, next_eq htail]
  split <;> split <;> omega

end

/-! ## Segments -/

section
variable {cells : Nat → α} {i j k : Nat}

@[simp] theorem length_segment (cells : Nat → α) (i k : Nat) :
    (segment n cells i k).length = k := by
  induction k generalizing i with
  | zero => rfl
  | succ k ih => rw [segment, List.length_cons, ih]

/-- Walking on from the cell behind. -/
theorem next_add_mod (i k : Nat) : (next n i + k) % n = (i + (k + 1)) % n := by
  unfold next
  rw [Nat.mod_add_mod, Nat.add_assoc, Nat.add_comm 1 k]

/-- A segment that is longer by one cell has that cell's value at its end. -/
theorem segment_succ (cells : Nat → α) (hi : i < n) :
    segment n cells i (k + 1) = segment n cells i k ++ [cells ((i + k) % n)] := by
  induction k generalizing i with
  | zero => simp [segment, Nat.mod_eq_of_lt hi]
  | succ k ih =>
      rw [segment, ih (next_lt hi), next_add_mod]
      rfl

/-- A segment does not see a write outside it: the cells it has are others. -/
theorem segment_update {x : α} (hi : i < n) (hj : ∀ m < k, j ≠ (i + m) % n) :
    segment n (Function.update cells j x) i k = segment n cells i k := by
  induction k generalizing i with
  | zero => rfl
  | succ k ih =>
      have hcell : i ≠ j := by
        have hzero := hj 0 (Nat.succ_pos k)
        rw [Nat.add_zero, Nat.mod_eq_of_lt hi] at hzero
        exact hzero.symm
      rw [segment, segment, Function.update_of_ne hcell]
      refine congrArg _ (ih (next_lt hi) fun m hm => ?_)
      rw [next_add_mod]
      exact hj (m + 1) (Nat.succ_lt_succ hm)

end

/-! ## The pending values -/

section
variable {cells : Nat → α} {head tail : Nat}

@[simp] theorem pending_self (cells : Nat → α) (hhead : head < n) :
    pending n cells head head = [] := by
  rw [pending, count_self hhead]
  rfl

/-- One cell stays free, so a ring of `n` cells holds fewer than `n` values. -/
theorem length_pending_lt (cells : Nat → α) (hhead : head < n) (htail : tail < n) :
    (pending n cells head tail).length < n := by
  rw [pending, length_segment]
  exact count_lt hhead htail

/-- The cell at the tail is free: the values do not see a write to it. -/
theorem pending_update (x : α) (hhead : head < n) (htail : tail < n) :
    pending n (Function.update cells tail x) head tail = pending n cells head tail := by
  refine segment_update hhead fun m hm heq => ?_
  have hcount := count_lt hhead htail
  rw [count_eq hhead htail] at hm hcount
  -- `m` cells behind the head is the tail only for `m` the number of values
  rcases Nat.lt_or_ge (head + m) n with hlt | hge
  · rw [Nat.mod_eq_of_lt hlt] at heq
    split at hm <;> omega
  · rw [Nat.mod_eq_sub_mod hge, Nat.mod_eq_of_lt (by omega)] at heq
    split at hm <;> omega

/-- Moving the tail appends the value of the cell it was at. -/
theorem pending_next_tail (cells : Nat → α) (hhead : head < n) (htail : tail < n)
    (hfree : next n tail ≠ head) :
    pending n cells head (next n tail) = pending n cells head tail ++ [cells tail] := by
  rw [pending, count_next_tail hhead htail hfree, segment_succ cells hhead, add_count hhead htail]
  rfl

/-- The first value is the one at the head; moving the head drops it. -/
theorem pending_of_ne (cells : Nat → α) (hhead : head < n) (htail : tail < n)
    (hne : head ≠ tail) :
    pending n cells head tail = cells head :: pending n cells (next n head) tail := by
  rw [pending, count_of_ne hhead htail hne]
  rfl

end

end Ring
