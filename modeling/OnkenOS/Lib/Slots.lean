import Mathlib.Data.List.Perm.Basic
import Mathlib.Data.Nat.Count

/-!
# Slots: scans and rotations of an array

Three loops over an array that occur again and again. `findDown` is
`for (i = n - 1; i >= 0; i--) if (p(i)) return i;`, and `moveToFront` is the rotation that
copies slot `k` out, shifts slots `0 .. k-1` up by one and writes the copy at slot `0`. A loop that
lists the taken slots in order is a `filterMap`, and its `k`-th entry is the taken slot with `k`
taken slots below it.
-/

namespace Slots

variable {α β : Type*}

/-! ## Scanning downward -/

/-- The last index below `n` that `p` accepts, found from the top. -/
def findDown (p : Nat → Bool) : Nat → Option Nat
  | 0 => none
  | n + 1 => if p n then some n else findDown p n

/-- The downward scan answers the greatest accepted index: none above it is accepted. -/
theorem findDown_eq_some {p : Nat → Bool} {n i : Nat} :
    findDown p n = some i ↔ i < n ∧ p i = true ∧ ∀ j, i < j → j < n → p j = false := by
  induction n with
  | zero => simp [findDown]
  | succ n ih =>
      unfold findDown
      split
      · next hp =>
          constructor
          · rintro ⟨⟩
            exact ⟨by omega, hp, fun j h₁ h₂ => absurd h₂ (by omega)⟩
          · rintro ⟨hi, -, hmax⟩
            rcases Nat.lt_or_ge i n with h | h
            · exact absurd hp (by simp [hmax n h (by omega)])
            · rw [show n = i by omega]
      · next hp =>
          rw [ih]
          constructor
          · rintro ⟨hi, hpi, hmax⟩
            refine ⟨by omega, hpi, fun j h₁ h₂ => ?_⟩
            rcases Nat.lt_or_ge j n with h | h
            · exact hmax j h₁ h
            · rw [show j = n by omega]; simpa using hp
          · rintro ⟨hi, hpi, hmax⟩
            refine ⟨?_, hpi, fun j h₁ h₂ => hmax j h₁ (by omega)⟩
            rcases Nat.lt_or_ge i n with h | h
            · exact h
            · rw [show n = i by omega] at hp; exact absurd hpi hp

/-- The downward scan fails exactly when no index is accepted. -/
theorem findDown_eq_none {p : Nat → Bool} {n : Nat} :
    findDown p n = none ↔ ∀ j, j < n → p j = false := by
  induction n with
  | zero => simp [findDown]
  | succ n ih =>
      unfold findDown
      split
      · next hp => simpa using ⟨n, by omega, hp⟩
      · next hp =>
          rw [ih]
          refine ⟨fun h j hj => ?_, fun h j hj => h j (by omega)⟩
          rcases Nat.lt_or_ge j n with h' | h'
          · exact h j h'
          · rw [show j = n by omega]; simpa using hp

/-- Searching down sees only the numbers below the bound. -/
theorem findDown_congr {p q : Nat → Bool} {n : Nat} (h : ∀ j, j < n → p j = q j) :
    findDown p n = findDown q n := by
  induction n with
  | zero => rfl
  | succ n ih =>
      unfold findDown
      rw [h n (by omega), ih fun j hj => h j (by omega)]

/-- The downward scan is the last accepted index in increasing order. -/
theorem getLast?_filter_range (p : Nat → Bool) (n : Nat) :
    ((List.range n).filter p).getLast? = findDown p n := by
  induction n with
  | zero => rfl
  | succ n ih =>
      rw [List.range_succ, List.filter_append, findDown]
      by_cases hp : p n
      · simp [hp]
      · simp [hp, ih]

/-! ## Listing the taken slots -/

section
variable {g : Nat → Option β}

/-- As many values are collected as there are numbers that have one. -/
theorem length_filterMap_range (g : Nat → Option β) (n : Nat) :
    ((List.range n).filterMap g).length = Nat.count (fun i => (g i).isSome = true) n := by
  induction n with
  | zero => rfl
  | succ n ih =>
      rw [List.range_succ, List.filterMap_append, List.length_append, ih, Nat.count_succ]
      cases hg : g n <;> simp [hg]

/-- The `k`-th entry is the taken slot with `k` taken slots below it. -/
theorem getElem?_filterMap_range {n k : Nat} {b : β} :
    ((List.range n).filterMap g)[k]? = some b ↔
      ∃ i, i < n ∧ g i = some b ∧ Nat.count (fun i => (g i).isSome = true) i = k := by
  induction n with
  | zero => simp
  | succ n ih =>
      have hlen := length_filterMap_range g n
      rw [List.range_succ, List.filterMap_append]
      constructor
      · intro h
        rcases Nat.lt_or_ge k ((List.range n).filterMap g).length with hk | hk
        · rw [List.getElem?_append_left hk] at h
          obtain ⟨i, hi, hb, hcount⟩ := ih.1 h
          exact ⟨i, by omega, hb, hcount⟩
        · rw [List.getElem?_append_right hk] at h
          cases hg : g n with
          | none => simp [hg] at h
          | some a =>
              simp only [List.filterMap_cons, hg, List.filterMap_nil, List.getElem?_singleton,
                Option.ite_none_right_eq_some, Option.some.injEq] at h
              obtain ⟨h0, rfl⟩ := h
              exact ⟨n, by omega, hg, by omega⟩
      · rintro ⟨i, hi, hb, hcount⟩
        rcases Nat.lt_succ_iff_lt_or_eq.1 hi with hlt | rfl
        · have h := ih.2 ⟨i, hlt, hb, hcount⟩
          rwa [List.getElem?_append_left (List.getElem?_eq_some_iff.1 h).1]
        · rw [List.getElem?_append_right (by omega)]
          simp [hb, hlen, hcount]

/-- There is no `k`-th entry exactly when at most `k` slots are taken. -/
theorem getElem?_filterMap_range_eq_none {n k : Nat} :
    ((List.range n).filterMap g)[k]? = none ↔ Nat.count (fun i => (g i).isSome = true) n ≤ k := by
  rw [List.getElem?_eq_none_iff, length_filterMap_range]

end

/-! ## Writing one slot -/

/-- A write to one slot changes no projection that the write ignores. -/
theorem map_modify_of_eq {f : α → β} {g : α → α} (h : ∀ a, f (g a) = f a) (l : List α)
    (i : Nat) : (l.modify i g).map f = l.map f := by
  apply List.ext_getElem?
  intro j
  rw [List.getElem?_map, List.getElem?_map, List.getElem?_modify]
  cases l[j]? with
  | none => rfl
  | some a => by_cases hij : i = j <;> simp [hij, h]

/-! ## Moving a slot to the front -/

/-- `for (i = k; i > 0; i--) a[i] = a[i-1];` -/
def shiftUp (l : List α) : Nat → List α
  | 0 => l
  | i + 1 => shiftUp (match l[i]? with | some a => l.set (i + 1) a | none => l) i

/-- The rotation `t = a[k]; for (i = k; i > 0; i--) a[i] = a[i-1]; a[0] = t;`. -/
def moveToFront (l : List α) (k : Nat) : List α :=
  match l[k]? with
  | some t => (shiftUp l k).set 0 t
  | none => l

/-- What the shift leaves in each slot: up to `k` the element before, above it what was there. -/
theorem getElem?_shiftUp {k : Nat} : ∀ {l : List α}, k < l.length → ∀ j : Nat,
    (shiftUp l k)[j]? = if 0 < j ∧ j ≤ k then l[j - 1]? else l[j]? := by
  induction k with
  | zero =>
      intro l _ j
      rw [shiftUp, if_neg (by omega)]
  | succ k ih =>
      intro l hk j
      have hk' : l[k]? = some l[k] := List.getElem?_eq_getElem (by omega)
      rw [shiftUp, hk', ih (by simpa using by omega)]
      by_cases h₁ : 0 < j ∧ j ≤ k
      · rw [if_pos h₁, if_pos (by omega), List.getElem?_set_ne (by omega)]
      · rw [if_neg h₁]
        by_cases h₂ : j = k + 1
        · subst h₂
          rw [if_pos (by omega), List.getElem?_set_self (by omega)]
          simp [hk']
        · rw [if_neg (by omega), List.getElem?_set_ne (by omega)]

@[simp] theorem length_shiftUp (k : Nat) : ∀ l : List α, (shiftUp l k).length = l.length := by
  induction k with
  | zero => intro l; rfl
  | succ k ih => intro l; rw [shiftUp, ih]; split <;> simp

/-- Moving a slot keeps the number of slots. -/
@[simp] theorem length_moveToFront (l : List α) (k : Nat) :
    (moveToFront l k).length = l.length := by
  unfold moveToFront; split <;> simp

/-- What the rotation leaves in each slot: the element of slot `k` in the first, those before it one
further, and the others in place. -/
theorem getElem?_moveToFront {l : List α} {k : Nat} (hk : k < l.length) (j : Nat) :
    (moveToFront l k)[j]? =
      if j = 0 then l[k]? else if j ≤ k then l[j - 1]? else l[j]? := by
  have hkk : l[k]? = some l[k] := List.getElem?_eq_getElem hk
  simp only [moveToFront, hkk]
  by_cases hj : j = 0
  · subst hj
    rw [if_pos rfl, List.getElem?_set_self (by simp; omega)]
  · rw [if_neg hj, List.getElem?_set_ne (by omega), getElem?_shiftUp hk]
    by_cases h : j ≤ k
    · rw [if_pos ⟨by omega, h⟩, if_pos h]
    · rw [if_neg (by omega), if_neg h]

/-- Where slot `j` goes when slot `k` moves to the front. -/
def frontSlot (k j : Nat) : Nat := if j = k then 0 else if j < k then j + 1 else j

/-- The slot that is moved comes to the front. -/
@[simp] theorem frontSlot_self (k : Nat) : frontSlot k k = 0 := by simp [frontSlot]

/-- Moving the first slot to the front moves nothing. -/
@[simp] theorem frontSlot_zero (j : Nat) : frontSlot 0 j = j := by
  unfold frontSlot; split <;> simp_all

/-- The slots above the one that moves stay. -/
theorem frontSlot_of_lt {k j : Nat} (h : k = 0 ∨ k < j) : frontSlot k j = j := by
  unfold frontSlot; grind

/-- Two slots stay two. -/
theorem frontSlot_inj {k i j : Nat} : frontSlot k i = frontSlot k j ↔ i = j := by
  unfold frontSlot; grind

/-- Every slot is reached from some slot: the rotation is onto. -/
theorem exists_frontSlot (k j : Nat) : ∃ i, frontSlot k i = j := by
  rcases Nat.eq_zero_or_pos j with h | h
  · exact ⟨k, by simp [h]⟩
  · rcases Nat.lt_or_ge k j with hk | hk
    · exact ⟨j, by unfold frontSlot; grind⟩
    · exact ⟨j - 1, by unfold frontSlot; grind⟩

/-- The rotation sends the content of slot `j` to `frontSlot k j`. -/
theorem getElem?_frontSlot {l : List α} {k : Nat} (hk : k < l.length) (j : Nat) :
    (moveToFront l k)[frontSlot k j]? = l[j]? := by
  rw [getElem?_moveToFront hk]
  unfold frontSlot
  by_cases hj : j = k
  · simp [hj]
  · by_cases hlt : j < k
    · rw [if_neg hj, if_pos hlt, if_neg (by omega), if_pos (by omega), Nat.add_sub_cancel]
    · rw [if_neg hj, if_neg hlt, if_neg (by omega), if_neg (by omega)]

/-- The rotation as a list operation: take the slot out and put it in front. -/
theorem moveToFront_eq_cons {l : List α} {k : Nat} (hk : k < l.length) :
    moveToFront l k = l[k] :: l.eraseIdx k := by
  apply List.ext_getElem?
  intro j
  rw [getElem?_moveToFront hk]
  cases j with
  | zero => simp
  | succ j =>
      rw [if_neg (by omega), List.getElem?_cons_succ]
      by_cases h : j + 1 ≤ k
      · rw [if_pos h, List.getElem?_eraseIdx_of_lt (by omega)]; rfl
      · rw [if_neg h, List.getElem?_eraseIdx_of_ge (by omega)]

/-- The rotation loses and duplicates nothing: its result is a permutation. -/
theorem moveToFront_perm (l : List α) (k : Nat) : (moveToFront l k).Perm l := by
  rcases Nat.lt_or_ge k l.length with hk | hk
  · rw [moveToFront_eq_cons hk]
    exact List.getElem_cons_eraseIdx_perm hk
  · rw [moveToFront, List.getElem?_eq_none hk]

/-- A filter that drops what slot `k` holds does not see the rotation: the other slots keep their
order. -/
theorem filter_moveToFront {p : α → Bool} {l : List α} {k : Nat}
    (hp : ∀ a, l[k]? = some a → p a = false) : (moveToFront l k).filter p = l.filter p := by
  rcases Nat.lt_or_ge k l.length with hk | hk
  · have hpk : ¬ p l[k] = true := by simp [hp l[k] (List.getElem?_eq_getElem hk)]
    have hl : l.take k ++ l[k] :: l.drop (k + 1) = l := by
      rw [← List.drop_eq_getElem_cons hk, List.take_append_drop]
    calc (moveToFront l k).filter p
        = (l.take k ++ l.drop (k + 1)).filter p := by
          rw [moveToFront_eq_cons hk, List.filter_cons_of_neg hpk, List.eraseIdx_eq_take_drop_succ]
      _ = (l.take k ++ l[k] :: l.drop (k + 1)).filter p := by
          rw [List.filter_append, List.filter_append, List.filter_cons_of_neg hpk]
      _ = l.filter p := by rw [hl]
  · rw [moveToFront, List.getElem?_eq_none hk]

/-- Rotating the first slot changes nothing. -/
@[simp] theorem moveToFront_zero (l : List α) : moveToFront l 0 = l := by
  cases l <;> rfl

/-- The rotation commutes with a map over the slots. -/
theorem map_moveToFront (f : α → β) (l : List α) (k : Nat) :
    (moveToFront l k).map f = moveToFront (l.map f) k := by
  rcases Nat.lt_or_ge k l.length with hk | hk
  · rw [moveToFront_eq_cons hk, moveToFront_eq_cons (by simpa using hk), List.map_cons,
      List.eraseIdx_map, List.getElem_map]
  · simp [moveToFront, List.getElem?_eq_none hk]

end Slots
