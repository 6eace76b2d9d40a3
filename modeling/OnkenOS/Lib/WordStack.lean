import Mathlib.Algebra.Group.Nat.Defs
import Mathlib.Data.List.Induction
import Mathlib.Logic.Function.Basic
import Mathlib.Tactic.Common

/-!
# A stack of quadwords in memory

A memory of bytes, quadwords in it with the low byte first, and a stack of them that grows
downward. Only the words that are on the stack are specified (`OnStack`); below it lies whatever
earlier pushes left there. A push writes the eight bytes below the stack and no others, so what lies
further off is as it was (`pushAll_of_far`).
-/

namespace WordStack

/-- The bytes of the memory. -/
abbrev Mem := BitVec 64 → BitVec 8

/-- The quadword at `a`. -/
def get (m : Mem) (a : BitVec 64) : BitVec 64 :=
  m (a + 7#64) ++ m (a + 6#64) ++ m (a + 5#64) ++ m (a + 4#64) ++ m (a + 3#64) ++ m (a + 2#64) ++
    m (a + 1#64) ++ m (a + 0#64)

/-- Storing a quadword at `a`. -/
def put (m : Mem) (a w : BitVec 64) : Mem := fun x =>
  if (x - a).toNat < 8 then w.extractLsb' (8 * (x - a).toNat) 8 else m x

/-- The words lie at `a`, `a + 8` and so on. -/
def OnStack (m : Mem) : BitVec 64 → List (BitVec 64) → Prop
  | _, [] => True
  | a, w :: ws => get m a = w ∧ OnStack m (a + 8#64) ws

/-- Pushing the words, first to last, on the stack that ends at `a`. -/
def pushAll (m : Mem) (a : BitVec 64) : List (BitVec 64) → Mem
  | [] => m
  | w :: ws => pushAll (put m (a - 8#64) w) (a - 8#64) ws

/-- `i` words above `a`. -/
def above (a : BitVec 64) (i : Nat) : BitVec 64 := a + BitVec.ofNat 64 (8 * i)

/-- `i` words below `a`. -/
def below (a : BitVec 64) (i : Nat) : BitVec 64 := a - BitVec.ofNat 64 (8 * i)

section
variable {m m' : Mem} {a b x : BitVec 64} {ws vs : List (BitVec 64)} {i j n : Nat}

/-! ## Quadwords -/

/-- A quadword is its eight bytes: it is the same where they are. -/
theorem get_congr (h : ∀ i < 8, m' (a + BitVec.ofNat 64 i) = m (a + BitVec.ofNat 64 i)) :
    get m' a = get m a := by
  have h0 := h 0 (by omega)
  have h1 := h 1 (by omega)
  have h2 := h 2 (by omega)
  have h3 := h 3 (by omega)
  have h4 := h 4 (by omega)
  have h5 := h 5 (by omega)
  have h6 := h 6 (by omega)
  have h7 := h 7 (by omega)
  unfold get
  rw [h0, h1, h2, h3, h4, h5, h6, h7]

/-- A quadword is read back as it was stored, byte by byte. -/
@[simp] theorem get_put (m : Mem) (a w : BitVec 64) : get (put m a w) a = w := by
  have hbyte : ∀ k : BitVec 64, k.toNat < 8 →
      put m a w (a + k) = w.extractLsb' (8 * k.toNat) 8 := by
    intro k hk
    have hdist : a + k - a = k := by bv_omega
    unfold put
    rw [hdist, if_pos hk]
  have hparts : w.extractLsb' 56 8 ++ w.extractLsb' 48 8 ++ w.extractLsb' 40 8 ++
      w.extractLsb' 32 8 ++ w.extractLsb' 24 8 ++ w.extractLsb' 16 8 ++ w.extractLsb' 8 8 ++
      w.extractLsb' 0 8 = w := by
    simp only [BitVec.extractLsb'_append_extractLsb'_eq_extractLsb']
    simp
  unfold get
  rw [hbyte 7#64 (by simp), hbyte 6#64 (by simp), hbyte 5#64 (by simp), hbyte 4#64 (by simp),
    hbyte 3#64 (by simp), hbyte 2#64 (by simp), hbyte 1#64 (by simp), hbyte 0#64 (by simp)]
  exact hparts

/-- Two words that do not overlap: storing the one leaves the other, also around the end of the
addresses. -/
theorem get_put_of_far (m : Mem) (w : BitVec 64) (hab : 8 ≤ (a - b).toNat)
    (hba : 8 ≤ (b - a).toNat) : get (put m b w) a = get m a := by
  refine get_congr fun i hi => ?_
  unfold put
  rw [if_neg]
  bv_omega

/-! ## Addresses -/

@[simp] theorem above_zero (a : BitVec 64) : above a 0 = a := by
  simp [above]

@[simp] theorem below_zero (a : BitVec 64) : below a 0 = a := by
  simp [below]

/-- One word further up, counted from the next word. -/
theorem above_succ (a : BitVec 64) (i : Nat) : above (a + 8#64) i = above a (i + 1) := by
  unfold above
  bv_omega

/-- One word further down, counted from the word below. -/
theorem below_succ (a : BitVec 64) (i : Nat) : below (a - 8#64) i = below a (i + 1) := by
  unfold below
  bv_omega

/-- Subtracting eight goes one word down. -/
theorem below_sub (a : BitVec 64) (i : Nat) : below a i - 8#64 = below a (i + 1) := by
  unfold below
  bv_omega

/-- Adding eight goes one word up again. -/
theorem below_add (a : BitVec 64) (i : Nat) : below a (i + 1) + 8#64 = below a i := by
  unfold below
  bv_omega

/-- Going down twice is going down by the sum. -/
theorem below_below (a : BitVec 64) (i j : Nat) : below (below a i) j = below a (i + j) := by
  unfold below
  bv_omega

/-- Going up twice is going up by the sum. -/
theorem above_above (a : BitVec 64) (i j : Nat) : above (above a i) j = above a (i + j) := by
  unfold above
  bv_omega

/-- Going up by less than one went down ends below the start, also where the addresses wrap around.
-/
theorem above_below (a : BitVec 64) (h : i ≤ j) : above (below a j) i = below a (j - i) := by
  unfold above below
  bv_omega

/-! ## Pushing -/

/-- Words lie on the stack if each of them is at its address. -/
theorem onStack_iff : OnStack m a ws ↔ ∀ i (hi : i < ws.length), get m (above a i) = ws[i] := by
  induction ws generalizing a with
  | nil => simp [OnStack]
  | cons w ws ih =>
      simp only [OnStack, ih, List.length_cons]
      constructor
      · rintro ⟨h0, hrest⟩ i hi
        cases i with
        | zero => simpa using h0
        | succ i => simpa [above_succ] using hrest i (by omega)
      · intro h
        refine ⟨by simpa using h 0 (by omega), fun i hi => ?_⟩
        rw [above_succ, h (i + 1) (by omega), List.getElem_cons_succ]

/-- The words are there in every memory that holds the same quadwords. -/
theorem OnStack.congr (h : OnStack m a ws)
    (hm : ∀ i, i < ws.length → get m' (above a i) = get m (above a i)) : OnStack m' a ws := by
  rw [onStack_iff] at h ⊢
  intro i hi
  rw [hm i hi, h i hi]

/-- The words are there in every memory with the same bytes. -/
theorem OnStack.congr_bytes (h : OnStack m a ws)
    (hm : ∀ i, i < 8 * ws.length → m' (a + BitVec.ofNat 64 i) = m (a + BitVec.ofNat 64 i)) :
    OnStack m' a ws := by
  refine h.congr fun i hi => get_congr fun j hj => ?_
  have haddr : above a i + BitVec.ofNat 64 j = a + BitVec.ofNat 64 (8 * i + j) := by
    unfold above
    bv_omega
  rw [haddr, hm (8 * i + j) (by omega)]

/-- A push puts a word in front of those on the stack and keeps them, as long as the stack does not
come round to itself. -/
theorem OnStack.push (h : OnStack m a ws) (hlen : ws.length < 2 ^ 60) (w : BitVec 64) :
    OnStack (put m (a - 8#64) w) (a - 8#64) (w :: ws) := by
  have hback : a - 8#64 + 8#64 = a := by bv_omega
  refine ⟨get_put m _ w, ?_⟩
  rw [hback]
  refine h.congr fun i hi => get_put_of_far m w ?_ ?_
  · unfold above
    bv_omega
  · unfold above
    bv_omega

/-- Pushing two lists of words, one after the other. -/
theorem pushAll_append (m : Mem) (a : BitVec 64) (vs ws : List (BitVec 64)) :
    pushAll m a (vs ++ ws) = pushAll (pushAll m a vs) (below a vs.length) ws := by
  induction vs generalizing m a with
  | nil => simp [pushAll]
  | cons v vs ih => simp [pushAll, ih, below_succ]

/-- The words lie on the stack in the order they come off it. -/
theorem OnStack.pushAll (h : OnStack m a ws) (hlen : vs.length + ws.length < 2 ^ 60) :
    OnStack (pushAll m a vs) (below a vs.length) (vs.reverse ++ ws) := by
  induction vs generalizing m a ws with
  | nil => simpa [WordStack.pushAll] using h
  | cons v vs ih =>
      simp only [List.length_cons] at hlen
      have hpush := ih (h.push (by omega) v) (by simp only [List.length_cons]; omega)
      simpa [WordStack.pushAll, below_succ] using hpush

/-- What is pushed is on the stack, the last word first. -/
theorem onStack_pushAll (m : Mem) (a : BitVec 64) (h : vs.length < 2 ^ 60) :
    OnStack (pushAll m a vs) (below a vs.length) vs.reverse := by
  have hnone : OnStack m a [] := trivial
  simpa using hnone.pushAll (by simpa using h)

/-- `x` is none of the `n` bytes below `a`. -/
def Far (a x : BitVec 64) (n : Nat) : Prop := a = x ∨ n < (a - x).toNat

/-- Nothing but the bytes of the words below `a` is written, as long as the stack does not come
round to itself. -/
theorem pushAll_of_far (hlen : vs.length < 2 ^ 60) (h : Far a x (8 * vs.length)) :
    pushAll m a vs x = m x := by
  induction vs generalizing m a with
  | nil => rfl
  | cons v vs ih =>
      simp only [List.length_cons] at hlen h
      have hfar : Far (a - 8#64) x (8 * vs.length) := by
        unfold Far at h ⊢
        bv_omega
      rw [pushAll, ih (by omega) hfar]
      unfold Far at h
      unfold put
      rw [if_neg]
      bv_omega

/-- The words of a list on the stack, taken apart. -/
theorem onStack_append :
    OnStack m a (vs ++ ws) ↔ OnStack m a vs ∧ OnStack m (above a vs.length) ws := by
  induction vs generalizing a with
  | nil => simp [OnStack]
  | cons v vs ih => simp [OnStack, ih, above_succ, and_assoc]

end

end WordStack
