import Mathlib.Algebra.Group.Nat.Defs

/-!
# The bump allocator

`kernel/mm.c`: `kmalloc` hands out the heap from `heap_ptr` upward, in multiples of sixteen
bytes. Pointers are 64-bit numbers, the size arithmetic is `uint32_t` arithmetic.
-/

namespace OnkenOS

/-- The static variables of `mm.c` that `kmalloc` reads and writes. -/
structure Mm where
  heapPtr : BitVec 64
  kmallocCount : BitVec 64
  kmallocBytes : BitVec 64

/-- `(size + 15) & ~15`. -/
def alignedSize (size : BitVec 32) : BitVec 32 := (size + 15) &&& ~~~15

/-- `kmalloc`: the block, and the allocator after the call. -/
def kmalloc (s : Mm) (size : BitVec 32) : BitVec 64 × Mm :=
  (s.heapPtr,
    { heapPtr := s.heapPtr + (alignedSize size).setWidth 64
      kmallocCount := s.kmallocCount + 1
      kmallocBytes := s.kmallocBytes + (alignedSize size).setWidth 64 })

/-- Masking out the low `k` bits rounds down to a multiple of `2 ^ k`. -/
theorem toNat_and_not_low {w k : Nat} (v mask : BitVec w) (hmask : mask.toNat = 2 ^ k - 1) :
    (v &&& ~~~mask).toNat = v.toNat - v.toNat % 2 ^ k := by
  have hsplit : (v &&& ~~~mask) + (v &&& mask) = v := by
    rw [BitVec.add_eq_or_of_and_eq_zero]
    · ext i
      simp only [BitVec.getElem_or, BitVec.getElem_and, BitVec.getElem_not]
      cases v[i] <;> cases mask[i] <;> rfl
    · ext i
      simp only [BitVec.getElem_zero, BitVec.getElem_and, BitVec.getElem_not]
      cases v[i] <;> cases mask[i] <;> rfl
  have hlow : (v &&& mask).toNat = v.toNat % 2 ^ k := by
    rw [BitVec.toNat_and, hmask]
    exact Nat.and_two_pow_sub_one_eq_mod v.toNat k
  have hle : v &&& mask ≤ v := by
    rw [BitVec.le_def, hlow]
    exact Nat.mod_le v.toNat (2 ^ k)
  rw [← BitVec.eq_sub_iff_add_eq] at hsplit
  rw [hsplit, BitVec.toNat_sub_of_le hle, hlow]

/-- Masking the low four bits rounds down to a multiple of sixteen. -/
theorem toNat_and_not_15 (v : BitVec 32) : (v &&& ~~~15).toNat = v.toNat - v.toNat % 16 :=
  toNat_and_not_low (k := 4) v 15 rfl

/-- A size is rounded up to the next multiple of sixteen, unless it is so close to `2 ^ 32`
that the sum wraps: then the block has no room at all. -/
theorem alignedSize_toNat (size : BitVec 32) :
    (size.toNat ≤ 2 ^ 32 - 16 ∧ size.toNat ≤ (alignedSize size).toNat ∧
        (alignedSize size).toNat % 16 = 0) ∨
      (2 ^ 32 - 16 < size.toNat ∧ (alignedSize size).toNat = 0) := by
  unfold alignedSize
  rw [toNat_and_not_15]
  bv_omega

end OnkenOS
