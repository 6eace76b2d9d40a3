import Mathlib.Algebra.BigOperators.Group.List.Basic
import Mathlib.Order.CompletePartialOrder
import Mathlib.Order.Interval.Set.Disjoint

/-!
# Bump allocation

An allocator that serves every request from one pointer which only moves up. A `Grant` is a
request as it was served: how far above the pointer the block starts, how many bytes its owner
may use, and how far the pointer moved. A grant that covers its block keeps every later block
off it (`pairwise_disjoint_iff`). A grant that is stuck hands out a block and leaves the pointer
where it was: the next block that has bytes lies on it.
-/

namespace Bump

/-- A request as it was served. -/
structure Grant where
  skip : Nat
  len : Nat
  adv : Nat

/-- The bytes of the block, for the pointer `p`. -/
def Grant.bytes (g : Grant) (p : Nat) : Set Nat := Set.Ico (p + g.skip) (p + g.skip + g.len)

/-- The pointer moved past the block. -/
def Grant.Covers (g : Grant) : Prop := g.skip + g.len ≤ g.adv

/-- The pointer did not move, and the block is longer than any skip. -/
def Grant.Stuck (bound : Nat) (g : Grant) : Prop := g.skip = 0 ∧ g.adv = 0 ∧ bound ≤ g.len

/-- A grant skips less than `bound`, an empty block takes nothing, and the grant covers its
block or is stuck. -/
structure Grant.Served (bound : Nat) (g : Grant) : Prop where
  skip_lt : g.skip < bound
  adv_of_empty : g.len = 0 → g.adv = 0
  covers_or_stuck : g.Covers ∨ g.Stuck bound

/-- The blocks of the grants from the pointer `p` on. -/
def blocks : Nat → List Grant → List (Set Nat)
  | _, [] => []
  | p, g :: gs => g.bytes p :: blocks (p + g.adv) gs

section
variable {p q bound : Nat} {g : Grant} {gs : List Grant} {b : Set Nat}

/-- An empty block has no bytes. -/
theorem Grant.bytes_of_empty (h : g.len = 0) : g.bytes p = ∅ := by
  unfold Grant.bytes
  rw [h, Nat.add_zero]
  exact Set.Ico_self _

/-- No block reaches below the pointer it was served from. -/
theorem le_of_mem_blocks (hb : b ∈ blocks p gs) {a : Nat} (ha : a ∈ b) : p ≤ a := by
  induction gs generalizing p with
  | nil => cases hb
  | cons g gs ih =>
      rcases List.mem_cons.1 hb with rfl | hb
      · exact (Nat.le_add_right p g.skip).trans ha.1
      · exact (Nat.le_add_right p g.adv).trans (ih hb)

/-- A covered block is disjoint from all later ones, which begin where the pointer has moved to. -/
theorem disjoint_of_covers (hg : g.Covers) (hb : b ∈ blocks (p + g.adv) gs) :
    Disjoint (g.bytes p) b := by
  refine Set.disjoint_left.2 fun a ha hab => ?_
  have hlow := le_of_mem_blocks hb hab
  have hhigh : a < p + g.skip + g.len := ha.2
  unfold Grant.Covers at hg
  omega

/-- A block that the pointer did not move past is disjoint from the later ones exactly when
these are all empty. -/
theorem disjoint_of_stuck_iff {n : Nat} (hn : bound ≤ n) (hgs : ∀ g ∈ gs, g.Served bound) :
    (∀ b ∈ blocks p gs, Disjoint (Set.Ico p (p + n)) b) ↔ ∀ g ∈ gs, g.len = 0 := by
  induction gs with
  | nil => exact ⟨fun _ => nofun, fun _ => nofun⟩
  | cons g gs ih =>
      have hg := hgs g List.mem_cons_self
      have ih := ih fun h hh => hgs h (List.mem_cons_of_mem g hh)
      rw [blocks, List.forall_mem_cons, List.forall_mem_cons]
      by_cases hlen : g.len = 0
      · rw [Grant.bytes_of_empty hlen, hg.adv_of_empty hlen, Nat.add_zero]
        exact and_congr (iff_of_true (Set.disjoint_empty _) hlen) ih
      · refine iff_of_false (fun ⟨hdis, _⟩ => ?_) fun ⟨h, _⟩ => hlen h
        -- the first byte of the block lies in the old one
        have hskip := hg.skip_lt
        have hold : p + g.skip ∈ Set.Ico p (p + n) := ⟨by omega, by omega⟩
        have hnew : p + g.skip ∈ g.bytes p := ⟨Nat.le_refl _, by omega⟩
        exact Set.disjoint_left.1 hdis hold hnew

/-- Blocks are pairwise disjoint exactly when no block follows a stuck one, empty ones apart. -/
theorem pairwise_disjoint_iff (hgs : ∀ g ∈ gs, g.Served bound) :
    (blocks p gs).Pairwise Disjoint ↔ gs.Pairwise fun g h => g.Covers ∨ h.len = 0 := by
  induction gs generalizing p with
  | nil => exact iff_of_true .nil .nil
  | cons g gs ih =>
      have hrest : ∀ h ∈ gs, h.Served bound := fun h hh => hgs h (List.mem_cons_of_mem g hh)
      rw [blocks, List.pairwise_cons, List.pairwise_cons]
      refine and_congr ?_ (ih hrest)
      rcases (hgs g List.mem_cons_self).covers_or_stuck with hcov | ⟨hskip, hadv, hlen⟩
      · exact iff_of_true (fun b hb => disjoint_of_covers hcov hb) fun h _ => .inl hcov
      · have hbytes : g.bytes p = Set.Ico p (p + g.len) := by
          unfold Grant.bytes
          rw [hskip, Nat.add_zero]
        rw [hadv, Nat.add_zero, hbytes, disjoint_of_stuck_iff hlen hrest]
        have hskip_lt := (hgs g List.mem_cons_self).skip_lt
        have hnot : ¬ g.Covers := by
          unfold Grant.Covers
          omega
        exact forall₂_congr fun h _ => (or_iff_right hnot).symm

end

end Bump
