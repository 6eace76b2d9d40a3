import OnkenOS.Kernel.MmCalls

/-!
# The blocks of the allocator

Every call, as a grant of the bump allocator (`Bump.Grant`): `kmalloc` covers its block, unless
the size is so close to `2 ^ 32` that rounding it wraps to zero, and then it is stuck.
`mm_blocks_disjoint_iff` is the exact condition under which the blocks of a list of calls are
pairwise disjoint.
-/

namespace OnkenOS

open Machine Bump

/-- The call does not wrap the heap pointer. -/
def NoWrap (s : MmState) (call : MmCall) : Prop :=
  s.heapPtr.toNat ≤ (mmStep s call).heapPtr.toNat

instance (s : MmState) (call : MmCall) : Decidable (NoWrap s call) :=
  inferInstanceAs (Decidable (_ ≤ _))

/-- A call as the bump allocator serves it. -/
def MmCall.grant (s : MmState) (call : MmCall) : Grant where
  skip := (mmCall s call).1.toNat - s.heapPtr.toNat
  len := call.length
  adv := (mmStep s call).heapPtr.toNat - s.heapPtr.toNat

/-- The grants of a list of calls. -/
def grants : MmState → List MmCall → List Grant
  | _, [] => []
  | s, call :: calls => call.grant s :: grants (mmStep s call) calls

section
variable {s : MmState} {call : MmCall}

/-- The page that `palloc` takes: at most 4095 bytes above the heap pointer, which ends behind
it. -/
theorem alignedPage_toNat {p : BitVec 64} (h : p.toNat ≤ (alignedPage p + 4096).toNat) :
    p.toNat ≤ (alignedPage p).toNat ∧ (alignedPage p).toNat < p.toNat + 4096 ∧
      (alignedPage p + 4096).toNat = (alignedPage p).toNat + 4096 := by
  have hpage : (alignedPage p).toNat = (p + 4095).toNat - (p + 4095).toNat % 4096 :=
    toNat_and_not_low (k := 12) (p + 4095) 4095 rfl
  generalize alignedPage p = page at h hpage
  bv_omega

/-- A call whose size is rounded takes the rounded size from the heap pointer on. -/
theorem heapPtr_advance {size : BitVec 32} {p : BitVec 64}
    (h : p.toNat ≤ (p + (alignedSize size).setWidth 64).toNat) :
    (p + (alignedSize size).setWidth 64).toNat = p.toNat + (alignedSize size).toNat := by
  bv_omega

/-- The numbers of a grant, for each kind of call: nothing is asked for, a size is rounded up to
sixteen, or a page is taken behind the next page boundary. -/
theorem grant_cases (hw : NoWrap s call) :
    ((call.grant s).skip = 0 ∧ (call.grant s).len = 0 ∧ (call.grant s).adv = 0 ∧ ¬ call.Wraps) ∨
      (∃ size : BitVec 32, (mmCall s call).1.toNat = s.heapPtr.toNat + (call.grant s).skip ∧
        (call.grant s).skip = 0 ∧ (call.grant s).len = size.toNat ∧
        (call.grant s).adv = (alignedSize size).toNat ∧
        (call.Wraps ↔ 2 ^ 32 - 16 < size.toNat)) ∨
      ((mmCall s call).1.toNat = s.heapPtr.toNat + (call.grant s).skip ∧
        (call.grant s).skip < 4096 ∧ (call.grant s).len = 4096 ∧
        (call.grant s).adv = (call.grant s).skip + 4096 ∧ ¬ call.Wraps) := by
  have hstep := (mmStep_statics s call).1
  unfold NoWrap at hw
  unfold MmCall.grant
  rw [hstep] at hw ⊢
  rcases mmCall_cases s call with ⟨hcall, hlen, hadv, hwrap⟩ | ⟨size, hcall, hlen, hadv, hwrap⟩ |
    ⟨hcall, hlen, hadv, hwrap⟩
  · rw [hcall, hlen, hadv, BitVec.add_zero]
    exact .inl ⟨Nat.zero_sub _, rfl, Nat.sub_self _, hwrap⟩
  · rw [hadv] at hw
    rw [hcall, hlen, hadv, heapPtr_advance hw, Nat.sub_self, Nat.add_sub_cancel_left]
    exact .inr (.inl ⟨size, rfl, rfl, rfl, rfl, hwrap⟩)
  · have hptr : s.heapPtr + call.advance s = alignedPage s.heapPtr + 4096 := by
      rw [hadv, BitVec.add_comm, BitVec.sub_add_cancel]
    rw [hptr] at hw ⊢
    obtain ⟨hle, hlt, hend⟩ := alignedPage_toNat hw
    have hpage : (palloc s).1 = alignedPage s.heapPtr := rfl
    rw [hcall, hlen, hpage, hend]
    dsimp only
    exact .inr (.inr ⟨by omega, by omega, rfl, by omega, hwrap⟩)

/-- A call hands out the block of its grant, which covers the block unless the size wraps. -/
theorem grant_spec (hw : NoWrap s call) :
    (call.grant s).Served 4096 ∧ ((call.grant s).Covers ↔ ¬ call.Wraps) ∧
      call.bytes (mmCall s call).1 = (call.grant s).bytes s.heapPtr.toNat := by
  have hbytes : (call.grant s).len = 0 ∨
      (mmCall s call).1.toNat = s.heapPtr.toNat + (call.grant s).skip →
      call.bytes (mmCall s call).1 = (call.grant s).bytes s.heapPtr.toNat := by
    rintro (hlen | hptr)
    · rw [Grant.bytes_of_empty hlen]
      unfold MmCall.bytes
      rw [show call.length = 0 from hlen, Nat.add_zero]
      exact Set.Ico_self _
    · unfold MmCall.bytes Grant.bytes
      rw [hptr]
      rfl
  rcases grant_cases hw with ⟨hskip, hlen, hadv, hwrap⟩ | ⟨size, hptr, hskip, hlen, hadv, hwrap⟩ |
    ⟨hptr, hskip, hlen, hadv, hwrap⟩
  · have hcov : (call.grant s).Covers := by
      unfold Grant.Covers
      omega
    exact ⟨⟨by omega, fun _ => hadv, .inl hcov⟩, iff_of_true hcov hwrap, hbytes (.inl hlen)⟩
  · rcases alignedSize_toNat size with ⟨hsize, hfit, -⟩ | ⟨hsize, hzero⟩
    · have hcov : (call.grant s).Covers := by
        unfold Grant.Covers
        omega
      refine ⟨⟨by omega, fun hempty => ?_, .inl hcov⟩, iff_of_true hcov ?_, hbytes (.inr hptr)⟩
      · have hz : size = 0 := BitVec.eq_of_toNat_eq (hlen.symm.trans hempty)
        rw [hadv, hz]
        rfl
      · rw [hwrap]
        omega
    · have hnot : ¬ (call.grant s).Covers := by
        unfold Grant.Covers
        omega
      have hstuck : (call.grant s).Stuck 4096 := ⟨hskip, hadv.trans hzero, by omega⟩
      refine ⟨⟨by omega, fun _ => hstuck.2.1, .inr hstuck⟩, iff_of_false hnot ?_,
        hbytes (.inr hptr)⟩
      rw [hwrap, not_not]
      exact hsize
  · have hcov : (call.grant s).Covers := by
      unfold Grant.Covers
      omega
    exact ⟨⟨hskip, fun _ => by omega, .inl hcov⟩, iff_of_true hcov hwrap, hbytes (.inr hptr)⟩

/-! ## Runs of calls -/

/-- The blocks of the calls are the blocks of their grants. -/
theorem mmBlocks_eq {calls : List MmCall} (hok : RunOk mmStep NoWrap s calls) :
    mmBlocks s calls = blocks s.heapPtr.toNat (grants s calls) := by
  induction calls generalizing s with
  | nil => rfl
  | cons call calls ih =>
      obtain ⟨hw, hok⟩ := hok
      have hadv : s.heapPtr.toNat + (call.grant s).adv = (mmStep s call).heapPtr.toNat :=
        Nat.add_sub_of_le hw
      rw [mmBlocks, grants, blocks, (grant_spec hw).2.2, hadv, ih hok]

/-- Every request skips less than a page for its alignment, and the pointer moves past its block
unless rounding the size up has wrapped to zero. -/
theorem grants_served {calls : List MmCall} (hok : RunOk mmStep NoWrap s calls) :
    ∀ g ∈ grants s calls, g.Served 4096 := by
  induction calls generalizing s with
  | nil => exact nofun
  | cons call calls ih =>
      obtain ⟨hw, hok⟩ := hok
      exact List.forall_mem_cons.2 ⟨(grant_spec hw).1, ih hok⟩

/-- The blocks have the lengths that were asked for. -/
theorem map_len_grants (s : MmState) (calls : List MmCall) :
    (grants s calls).map Grant.len = calls.map MmCall.length := by
  induction calls generalizing s with
  | nil => rfl
  | cons call calls ih =>
      rw [grants, List.map_cons, List.map_cons, ih]
      rfl

/-- A grant that does not cover its block is that of a call whose size wraps. -/
theorem grants_pairwise_iff {calls : List MmCall} (hok : RunOk mmStep NoWrap s calls) :
    ((grants s calls).Pairwise fun g h => g.Covers ∨ h.len = 0) ↔
      calls.Pairwise fun c d => c.Wraps → d.length = 0 := by
  induction calls generalizing s with
  | nil => exact iff_of_true .nil .nil
  | cons call calls ih =>
      obtain ⟨hw, hok⟩ := hok
      rw [grants, List.pairwise_cons, List.pairwise_cons, ih hok]
      refine and_congr_left' ?_
      have hlens : (∀ h ∈ grants (mmStep s call) calls, h.len = 0) ↔
          ∀ d ∈ calls, d.length = 0 := by
        rw [← List.forall_mem_map (P := (· = 0)), map_len_grants, List.forall_mem_map]
      by_cases hwrap : call.Wraps
      · have hnot : ¬ (call.grant s).Covers := fun hcov => (grant_spec hw).2.1.1 hcov hwrap
        simp only [hnot, hwrap, false_or, true_imp_iff]
        exact hlens
      · have hcov : (call.grant s).Covers := (grant_spec hw).2.1.2 hwrap
        exact iff_of_true (fun _ _ => .inl hcov) fun _ _ h => absurd h hwrap

/-- The blocks of a run are pairwise disjoint exactly when no call whose size wraps is followed by a
call for bytes: rounding up such a size gives zero, so the heap pointer stays, and the next block
begins where that one does. -/
theorem mm_blocks_disjoint_iff (s : MmState) (calls : List MmCall)
    (hok : RunOk mmStep NoWrap s calls) :
    (mmBlocks s calls).Pairwise Disjoint ↔
      calls.Pairwise fun c d => c.Wraps → d.length = 0 := by
  rw [mmBlocks_eq hok, pairwise_disjoint_iff (grants_served hok), grants_pairwise_iff hok]

/-- An allocator whose heap starts at 64 KiB. -/
def mmAt64K : MmState :=
  mmInit .static 0 0 [⟨0x10000, 0x100000, 0⟩]

/-- A run of the theorem: three blocks, of a size, a page and a size again. -/
theorem mm_blocks_disjoint_three :
    (mmBlocks mmAt64K [.kmalloc 100, .palloc, .krealloc 0x10000 7]).Pairwise Disjoint := by
  refine (mm_blocks_disjoint_iff mmAt64K [.kmalloc 100, .palloc, .krealloc 0x10000 7] ?_).2 ?_
  · exact ⟨by decide, by decide, by decide, trivial⟩
  · decide

/-- A block of almost four gigabytes, and sixteen bytes: both start at the heap pointer. -/
theorem mm_blocks_overlap :
    ¬ ∀ calls : List MmCall, RunOk mmStep NoWrap mmAt64K calls →
      (mmBlocks mmAt64K calls).Pairwise Disjoint := by
  intro h
  have hpair := h [.kmalloc 0xFFFFFFF1, .kmalloc 16] ⟨by decide, by decide, trivial⟩
  have hdis := List.rel_of_pairwise_cons hpair List.mem_cons_self
  have hfirst : 0x10000 ∈ MmCall.bytes (.kmalloc 0xFFFFFFF1) 0x10000 := ⟨by decide, by decide⟩
  have hsecond : 0x10000 ∈ MmCall.bytes (.kmalloc 16) 0x10000 := ⟨by decide, by decide⟩
  exact Set.disjoint_left.1 hdis hfirst hsecond

end

end OnkenOS
