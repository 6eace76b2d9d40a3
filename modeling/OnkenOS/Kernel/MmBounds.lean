import OnkenOS.Kernel.MmCalls

/-!
# The heap and the usable memory

`mm_init` puts the heap at the start of the largest usable entry of the memory map and forgets
where the entry ends: no call compares the heap pointer with it. The blocks stay inside the
entry as long as the calls, with their rounding, find room in it (`mm_heap_in_usable`).
-/

namespace OnkenOS

open Machine

/-- The block of `len` bytes at `p` lies inside the entry, shifted by `hhdmOffset`. -/
def MemmapEntry.Holds (e : MemmapEntry) (hhdmOffset p : BitVec 64) (len : Nat) : Prop :=
  (p - (e.base + hhdmOffset)).toNat + len ≤ e.length.toNat

instance (e : MemmapEntry) (hhdmOffset p : BitVec 64) (len : Nat) :
    Decidable (e.Holds hhdmOffset p len) := inferInstanceAs (Decidable (_ ≤ _))

/-- The length of the largest usable entry. -/
def largestUsable (entries : List MemmapEntry) : Nat :=
  ((entries.filter MemmapEntry.usable).map fun e => e.length.toNat).foldr max 0

/-- What a call takes from the heap, its rounding included. -/
def MmCall.need (s : MmState) (call : MmCall) : Nat := max call.length (call.advance s).toNat

/-- What was handed out so far and the call find room in the largest usable entry, and in the
sum of the usable memory (which is the larger one unless it wraps). -/
def FitsHeap (entries : List MemmapEntry) (s : MmState) (call : MmCall) : Prop :=
  s.kmallocBytes.toNat + call.need s ≤ largestUsable entries ∧
    s.kmallocBytes.toNat + call.need s ≤ s.totalMemBytes.toNat

/-- The call returns null or a block inside a usable entry, and after it the reported numbers
are those of the memory there is. -/
def HeapLaw (entries : List MemmapEntry) (hhdmOffset : BitVec 64) (s : MmState) (call : MmCall) :
    Prop :=
  ((mmCall s call).1 = 0 ∨
      ∃ e ∈ entries, e.usable = true ∧ e.Holds hhdmOffset (mmCall s call).1 call.length) ∧
    (mmGetInfo (mmStep s call)).heapUsedBytes ≤ (mmGetInfo (mmStep s call)).totalMemory ∧
    (mmGetInfo (mmStep s call)).freeMemory.toNat =
      (mmGetInfo (mmStep s call)).totalMemory.toNat - (mmGetInfo (mmStep s call)).usedMemory.toNat

/-! ## The scan of the memory map -/

section
variable {entries : List MemmapEntry}

/-- The largest usable entry, by the first entry. -/
theorem largestUsable_cons (e : MemmapEntry) (entries : List MemmapEntry) :
    largestUsable (e :: entries) =
      if e.usable then max e.length.toNat (largestUsable entries) else largestUsable entries := by
  unfold largestUsable
  rw [List.filter_cons]
  split <;> rfl

/-- No usable entry is larger. -/
theorem length_le_largestUsable {e : MemmapEntry} (he : e ∈ entries) (hu : e.usable = true) :
    e.length.toNat ≤ largestUsable entries := by
  induction entries with
  | nil => cases he
  | cons f entries ih =>
      rw [largestUsable_cons]
      rcases List.mem_cons.1 he with rfl | he
      · rw [if_pos hu]
        exact le_max_left _ _
      · split
        · exact (ih he).trans (le_max_right _ _)
        · exact ih he

/-- The scan keeps the entry it has, or takes a larger usable one. -/
theorem visit_cases (v : MemmapScan) (e : MemmapEntry) :
    (e.usable = true ∧ v.maxLen.toNat < e.length.toNat ∧
        (v.visit e).maxLen = e.length ∧ (v.visit e).bestBase = e.base) ∨
      ((e.usable = true → e.length.toNat ≤ v.maxLen.toNat) ∧
        (v.visit e).maxLen = v.maxLen ∧ (v.visit e).bestBase = v.bestBase) := by
  unfold MemmapScan.visit
  by_cases hu : e.usable = true
  · rw [if_pos hu]
    by_cases hlt : v.maxLen < e.length
    · rw [if_pos hlt]
      exact .inl ⟨hu, BitVec.lt_def.1 hlt, rfl, rfl⟩
    · rw [if_neg hlt]
      exact .inr ⟨fun _ => BitVec.not_lt.1 hlt, rfl, rfl⟩
  · rw [if_neg hu]
    exact .inr ⟨fun h => absurd h hu, rfl, rfl⟩

/-- The scan finds the length of the largest usable entry, at the base of such an entry. -/
theorem foldl_visit (entries : List MemmapEntry) (v : MemmapScan) :
    (entries.foldl .visit v).maxLen.toNat = max v.maxLen.toNat (largestUsable entries) ∧
      (((entries.foldl .visit v).maxLen = v.maxLen ∧
          (entries.foldl .visit v).bestBase = v.bestBase) ∨
        ∃ e ∈ entries, e.usable = true ∧ e.length = (entries.foldl .visit v).maxLen ∧
          e.base = (entries.foldl .visit v).bestBase) := by
  induction entries generalizing v with
  | nil => exact ⟨(max_eq_left (Nat.zero_le _)).symm, .inl ⟨rfl, rfl⟩⟩
  | cons e entries ih =>
      obtain ⟨hmax, hbest⟩ := ih (v.visit e)
      rw [List.foldl_cons, largestUsable_cons, hmax]
      have hmem : ∀ f ∈ entries, f ∈ e :: entries := fun f => List.mem_cons_of_mem e
      rcases visit_cases v e with ⟨hu, hlt, hlen, hbase⟩ | ⟨hle, hlen, hbase⟩
      · rw [if_pos hu, hlen]
        refine ⟨by omega, .inr ?_⟩
        rcases hbest with ⟨hm, hb⟩ | ⟨f, hf, hfu, hfl, hfb⟩
        · exact ⟨e, List.mem_cons_self, hu, (hm.trans hlen).symm, (hb.trans hbase).symm⟩
        · exact ⟨f, hmem f hf, hfu, hfl, hfb⟩
      · rw [hlen]
        refine ⟨?_, ?_⟩
        · split
          · next hu =>
              have := hle hu
              omega
          · rfl
        · rcases hbest with ⟨hm, hb⟩ | ⟨f, hf, hfu, hfl, hfb⟩
          · exact .inl ⟨hm.trans hlen, hb.trans hbase⟩
          · exact .inr ⟨f, hmem f hf, hfu, hfl, hfb⟩

/-- The entry that `mm_init` puts the heap into: a usable one, and none is larger. -/
theorem memmapScan_spec (h : ∃ e ∈ entries, e.usable = true ∧ e.length ≠ 0) :
    (memmapScan entries).maxLen.toNat = largestUsable entries ∧ 0 < (memmapScan entries).maxLen ∧
      ∃ e ∈ entries, e.usable = true ∧ e.length = (memmapScan entries).maxLen ∧
        e.base = (memmapScan entries).bestBase := by
  obtain ⟨e, he, hu, hne⟩ := h
  obtain ⟨hmax, hbest⟩ := foldl_visit entries ⟨0, 0, 0⟩
  have hpos : 0 < e.length.toNat := Nat.pos_of_ne_zero fun hz => hne (BitVec.eq_of_toNat_eq hz)
  have hle := length_le_largestUsable he hu
  have hmax : (memmapScan entries).maxLen.toNat = largestUsable entries :=
    hmax.trans (max_eq_right (Nat.zero_le _))
  refine ⟨hmax, BitVec.lt_def.2 (by rw [hmax]; exact hpos.trans_le hle), ?_⟩
  refine hbest.resolve_left fun ⟨hzero, _⟩ => ?_
  have hzero : (memmapScan entries).maxLen.toNat = 0 := congrArg BitVec.toNat hzero
  omega

/-! ## The invariant -/

/-- The heap pointer is as far from the start of the heap as bytes were handed out, and they
are within the entry and the total. -/
structure HeapInv (entries : List MemmapEntry) (hhdmOffset : BitVec 64) (s : MmState) : Prop where
  start : ∃ e ∈ entries, e.usable = true ∧ e.length.toNat = largestUsable entries ∧
    s.heapPtr = e.base + hhdmOffset + s.kmallocBytes
  used_le : s.kmallocBytes.toNat ≤ largestUsable entries
  used_le_total : s.kmallocBytes.toNat ≤ s.totalMemBytes.toNat

/-- The page that `palloc` takes starts less than a page above the heap pointer. -/
theorem alignedPage_sub (p : BitVec 64) :
    (alignedPage p - p).toNat < 4096 ∧
      (alignedPage p + 4096 - p).toNat = (alignedPage p - p).toNat + 4096 := by
  have hpage : (alignedPage p).toNat = (p + 4095).toNat - (p + 4095).toNat % 4096 :=
    toNat_and_not_low (k := 12) (p + 4095) 4095 rfl
  generalize alignedPage p = page at hpage
  bv_omega

/-- Where the block of a call starts, above the heap pointer, and what it needs. -/
theorem mmCall_offset (s : MmState) (call : MmCall) :
    (mmCall s call).1 = 0 ∨
      ∃ d : BitVec 64, (mmCall s call).1 = s.heapPtr + d ∧
        d.toNat + call.length ≤ call.need s := by
  unfold MmCall.need
  rcases mmCall_cases s call with ⟨hcall, -⟩ | ⟨size, hcall, hlen, -⟩ | ⟨hcall, hlen, hadv, -⟩
  · rw [hcall]
    exact .inl rfl
  · rw [hcall]
    refine .inr ⟨0#64, (BitVec.add_zero _).symm, ?_⟩
    rw [BitVec.toNat_ofNat, Nat.zero_mod, Nat.zero_add]
    exact le_max_left _ _
  · rw [hcall, hlen, hadv, (alignedPage_sub s.heapPtr).2]
    refine .inr ⟨alignedPage s.heapPtr - s.heapPtr, ?_, le_max_right _ _⟩
    rw [BitVec.add_comm, BitVec.sub_add_cancel]
    rfl

/-- A call that finds room keeps the invariant and obeys the law. -/
theorem HeapInv.step {hhdmOffset : BitVec 64} {s : MmState} (h : HeapInv entries hhdmOffset s)
    {call : MmCall} (hfits : FitsHeap entries s call) :
    HeapInv entries hhdmOffset (mmStep s call) ∧ HeapLaw entries hhdmOffset s call := by
  obtain ⟨⟨e, he, hu, hlen, hptr⟩, -, -⟩ := h
  obtain ⟨hroom, htotal⟩ := hfits
  obtain ⟨hptr', hused', htotal', -⟩ := mmStep_statics s call
  have hadv : (call.advance s).toNat ≤ call.need s := le_max_right _ _
  have hlt : e.length.toNat < 2 ^ 64 := e.length.isLt
  have hsum : (s.kmallocBytes + call.advance s).toNat =
      s.kmallocBytes.toNat + (call.advance s).toNat :=
    BitVec.toNat_add_of_lt (by omega)
  refine ⟨⟨⟨e, he, hu, hlen, ?_⟩, ?_, ?_⟩, ?_, ?_, ?_⟩
  · rw [hptr', hused', hptr, BitVec.add_assoc]
  · rw [hused', hsum]
    omega
  · rw [hused', hsum, htotal']
    omega
  · refine (mmCall_offset s call).imp_right fun ⟨d, hd, hneed⟩ => ⟨e, he, hu, ?_⟩
    have hdiff : (mmCall s call).1 - (e.base + hhdmOffset) = s.kmallocBytes + d := by
      rw [hd, hptr, BitVec.add_assoc, BitVec.add_comm (e.base + hhdmOffset),
        BitVec.add_sub_cancel]
    have hoff : (s.kmallocBytes + d).toNat = s.kmallocBytes.toNat + d.toNat :=
      BitVec.toNat_add_of_lt (by omega)
    unfold MemmapEntry.Holds
    rw [hdiff, hoff, hlen]
    omega
  · change (mmStep s call).kmallocBytes ≤ (mmStep s call).totalMemBytes
    rw [BitVec.le_def, hused', hsum, htotal']
    omega
  · change ((mmStep s call).totalMemBytes - (mmStep s call).kmallocBytes).toNat =
      (mmStep s call).totalMemBytes.toNat - (mmStep s call).kmallocBytes.toNat
    rw [BitVec.toNat_sub_of_le]
    rw [BitVec.le_def, hused', hsum, htotal']
    omega

/-- After `mm_init` nothing is handed out, and the heap is the whole of the entry. -/
theorem mmInit_heapInv (kernelEnd hhdmOffset : BitVec 64)
    (husable : ∃ e ∈ entries, e.usable = true ∧ e.length ≠ 0) :
    HeapInv entries hhdmOffset (mmInit .static kernelEnd hhdmOffset entries) := by
  obtain ⟨hmax, hpos, e, he, hu, hlen, hbase⟩ := memmapScan_spec husable
  refine ⟨⟨e, he, hu, by rw [hlen, hmax], ?_⟩, Nat.zero_le _, Nat.zero_le _⟩
  have hptr : (mmInit .static kernelEnd hhdmOffset entries).heapPtr =
      (memmapScan entries).bestBase + hhdmOffset := if_pos hpos
  rw [hptr, hbase]
  exact (BitVec.add_zero _).symm

/-- As long as the calls find room in the largest usable entry, every one of them returns null or a
block inside a usable entry, and the reported numbers add up: the heap pointer stays in that entry,
and the bytes that were taken are its way from the start. -/
theorem mm_heap_in_usable (kernelEnd hhdmOffset : BitVec 64) (entries : List MemmapEntry)
    (husable : ∃ e ∈ entries, e.usable = true ∧ e.length ≠ 0) (calls : List MmCall)
    (hok : RunOk mmStep (FitsHeap entries) (mmInit .static kernelEnd hhdmOffset entries) calls) :
    RunOk mmStep (HeapLaw entries hhdmOffset) (mmInit .static kernelEnd hhdmOffset entries)
      calls :=
  RunOk_imp (HeapInv entries hhdmOffset) (fun _ _ h hfits => h.step hfits) calls
    (mmInit_heapInv kernelEnd hhdmOffset husable) hok

/-- A memory map whose second entry is the only usable one, of one page. -/
def onePage : List MemmapEntry := [⟨0, 0x10000, 1⟩, ⟨0x10000, 0x1000, 0⟩]

/-- A run of the theorem: the whole page, in two blocks. -/
theorem mm_heap_in_usable_one_page :
    RunOk mmStep (HeapLaw onePage 0xFFFF800000000000)
      (mmInit .static 0 0xFFFF800000000000 onePage) [.kmalloc 100, .krealloc 0 0xF90] := by
  refine mm_heap_in_usable 0 0xFFFF800000000000 onePage ⟨⟨0x10000, 0x1000, 0⟩, ?_, ?_, ?_⟩
    [.kmalloc 100, .krealloc 0 0xF90] ⟨?_, ?_, trivial⟩
  · decide
  · decide
  · decide
  · exact ⟨by decide, by decide⟩
  · exact ⟨by decide, by decide⟩

/-- Two pages out of one: the block is in no usable entry, more bytes are used than there are,
and the free memory wraps. -/
theorem mm_heap_leaves_usable :
    ¬ ∀ calls : List MmCall, RunOk mmStep (HeapLaw onePage 0xFFFF800000000000)
      (mmInit .static 0 0xFFFF800000000000 onePage) calls := by
  intro h
  obtain ⟨⟨hblock, -⟩, -⟩ := h [.kmalloc 0x2000]
  exact absurd hblock (by decide)

end

end OnkenOS
