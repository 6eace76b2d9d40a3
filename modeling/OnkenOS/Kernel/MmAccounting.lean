import OnkenOS.Kernel.MmCalls

/-!
# The counters of the memory manager

What `mm_get_info` reports is exact: the used bytes are the distance the heap pointer has moved,
padding included, and the two counts are the numbers of calls. The heap pointer stays a multiple
of sixteen, since every call moves it by a multiple of sixteen or to the end of a page
(`mm_accounting_exact`).
-/

namespace OnkenOS

open Machine

/-- The calls that end in `kmalloc`: a `krealloc` to size zero does not. -/
def MmCall.allocates : MmCall → Bool
  | .kmalloc _ => true
  | .krealloc _ newSize => newSize != 0
  | .palloc => false

/-- The calls of `palloc`. -/
def MmCall.takesPage : MmCall → Bool
  | .palloc => true
  | .kmalloc _ | .krealloc .. => false

/-- What the pointer that a call returns is a multiple of. -/
def MmCall.alignment : MmCall → Nat
  | .kmalloc _ | .krealloc .. => 16
  | .palloc => 4096

/-- The counters agree with the heap pointer and with the calls made so far. -/
structure Accounts (s : MmState) (calls : List MmCall) : Prop where
  used : s.kmallocBytes = s.heapPtr - s.heapStartAddr
  allocations : s.kmallocCount = BitVec.ofNat 64 (calls.countP MmCall.allocates)
  pages : s.pageAllocCount = BitVec.ofNat 64 (calls.countP MmCall.takesPage)
  aligned : 16 ∣ s.heapPtr.toNat

section
variable {s : MmState}

/-! ## Alignment -/

/-- A page starts at a multiple of 4096. -/
theorem dvd_alignedPage (p : BitVec 64) : 4096 ∣ (alignedPage p).toNat := by
  have hpage : (alignedPage p).toNat = (p + 4095).toNat - (p + 4095).toNat % 4096 :=
    toNat_and_not_low (k := 12) (p + 4095) 4095 rfl
  rw [hpage]
  exact Nat.dvd_sub_mod _

/-- The size of a block is rounded to a multiple of sixteen, also where the rounding wraps. -/
theorem dvd_alignedSize (size : BitVec 32) : 16 ∣ (alignedSize size).toNat := by
  unfold alignedSize
  rw [toNat_and_not_15]
  exact Nat.dvd_sub_mod _

/-- Multiples of a power of two are closed under the wrapping sum. -/
theorem dvd_toNat_add {k : Nat} {p q : BitVec 64} (hk : k ∣ 2 ^ 64) (hp : k ∣ p.toNat)
    (hq : k ∣ q.toNat) : k ∣ (p + q).toNat := by
  rw [BitVec.toNat_add]
  exact (Nat.dvd_mod_iff hk).2 (Nat.dvd_add hp hq)

/-- A call leaves the heap pointer at a multiple of sixteen: sizes are rounded up to one, and so is
a page. -/
theorem mmStep_aligned (h : 16 ∣ s.heapPtr.toNat) (call : MmCall) :
    16 ∣ (mmStep s call).heapPtr.toNat := by
  have hk : 16 ∣ 2 ^ 64 := by simp
  rw [(mmStep_statics s call).1]
  rcases mmCall_cases s call with ⟨-, -, hadv, -⟩ | ⟨size, -, -, hadv, -⟩ | ⟨-, -, hadv, -⟩
  · rw [hadv, BitVec.add_zero]
    exact h
  · have hsize : 16 ∣ ((alignedSize size).setWidth 64).toNat := by
      rw [BitVec.toNat_setWidth_of_le (by simp)]
      exact dvd_alignedSize size
    rw [hadv]
    exact dvd_toNat_add hk h hsize
  · have hpage : 16 ∣ (alignedPage s.heapPtr).toNat :=
      Nat.dvd_trans (by simp) (dvd_alignedPage s.heapPtr)
    rw [hadv, BitVec.add_comm, BitVec.sub_add_cancel]
    exact dvd_toNat_add hk hpage (by simp)

/-- The pointer a call returns is aligned: a block starts at the heap pointer. -/
theorem dvd_mmCall (h : 16 ∣ s.heapPtr.toNat) (call : MmCall) :
    call.alignment ∣ (mmCall s call).1.toNat := by
  cases call with
  | kmalloc size => exact h
  | krealloc ptr size =>
      change 16 ∣ (krealloc s.toMm ptr size).1.toNat
      unfold krealloc
      split
      · exact Nat.dvd_zero 16
      · exact h
  | palloc => exact dvd_alignedPage s.heapPtr

/-! ## The counts -/

/-- A call of `kmalloc` is counted once, whoever makes it, and a call of `palloc` once. -/
theorem mmStep_counts (s : MmState) (call : MmCall) :
    (mmStep s call).kmallocCount = s.kmallocCount + (if call.allocates then 1 else 0) ∧
      (mmStep s call).pageAllocCount = s.pageAllocCount + (if call.takesPage then 1 else 0) := by
  cases call with
  | kmalloc size => exact ⟨rfl, (BitVec.add_zero _).symm⟩
  | krealloc ptr size =>
      refine ⟨?_, (BitVec.add_zero _).symm⟩
      change (krealloc s.toMm ptr size).2.kmallocCount = _
      rcases eq_or_ne size 0 with rfl | hne
      · exact (BitVec.add_zero _).symm
      · rw [krealloc_of_ne s.toMm ptr hne]
        have hsize : ¬ size = 0#32 := hne
        simp [MmCall.allocates, hsize, kmalloc]
  | palloc => simp [mmStep, mmCall, palloc, MmCall.allocates, MmCall.takesPage]

/-- Counting one more call adds one to a 64-bit counter, or nothing. -/
theorem ofNat_countP_concat (p : MmCall → Bool) (calls : List MmCall) (call : MmCall) :
    BitVec.ofNat 64 ((calls ++ [call]).countP p) =
      BitVec.ofNat 64 (calls.countP p) + (if p call then 1 else 0) := by
  rw [List.countP_append, List.countP_singleton, BitVec.ofNat_add]
  split <;> rfl

/-! ## Runs -/

/-- Each call keeps the accounts: what it adds to a counter is what it takes. -/
theorem Accounts.step {calls : List MmCall} (h : Accounts s calls) (call : MmCall) :
    Accounts (mmStep s call) (calls ++ [call]) := by
  obtain ⟨hptr, hbytes, -, hstart⟩ := mmStep_statics s call
  obtain ⟨hallocs, hpages⟩ := mmStep_counts s call
  refine ⟨?_, ?_, ?_, mmStep_aligned h.aligned call⟩
  · rw [hptr, hbytes, hstart, h.used]
    bv_omega
  · rw [hallocs, h.allocations, ofNat_countP_concat]
  · rw [hpages, h.pages, ofNat_countP_concat]

/-- After any calls the counters say what all the calls so far have used. By induction from one
call. -/
theorem Accounts.run {past : List MmCall} (calls : List MmCall) (h : Accounts s past) :
    Accounts (run mmStep s calls) (past ++ calls) := by
  induction calls generalizing s past with
  | nil => simpa using h
  | cons call calls ih => simpa using ih (h.step call)

/-- `mm_init` starts the accounts at the heap it chose, with nothing used. -/
theorem mmInit_accounts {kernelEnd hhdmOffset : BitVec 64} {entries : List MemmapEntry}
    (h : 4096 ∣ (mmInit .static kernelEnd hhdmOffset entries).heapPtr.toNat) :
    Accounts (mmInit .static kernelEnd hhdmOffset entries) [] :=
  ⟨(BitVec.sub_self _).symm, rfl, rfl, Nat.dvd_trans (by simp) h⟩

/-- After any calls from a heap that starts at a page, the reported numbers are exact, and the next
call returns an aligned pointer: the counters and the pointer go up together in every call. -/
theorem mm_accounting_exact (kernelEnd hhdmOffset : BitVec 64) (entries : List MemmapEntry)
    (h : 4096 ∣ (mmInit .static kernelEnd hhdmOffset entries).heapPtr.toNat)
    (calls : List MmCall) :
    let s := run mmStep (mmInit .static kernelEnd hhdmOffset entries) calls
    let info := mmGetInfo s
    info.heapUsedBytes = info.heapEnd - info.heapStart ∧
      info.usedMemory = info.heapEnd - info.heapStart ∧
      info.heapAllocations.toNat = calls.countP MmCall.allocates % 2 ^ 64 ∧
      info.pageAllocations.toNat = calls.countP MmCall.takesPage % 2 ^ 64 ∧
      ∀ call : MmCall, call.alignment ∣ (mmCall s call).1.toNat := by
  intro s info
  have hacc : Accounts s ([] ++ calls) := (mmInit_accounts h).run calls
  refine ⟨hacc.used, hacc.used, ?_, ?_, fun call => dvd_mmCall hacc.aligned call⟩
  · have hcount : s.kmallocCount = _ := hacc.allocations
    rw [List.nil_append] at hcount
    exact (congrArg BitVec.toNat hcount).trans (BitVec.toNat_ofNat _ _)
  · have hcount : s.pageAllocCount = _ := hacc.pages
    rw [List.nil_append] at hcount
    exact (congrArg BitVec.toNat hcount).trans (BitVec.toNat_ofNat _ _)

/-- A block of five bytes, a page and a call whose size wraps, on a heap at 4096. -/
theorem mm_accounting_exact_three :
    let s := run mmStep (mmInit .static 0 0 [⟨4096, 65536, 0⟩])
      [.kmalloc 5, .palloc, .krealloc 4096 0xFFFFFFFF]
    let info := mmGetInfo s
    info.heapUsedBytes = info.heapEnd - info.heapStart ∧
      info.usedMemory = info.heapEnd - info.heapStart ∧
      info.heapAllocations.toNat = 2 % 2 ^ 64 ∧ info.pageAllocations.toNat = 1 % 2 ^ 64 ∧
      ∀ call : MmCall, call.alignment ∣ (mmCall s call).1.toNat :=
  mm_accounting_exact 0 0 [⟨4096, 65536, 0⟩] (by decide)
    [.kmalloc 5, .palloc, .krealloc 4096 0xFFFFFFFF]

end

end OnkenOS
