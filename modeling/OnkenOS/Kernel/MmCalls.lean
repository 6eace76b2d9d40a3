import OnkenOS.Lib.Run
import OnkenOS.Lib.Bump
import OnkenOS.Kernel.Mm
import OnkenOS.Drivers.Hardware

/-!
# The memory manager

The rest of `kernel/mm.c`: `mm_init` over the memory map of the boot loader, `krealloc`,
`palloc` and `mm_get_info`. What the blocks hold is not part of the state, so `krealloc`, which
copies into the block it returns, is here the call of `kmalloc` it makes; the copy is in
`OnkenOS.Kernel.MmContents`.
-/

namespace OnkenOS

/-- The static variables of `mm.c`. -/
structure MmState extends Mm where
  totalMemBytes : BitVec 64
  pageAllocCount : BitVec 64
  heapStartAddr : BitVec 64

/-- The static initialisers, before `mm_init` has run. -/
def MmState.static : MmState := ⟨⟨0, 0, 0⟩, 0, 0, 0⟩

/-- `limine_memmap_entry`. -/
structure MemmapEntry where
  base : BitVec 64
  length : BitVec 64
  type : BitVec 64
deriving DecidableEq

/-- `entry->type == LIMINE_MEMMAP_USABLE`. -/
def MemmapEntry.usable (e : MemmapEntry) : Bool := e.type == 0

/-- The variables of the loop in `mm_init`. -/
structure MemmapScan where
  maxLen : BitVec 64
  bestBase : BitVec 64
  totalMemBytes : BitVec 64

/-- The body of the loop in `mm_init`. -/
def MemmapScan.visit (v : MemmapScan) (entry : MemmapEntry) : MemmapScan :=
  if entry.usable then
    let v := { v with totalMemBytes := v.totalMemBytes + entry.length }
    if v.maxLen < entry.length then { v with maxLen := entry.length, bestBase := entry.base } else v
  else v

/-- The loop in `mm_init`. -/
def memmapScan (entries : List MemmapEntry) : MemmapScan := entries.foldl .visit ⟨0, 0, 0⟩

/-- `mm_init`, for a kernel that ends at `kernelEnd`. -/
def mmInit (s : MmState) (kernelEnd hhdmOffset : BitVec 64) (entries : List MemmapEntry) :
    MmState :=
  let v := memmapScan entries
  let heapPtr := if 0 < v.maxLen then v.bestBase + hhdmOffset else kernelEnd
  { s with heapPtr := heapPtr, totalMemBytes := v.totalMemBytes, heapStartAddr := heapPtr }

/-- `krealloc`. -/
def krealloc (s : Mm) (_ptr : BitVec 64) (newSize : BitVec 32) : BitVec 64 × Mm :=
  if newSize = 0 then (0, s) else kmalloc s newSize

/-- `(current + 4095) & ~4095`. -/
def alignedPage (current : BitVec 64) : BitVec 64 := (current + 4095) &&& ~~~4095

/-- `palloc`. -/
def palloc (s : MmState) : BitVec 64 × MmState :=
  let current := s.heapPtr
  let aligned := alignedPage current
  let heapPtr := aligned + 4096
  (aligned,
    { s with
      heapPtr := heapPtr
      pageAllocCount := s.pageAllocCount + 1
      kmallocBytes := s.kmallocBytes + (heapPtr - current) })

/-- `mem_info_t`. -/
structure MmInfo extends MemInfo where
  pageAllocations : BitVec 64
  heapUsedBytes : BitVec 64
  heapStart : BitVec 64
  heapEnd : BitVec 64

/-- `mm_get_info`. -/
def mmGetInfo (s : MmState) : MmInfo where
  totalMemory := s.totalMemBytes
  heapUsedBytes := s.kmallocBytes
  heapAllocations := s.kmallocCount
  pageAllocations := s.pageAllocCount
  usedMemory := s.kmallocBytes
  freeMemory := s.totalMemBytes - s.kmallocBytes
  heapStart := s.heapStartAddr
  heapEnd := s.heapPtr

/-! ## Calls -/

/-- The calls that hand out memory. -/
inductive MmCall where
  | kmalloc (size : BitVec 32)
  | krealloc (ptr : BitVec 64) (newSize : BitVec 32)
  | palloc
deriving DecidableEq

/-- A call: the pointer it returns, and the allocator after it. -/
def mmCall (s : MmState) : MmCall → BitVec 64 × MmState
  | .kmalloc size => ((kmalloc s.toMm size).1, { s with toMm := (kmalloc s.toMm size).2 })
  | .krealloc ptr newSize =>
      ((krealloc s.toMm ptr newSize).1, { s with toMm := (krealloc s.toMm ptr newSize).2 })
  | .palloc => palloc s

/-- The allocator after a call. -/
def mmStep (s : MmState) (call : MmCall) : MmState := (mmCall s call).2

/-- The bytes the caller asked for. -/
def MmCall.length : MmCall → Nat
  | .kmalloc size | .krealloc _ size => size.toNat
  | .palloc => 4096

/-- The bytes of the block that starts at the returned pointer. -/
def MmCall.bytes (call : MmCall) (p : BitVec 64) : Set Nat :=
  Set.Ico p.toNat (p.toNat + call.length)

/-- The blocks that a list of calls returns. -/
def mmBlocks : MmState → List MmCall → List (Set Nat)
  | _, [] => []
  | s, call :: calls => call.bytes (mmCall s call).1 :: mmBlocks (mmStep s call) calls

/-- The size is one that `kmalloc` rounds to zero. -/
def MmCall.Wraps : MmCall → Prop
  | .kmalloc size | .krealloc _ size => 2 ^ 32 - 16 < size.toNat
  | .palloc => False

instance : DecidablePred MmCall.Wraps
  | .kmalloc _ | .krealloc .. => inferInstanceAs (Decidable (_ < _))
  | .palloc => instDecidableFalse

/-! ## How far a call moves the heap pointer -/

/-- What a call adds to the heap pointer. -/
def MmCall.advance (s : MmState) : MmCall → BitVec 64
  | .kmalloc size | .krealloc _ size => (alignedSize size).setWidth 64
  | .palloc => alignedPage s.heapPtr + 4096 - s.heapPtr

/-- `krealloc` to a size that is not zero takes a new block. -/
theorem krealloc_of_ne (s : Mm) (ptr : BitVec 64) {size : BitVec 32} (h : size ≠ 0) :
    krealloc s ptr size = kmalloc s size := if_neg h

/-- A call is a `krealloc` to size zero, which does nothing, or takes a block of some size at
the heap pointer, or takes a page. -/
theorem mmCall_cases (s : MmState) (call : MmCall) :
    (mmCall s call = (0, s) ∧ call.length = 0 ∧ call.advance s = 0#64 ∧ ¬ call.Wraps) ∨
      (∃ size : BitVec 32, mmCall s call =
          (s.heapPtr, { s with toMm := (kmalloc s.toMm size).2 }) ∧
        call.length = size.toNat ∧ call.advance s = (alignedSize size).setWidth 64 ∧
        (call.Wraps ↔ 2 ^ 32 - 16 < size.toNat)) ∨
      (mmCall s call = palloc s ∧ call.length = 4096 ∧
        call.advance s = alignedPage s.heapPtr + 4096 - s.heapPtr ∧ ¬ call.Wraps) := by
  cases call with
  | kmalloc size => exact .inr (.inl ⟨size, rfl, rfl, rfl, Iff.rfl⟩)
  | krealloc ptr size =>
      by_cases h : size = 0
      · subst h
        exact .inl ⟨rfl, rfl, rfl, by simp [MmCall.Wraps]⟩
      · refine .inr (.inl ⟨size, ?_, rfl, rfl, Iff.rfl⟩)
        change ((krealloc s.toMm ptr size).1, _) = _
        rw [krealloc_of_ne s.toMm ptr h]
        rfl
  | palloc => exact .inr (.inr ⟨rfl, rfl, rfl, id⟩)

/-- What a call changes of the statics that `mm_get_info` reports: the heap pointer and the bytes in
use go up by the same number, and nothing else changes. -/
theorem mmStep_statics (s : MmState) (call : MmCall) :
    (mmStep s call).heapPtr = s.heapPtr + call.advance s ∧
      (mmStep s call).kmallocBytes = s.kmallocBytes + call.advance s ∧
      (mmStep s call).totalMemBytes = s.totalMemBytes ∧
      (mmStep s call).heapStartAddr = s.heapStartAddr := by
  unfold mmStep
  rcases mmCall_cases s call with ⟨hcall, -, hadv, -⟩ | ⟨size, hcall, -, hadv, -⟩ |
    ⟨hcall, -, hadv, -⟩
  · rw [hcall, hadv, BitVec.add_zero, BitVec.add_zero]
    exact ⟨rfl, rfl, rfl, rfl⟩
  · rw [hcall, hadv]
    exact ⟨rfl, rfl, rfl, rfl⟩
  · rw [hcall, hadv]
    have hptr : s.heapPtr + (alignedPage s.heapPtr + 4096 - s.heapPtr) =
        alignedPage s.heapPtr + 4096 := by
      rw [BitVec.add_comm, BitVec.sub_add_cancel]
    rw [hptr]
    unfold palloc
    exact ⟨rfl, rfl, rfl, rfl⟩

end OnkenOS
