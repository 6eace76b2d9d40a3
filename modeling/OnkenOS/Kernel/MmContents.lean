import OnkenOS.Lib.Words
import OnkenOS.Kernel.MmBlocks

/-!
# What the blocks hold

`krealloc` does not know how long the old block is and copies the new length, so its source
runs on behind the old block and into the block it is writing. The old bytes arrive all the same:
the new block starts at the heap pointer, which is past every block handed out before
(`le_heapPtr_of_mem`), so none of the old bytes is written to.
-/

namespace OnkenOS

open Machine Words Bump

/-- The bytes of the address space. -/
abbrev Ram := BitVec 64 → UInt8

/-- `memcpy(dest, src, n)`. -/
def memcpyBytes (mem : Ram) (dest src : BitVec 64) (n : Nat) : Ram :=
  copyWithin (fun i => dest + BitVec.ofNat 64 i) (fun i => src + BitVec.ofNat 64 i) n mem

/-- `krealloc`, with the memory it copies in. -/
def kreallocIn (s : Mm) (mem : Ram) (ptr : BitVec 64) (newSize : BitVec 32) :
    BitVec 64 × Mm × Ram :=
  if newSize = 0 then (0, s, mem)
  else
    let r := kmalloc s newSize
    if ptr ≠ 0 then (r.1, r.2, memcpyBytes mem r.1 ptr newSize.toNat) else (r.1, r.2, mem)

/-- The blocks that a list of calls returns, by their first byte and their length. -/
def mmReturns : MmState → List MmCall → List (BitVec 64 × Nat)
  | _, [] => []
  | s, call :: calls => ((mmCall s call).1, call.length) :: mmReturns (mmStep s call) calls

section
variable {s : MmState} {call : MmCall} {calls : List MmCall} {p : BitVec 64} {n : Nat}

/-- The copy changes neither the block that is returned nor the allocator. -/
theorem kreallocIn_eq (s : Mm) (mem : Ram) (ptr : BitVec 64) (newSize : BitVec 32) :
    ((kreallocIn s mem ptr newSize).1, (kreallocIn s mem ptr newSize).2.1) =
      krealloc s ptr newSize := by
  unfold kreallocIn krealloc
  split
  · rfl
  · split <;> rfl

/-- The blocks are the bytes from the returned pointers on. -/
theorem mmBlocks_eq_map (s : MmState) (calls : List MmCall) :
    mmBlocks s calls = (mmReturns s calls).map fun b => Set.Ico b.1.toNat (b.1.toNat + b.2) := by
  induction calls generalizing s with
  | nil => rfl
  | cons call calls ih =>
      rw [mmBlocks, mmReturns, List.map_cons, ih]
      rfl

/-! ## Below the heap pointer -/

/-- A call leaves the heap pointer behind the block it returns. -/
theorem mmCall_le_heapPtr (hw : NoWrap s call) (hsize : ¬ call.Wraps) :
    call.length = 0 ∨
      (mmCall s call).1.toNat + call.length ≤ (mmStep s call).heapPtr.toNat := by
  have hcov : (call.grant s).skip + (call.grant s).len ≤ (call.grant s).adv :=
    (grant_spec hw).2.1.2 hsize
  have hlen : (call.grant s).len = call.length := rfl
  have hadv : s.heapPtr.toNat + (call.grant s).adv = (mmStep s call).heapPtr.toNat :=
    Nat.add_sub_of_le hw
  rcases grant_cases hw with ⟨-, hzero, -⟩ | ⟨size, hptr, -⟩ | ⟨hptr, -⟩
  · exact .inl hzero
  · exact .inr (by omega)
  · exact .inr (by omega)

/-- Without a wrap the heap pointer only goes up. -/
theorem heapPtr_le_run (hok : RunOk mmStep NoWrap s calls) :
    s.heapPtr.toNat ≤ (run mmStep s calls).heapPtr.toNat :=
  run_invariant_of_ok (fun t : MmState => s.heapPtr.toNat ≤ t.heapPtr.toNat)
    (fun _ _ hle hw => Nat.le_trans hle hw) calls (Nat.le_refl _) hok

/-- The blocks handed out so far end at the heap pointer or below it. -/
theorem le_heapPtr_of_mem (hok : RunOk mmStep NoWrap s calls)
    (hsizes : ∀ call ∈ calls, ¬ call.Wraps) (hp : (p, n) ∈ mmReturns s calls) :
    n = 0 ∨ p.toNat + n ≤ (run mmStep s calls).heapPtr.toNat := by
  induction calls generalizing s with
  | nil => cases hp
  | cons call calls ih =>
      obtain ⟨hw, hok⟩ := hok
      obtain ⟨hsize, hsizes⟩ := List.forall_mem_cons.1 hsizes
      rcases List.mem_cons.1 hp with he | hp
      · obtain ⟨rfl, rfl⟩ := Prod.mk.inj he
        exact (mmCall_le_heapPtr hw hsize).imp_right fun hle => hle.trans (heapPtr_le_run hok)
      · exact ih hok hsizes hp

/-! ## The copy -/

/-- A byte below the destination is not one of its bytes. -/
theorem ne_dest {dest a : BitVec 64} {j len : Nat} (hend : dest.toNat + len < 2 ^ 64)
    (ha : a.toNat < dest.toNat) (hj : j < len) : a ≠ dest + BitVec.ofNat 64 j := by
  intro he
  rw [he, toNat_add_ofNat (by omega)] at ha
  omega

/-- The copy brings what lies below the destination: it is read before anything is stored there. -/
theorem memcpyBytes_at {mem : Ram} {dest src : BitVec 64} {i len : Nat}
    (hend : dest.toNat + len < 2 ^ 64) (hi : i < len)
    (hsrc : (src + BitVec.ofNat 64 i).toNat < dest.toNat) :
    memcpyBytes mem dest src len (dest + BitVec.ofNat 64 i) = mem (src + BitVec.ofNat 64 i) := by
  refine copyWithin_at (d := fun i => dest + BitVec.ofNat 64 i) hi
    (fun j hj => ne_dest hend hsrc hj) (fun i j hi hj he => ?_) mem
  have he := congrArg BitVec.toNat he
  rw [toNat_add_ofNat (by omega), toNat_add_ofNat (by omega)] at he
  omega

/-- The copy keeps what lies below the destination: it stores from there upward, and does not come
round. -/
theorem memcpyBytes_below {mem : Ram} {dest src a : BitVec 64} {len : Nat}
    (hend : dest.toNat + len < 2 ^ 64) (ha : a.toNat < dest.toNat) :
    memcpyBytes mem dest src len a = mem a :=
  copyWithin_of_ne (fun _ hj => ne_dest hend ha hj) mem

/-- `krealloc` at a heap pointer with room above it: the new block is at the heap pointer, what
lies below it is kept, and of the old block comes along what lies below it. -/
theorem kreallocIn_spec {t : Mm} {newSize : BitVec 32} (hnew : newSize ≠ 0)
    (hend : t.heapPtr.toNat + newSize.toNat < 2 ^ 64) (mem : Ram) (p : BitVec 64) :
    (kreallocIn t mem p newSize).1 = t.heapPtr ∧
      (∀ a : BitVec 64, a.toNat < t.heapPtr.toNat →
        (kreallocIn t mem p newSize).2.2 a = mem a) ∧
      (p ≠ 0 → ∀ i < newSize.toNat, (p + BitVec.ofNat 64 i).toNat < t.heapPtr.toNat →
        (kreallocIn t mem p newSize).2.2 (t.heapPtr + BitVec.ofNat 64 i) =
          mem (p + BitVec.ofNat 64 i)) := by
  have hrun : kreallocIn t mem p newSize =
      if p ≠ 0 then (t.heapPtr, (kmalloc t newSize).2,
        memcpyBytes mem t.heapPtr p newSize.toNat)
      else (t.heapPtr, (kmalloc t newSize).2, mem) := if_neg hnew
  rw [hrun]
  split
  · exact ⟨rfl, fun _ ha => memcpyBytes_below hend ha,
      fun _ _ hi hsrc => memcpyBytes_at hend hi hsrc⟩
  · next hp => exact ⟨rfl, fun _ _ => rfl, fun h => absurd h hp⟩

/-- A `krealloc` that does not wrap the heap pointer has room for the new block. -/
theorem krealloc_room {newSize : BitVec 32} (hw : NoWrap s (.krealloc p newSize))
    (hnew : newSize ≠ 0) (hsize : newSize.toNat ≤ 2 ^ 32 - 16) :
    s.heapPtr.toNat + newSize.toNat < 2 ^ 64 := by
  have hcall := mmCall_le_heapPtr hw (Nat.not_lt.2 hsize)
  have hptr : (mmCall s (.krealloc p newSize)).1 = s.heapPtr :=
    congrArg Prod.fst (krealloc_of_ne s.toMm p hnew)
  rw [hptr] at hcall
  have hpos : newSize.toNat ≠ 0 := fun hz => hnew (BitVec.eq_of_toNat_eq hz)
  exact Nat.lt_of_le_of_lt (hcall.resolve_left hpos) (BitVec.isLt _)

/-- A call after others: its block comes behind theirs. -/
theorem mmReturns_concat (s : MmState) (calls : List MmCall) (call : MmCall) :
    mmReturns s (calls ++ [call]) =
      mmReturns s calls ++ [((mmCall (run mmStep s calls) call).1, call.length)] := by
  induction calls generalizing s with
  | nil => rfl
  | cons first calls ih =>
      rw [List.cons_append, mmReturns, ih, run_cons]
      rfl

/-- The pointer `kreallocIn` returns and the allocator it leaves are those of the call of
`krealloc` in the run. -/
theorem kreallocIn_run (s : MmState) (calls : List MmCall) (mem : Ram) (p : BitVec 64)
    (newSize : BitVec 32) :
    mmReturns s (calls ++ [.krealloc p newSize]) = mmReturns s calls ++
        [((kreallocIn (run mmStep s calls).toMm mem p newSize).1, newSize.toNat)] ∧
      (kreallocIn (run mmStep s calls).toMm mem p newSize).2.1 =
        (run mmStep s (calls ++ [.krealloc p newSize])).toMm := by
  have hpair := kreallocIn_eq (run mmStep s calls).toMm mem p newSize
  rw [mmReturns_concat, run_append, run_cons, run_nil]
  exact ⟨congrArg (fun r => mmReturns s calls ++ [(r, newSize.toNat)])
    (congrArg Prod.fst hpair).symm, congrArg Prod.snd hpair⟩

/-- After any calls, `krealloc` returns a block of the new size, which lies behind every block that
was returned before. It has the bytes of the old one, as many as fit, and every block that was
returned before is left as it is. The null pointer is not a block. The source does not know the old
size and copies as many bytes as the new block has, from behind the old one too: it goes upward, and
writes above all that was returned before. -/
theorem krealloc_keeps_contents (s : MmState) (calls : List MmCall) (p : BitVec 64) (n : Nat)
    (newSize : BitVec 32) (hok : RunOk mmStep NoWrap s (calls ++ [.krealloc p newSize]))
    (hsizes : ∀ call ∈ calls, ¬ call.Wraps) (hnew : newSize ≠ 0)
    (hsize : newSize.toNat ≤ 2 ^ 32 - 16) (hp : (p, n) ∈ mmReturns s calls)
    (hnull : p = 0 → n = 0) (mem : Ram) :
    (mmReturns s (calls ++ [.krealloc p newSize]) = mmReturns s calls ++
        [((kreallocIn (run mmStep s calls).toMm mem p newSize).1, newSize.toNat)] ∧
      (kreallocIn (run mmStep s calls).toMm mem p newSize).2.1 =
        (run mmStep s (calls ++ [.krealloc p newSize])).toMm) ∧
      (∀ q m, (q, m) ∈ mmReturns s calls → m = 0 ∨
        q.toNat + m ≤ (kreallocIn (run mmStep s calls).toMm mem p newSize).1.toNat) ∧
      (∀ i < min n newSize.toNat,
        (kreallocIn (run mmStep s calls).toMm mem p newSize).2.2
            ((kreallocIn (run mmStep s calls).toMm mem p newSize).1 + BitVec.ofNat 64 i) =
          mem (p + BitVec.ofNat 64 i)) ∧
      ∀ q m, (q, m) ∈ mmReturns s calls → ∀ i < m,
        (kreallocIn (run mmStep s calls).toMm mem p newSize).2.2 (q + BitVec.ofNat 64 i) =
          mem (q + BitVec.ofNat 64 i) := by
  rw [RunOk_append] at hok
  obtain ⟨hok, hlast, -⟩ := hok
  have hbelow : ∀ q m, (q, m) ∈ mmReturns s calls → ∀ i < m,
      (q + BitVec.ofNat 64 i).toNat < (run mmStep s calls).heapPtr.toNat := by
    intro q m hq i hi
    have hle := (le_heapPtr_of_mem hok hsizes hq).resolve_left (by omega)
    rw [toNat_add_ofNat (by omega)]
    omega
  have hend := krealloc_room hlast hnew hsize
  obtain ⟨hptr, hkeep, hcopy⟩ := kreallocIn_spec hnew hend mem p
  refine ⟨kreallocIn_run s calls mem p newSize, fun q m hq => ?_, fun i hi => ?_,
    fun q m hq i hi => hkeep _ (hbelow q m hq i hi)⟩
  · rw [hptr]
    exact le_heapPtr_of_mem hok hsizes hq
  · obtain ⟨hin, hinew⟩ := Nat.lt_min.1 hi
    rw [hptr]
    exact hcopy (fun hz => by have := hnull hz; omega) i hinew (hbelow p n hp i hin)

/-- A memory in which every byte holds the low bits of its address. -/
def countingRam : Ram := fun a => UInt8.ofNat a.toNat

/-- A block of three bytes grows to forty: the copy reads the block it writes, and the three
bytes are those of the old block. -/
theorem krealloc_keeps_contents_three :
    (mmReturns mmAt64K [.kmalloc 3, .krealloc 0x10000 40] = mmReturns mmAt64K [.kmalloc 3] ++
        [((kreallocIn (run mmStep mmAt64K [.kmalloc 3]).toMm countingRam 0x10000 40).1, 40)] ∧
      (kreallocIn (run mmStep mmAt64K [.kmalloc 3]).toMm countingRam 0x10000 40).2.1 =
        (run mmStep mmAt64K [.kmalloc 3, .krealloc 0x10000 40]).toMm) ∧
      (∀ q m, (q, m) ∈ mmReturns mmAt64K [.kmalloc 3] → m = 0 ∨ q.toNat + m ≤
        (kreallocIn (run mmStep mmAt64K [.kmalloc 3]).toMm countingRam 0x10000 40).1.toNat) ∧
      (∀ i < min 3 40,
        (kreallocIn (run mmStep mmAt64K [.kmalloc 3]).toMm countingRam 0x10000 40).2.2
            ((kreallocIn (run mmStep mmAt64K [.kmalloc 3]).toMm countingRam 0x10000 40).1 +
              BitVec.ofNat 64 i) = countingRam (0x10000 + BitVec.ofNat 64 i)) ∧
      ∀ q m, (q, m) ∈ mmReturns mmAt64K [.kmalloc 3] → ∀ i < m,
        (kreallocIn (run mmStep mmAt64K [.kmalloc 3]).toMm countingRam 0x10000 40).2.2
          (q + BitVec.ofNat 64 i) = countingRam (q + BitVec.ofNat 64 i) :=
  krealloc_keeps_contents mmAt64K [.kmalloc 3] 0x10000 3 40
    ⟨by decide, by decide, trivial⟩ (by decide) (by decide) (by decide) (by decide)
    (by decide) countingRam

end

end OnkenOS
