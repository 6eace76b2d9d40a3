import OnkenOS.Lib.X86

/-!
# The interrupt stubs

`kernel/interrupts/interrupts.asm`. The three stubs push a placeholder and their number and go on
at `irq_common`, which saves the general registers, calls the handler of the number and takes
everything off the stack again.

The handlers are C functions, of which only the calling convention is used. `irq_transparent` is
what the rest of the kernel relies on: an interrupt may come between any two instructions, and the
code it interrupts cannot tell.
-/

namespace OnkenOS

open WordStack X86

/-- The labels of `interrupts.asm`. -/
inductive StubLabel where
  | irq0Stub | irq1Stub | irq12Stub | irqCommon | callIrq0 | callIrq1 | callIrq12 | done
deriving DecidableEq, Repr

/-- The functions `irq_common` calls. -/
inductive IrqHandler where
  | irq0Handler | irq1Handler | irq12Handler
deriving DecidableEq, Repr

abbrev StubLine := Line StubLabel IrqHandler

/-- The registers `irq_common` saves. -/
def pushedRegs : List Reg :=
  [.rax, .rcx, .rdx, .rsi, .rdi, .r8, .r9, .r10, .r11, .rbx, .rbp, .r12, .r13, .r14, .r15]

/-- The registers `irq_common` restores. -/
def poppedRegs : List Reg :=
  [.r15, .r14, .r13, .r12, .rbp, .rbx, .r11, .r10, .r9, .r8, .rdi, .rsi, .rdx, .rcx, .rax]

/-- The lines behind the label `.done`. -/
def doneLines : List StubLine :=
  poppedRegs.map (fun r => .instr (.pop r)) ++ [.instr (.add .rsp 16), .instr .iretq]

/-- The lines of `irq_common` that choose the handler. -/
def compareLines : List StubLine :=
  [.instr (.cmp .rsi 32),
   .instr (.je .callIrq0),
   .instr (.cmp .rsi 33),
   .instr (.je .callIrq1),
   .instr (.cmp .rsi 44),
   .instr (.je .callIrq12),
   .instr (.jmp .done),
   .label .callIrq0,
   .instr (.call .irq0Handler),
   .instr (.jmp .done),
   .label .callIrq1,
   .instr (.call .irq1Handler),
   .instr (.jmp .done),
   .label .callIrq12,
   .instr (.call .irq12Handler),
   .instr (.jmp .done),
   .label .done] ++ doneLines

/-- The lines of `irq_common` behind the pushes. -/
def dispatchLines : List StubLine :=
  [.instr (.mov .rdi .rsp), .instr (.load .rsi .rsp 120)] ++ compareLines

/-- The text of `interrupts.asm`, without `idt_load`. -/
def stubText : List StubLine :=
  [.label .irq0Stub,
   .instr (.pushImm 0),
   .instr (.pushImm 32),
   .instr (.jmp .irqCommon),
   .label .irq1Stub,
   .instr (.pushImm 0),
   .instr (.pushImm 33),
   .instr (.jmp .irqCommon),
   .label .irq12Stub,
   .instr (.pushImm 0),
   .instr (.pushImm 44),
   .instr (.jmp .irqCommon),
   .label .irqCommon] ++ pushedRegs.map (fun r => .instr (.push r)) ++ dispatchLines

/-- The stubs with the handlers they are linked with. -/
def stubProgram {W : Type*} (handlers : IrqHandler → Machine W → Machine W)
    (addressOf : List StubLine → BitVec 64) : Program StubLabel IrqHandler W :=
  ⟨stubText, handlers, addressOf⟩

/-- The label of a handler's stub. -/
def IrqHandler.stub : IrqHandler → StubLabel
  | .irq0Handler => .irq0Stub
  | .irq1Handler => .irq1Stub
  | .irq12Handler => .irq12Stub

/-- The number a stub pushes. -/
def IrqHandler.vector : IrqHandler → BitVec 64
  | .irq0Handler => 32
  | .irq1Handler => 33
  | .irq12Handler => 44

/-- The words on the stack of a handler, from the one `stack_frame` points to. -/
def irqFrame {W : Type*} (s : Cpu StubLabel IrqHandler W) (rip : BitVec 64) (k : IrqHandler) :
    List (BitVec 64) :=
  poppedRegs.map s.regs ++ [k.vector, 0] ++ (savedState s rip).reverse

/-- The machine a handler is called in. -/
structure CalledIn {W : Type*} (s : Cpu StubLabel IrqHandler W) (rip : BitVec 64) (k : IrqHandler)
    (m : Machine W) : Prop where
  entry : Entry m
  world : m.world = s.world
  /-- `stack_frame`, the argument -/
  argument : m.regs .rdi = m.regs .rsp + 8#64
  frame : OnStack m.mem (m.regs .rdi) (irqFrame s rip k)
  /-- nothing is written but the 23 words below the interrupted stack -/
  far : ∀ x, Far (alignStack (s.regs .rsp)) x (8 * 23) → m.mem x = s.mem x

section
variable {W : Type*} {s : Cpu StubLabel IrqHandler W} {rip : BitVec 64} {k : IrqHandler}
  {handlers : IrqHandler → Machine W → Machine W} {addressOf : List StubLine → BitVec 64}

/-- The pops of `irq_common` stand in the opposite order of its pushes. -/
theorem pushedRegs_reverse : pushedRegs.reverse = poppedRegs := rfl

/-- All registers but `rsp` are saved and restored. -/
theorem mem_poppedRegs {r : Reg} : r ∈ poppedRegs ↔ r ≠ .rsp := by
  cases r <;> simp [poppedRegs]

/-- None of them is restored twice. -/
theorem nodup_poppedRegs : poppedRegs.Nodup := by
  simp [poppedRegs]

/-- The processor aligns the stack to sixteen bytes before it pushes. -/
theorem toNat_alignStack_mod (rsp : BitVec 64) : (alignStack rsp).toNat % 16 = 0 := by
  have hlow : (alignStack rsp).toNat % 2 ^ 4 = (alignStack rsp).toNat &&& (2 ^ 4 - 1) :=
    (Nat.and_two_pow_sub_one_eq_mod _ 4).symm
  have hmask : alignStack rsp &&& 15#64 = 0#64 := by
    unfold alignStack
    rw [BitVec.and_assoc]
    simp
  have hnat := congrArg BitVec.toNat hmask
  rw [BitVec.toNat_and] at hnat
  rw [show (16 : Nat) = 2 ^ 4 from rfl, hlow]
  exact hnat

/-! ## Into the handler -/

/-- The words on the stack behind the pushes of `irq_common`, first to last. -/
def irqPushed (s : Cpu StubLabel IrqHandler W) (rip : BitVec 64) (k : IrqHandler) :
    List (BitVec 64) :=
  savedState s rip ++ [0, k.vector] ++ pushedRegs.map s.regs

/-- The processor behind the pushes of `irq_common`. -/
def atDispatch (s : Cpu StubLabel IrqHandler W) (rip : BitVec 64) (sel : BitVec 16)
    (k : IrqHandler) : Cpu StubLabel IrqHandler W :=
  { s with
    mem := pushAll s.mem (alignStack (s.regs .rsp)) (irqPushed s rip k)
    regs := Function.update s.regs .rsp (below (alignStack (s.regs .rsp)) 22)
    rflags := s.rflags &&& ~~~0x34300
    cs := sel
    pc := .lines dispatchLines }

/-- The processor where the number is compared. -/
def atCompare (s : Cpu StubLabel IrqHandler W) (rip : BitVec 64) (sel : BitVec 16)
    (k : IrqHandler) : Cpu StubLabel IrqHandler W :=
  { atDispatch s rip sel k with
    regs := Function.update (Function.update (atDispatch s rip sel k).regs .rdi
      (below (alignStack (s.regs .rsp)) 22)) .rsi k.vector
    pc := .lines compareLines }

/-- The processor at the `call` of the handler. -/
def atCall (s : Cpu StubLabel IrqHandler W) (rip : BitVec 64) (sel : BitVec 16) (k : IrqHandler)
    (rflags : BitVec 64) (rest : List StubLine) : Cpu StubLabel IrqHandler W :=
  { atCompare s rip sel k with
    rflags := rflags
    pc := .lines (.instr (.call k) :: .instr (.jmp .done) :: rest) }

/-- The frame of the interrupt, the number and the registers are 22 words. -/
theorem length_irqPushed (s : Cpu StubLabel IrqHandler W) (rip : BitVec 64) (k : IrqHandler) :
    (irqPushed s rip k).length = 22 := rfl

/-- Off the stack they come the other way round: the last word that was pushed is the first of the
frame. -/
theorem irqPushed_reverse (s : Cpu StubLabel IrqHandler W) (rip : BitVec 64) (k : IrqHandler) :
    (irqPushed s rip k).reverse = irqFrame s rip k := by
  rw [irqPushed, List.reverse_append, List.reverse_append, ← List.map_reverse, pushedRegs_reverse]
  simp [irqFrame]

/-- Behind the pushes the words of the frame lie on the stack, at the addresses at which the handler
finds them. -/
theorem onStack_atDispatch (s : Cpu StubLabel IrqHandler W) (rip : BitVec 64) (sel : BitVec 16)
    (k : IrqHandler) :
    OnStack (atDispatch s rip sel k).mem (below (alignStack (s.regs .rsp)) 22)
      (irqFrame s rip k) := by
  have hlen : (irqPushed s rip k).length < 2 ^ 60 := by simp [length_irqPushed]
  have hpush := onStack_pushAll s.mem (alignStack (s.regs .rsp)) hlen
  rwa [irqPushed_reverse] at hpush

/-- From the interrupt on, the stub pushes its number and `irq_common` the registers. -/
theorem reaches_atDispatch (s : Cpu StubLabel IrqHandler W) (rip : BitVec 64) (sel : BitVec 16)
    (k : IrqHandler) :
    Reaches (stubProgram handlers addressOf)
      (interrupt s rip sel ((stubProgram handlers addressOf).from k.stub))
      (atDispatch s rip sel k) := by
  -- the lines of a stub end in a jump to `irq_common`
  have hstub : ∃ rest, (stubProgram handlers addressOf).from k.stub =
      .label k.stub :: .instr (.pushImm 0) :: .instr (.pushImm k.vector) ::
        .instr (.jmp .irqCommon) :: rest := by
    cases k with
    | irq0Handler => exact ⟨_, rfl⟩
    | irq1Handler => exact ⟨_, rfl⟩
    | irq12Handler => exact ⟨_, rfl⟩
  obtain ⟨rest, hrest⟩ := hstub
  rw [hrest]
  refine Reaches.label rfl (Reaches.instr rfl (Reaches.instr rfl (Reaches.instr rfl
    (Reaches.label rfl ((reaches_push pushedRegs (by simp [pushedRegs]) rfl).trans
      ⟨0, ?_⟩)))))
  have hregs : ∀ x, pushedRegs.map (Function.update s.regs .rsp x) = pushedRegs.map s.regs := by
    intro x
    refine List.map_congr_left fun r hr => Function.update_of_ne ?_ _ _
    rintro rfl
    simp [pushedRegs] at hr
  have hpushed : pushedRegs.length = 15 := rfl
  have hsaved : (savedState s rip).length = 5 := rfl
  simp [exec, interrupt, Machine.push, atDispatch, irqPushed, hregs, pushAll_append, below_sub,
    below_below, hpushed, hsaved, pushAll]

/-- The number is the sixteenth word of the frame, behind the registers, where `irq_common` loads it
from. -/
theorem reaches_atCompare (s : Cpu StubLabel IrqHandler W) (rip : BitVec 64) (sel : BitVec 16)
    (k : IrqHandler) :
    Reaches (stubProgram handlers addressOf) (atDispatch s rip sel k) (atCompare s rip sel k) := by
  have hnumber : get (atDispatch s rip sel k).mem
      (below (alignStack (s.regs .rsp)) 22 + 120#64) = k.vector := by
    have hword := onStack_iff.1 (onStack_atDispatch s rip sel k) 15 (by simp [irqFrame, poppedRegs])
    simpa [irqFrame, poppedRegs, above] using hword
  have hrsp : (atDispatch s rip sel k).regs .rsp = below (alignStack (s.regs .rsp)) 22 := by
    simp [atDispatch]
  refine Reaches.instr rfl (Reaches.instr rfl ⟨0, ?_⟩)
  simp [exec, Machine.set, hrsp, hnumber, atCompare]

/-- The chain of comparisons finds the handler of the number: those before it do not match, and jump
on. The flags change, but not DF. -/
theorem reaches_atCall (handlers : IrqHandler → Machine W → Machine W)
    (addressOf : List StubLine → BitVec 64) (s : Cpu StubLabel IrqHandler W) (rip : BitVec 64)
    (sel : BitVec 16) (k : IrqHandler) :
    ∃ rflags rest, df rflags = df s.rflags ∧
      Reaches (stubProgram handlers addressOf) (atCompare s rip sel k)
        (atCall s rip sel k rflags rest) := by
  have hdf : df (s.rflags &&& ~~~0x34300) = df s.rflags := by
    simp [df]
  have hnumber : (atCompare s rip sel k).regs .rsi = k.vector := by
    simp [atCompare]
  cases k with
  | irq0Handler =>
      refine ⟨setZf (s.rflags &&& ~~~0x34300) true, compareLines.drop 10,
        (df_setZf _ _).trans hdf, ?_⟩
      exact Reaches.jumpEq rfl hnumber (Reaches.label rfl (Reaches.refl _ _))
  | irq1Handler =>
      refine ⟨setZf (setZf (s.rflags &&& ~~~0x34300) false) true, compareLines.drop 13,
        ((df_setZf _ _).trans (df_setZf _ _)).trans hdf, ?_⟩
      have h32 : (atCompare s rip sel .irq1Handler).regs .rsi ≠ 32 := by
        rw [hnumber]
        simp [IrqHandler.vector]
      exact Reaches.jumpNe rfl h32 (Reaches.jumpEq rfl hnumber
        (Reaches.label rfl (Reaches.refl _ _)))
  | irq12Handler =>
      refine ⟨setZf (setZf (setZf (s.rflags &&& ~~~0x34300) false) false) true,
        compareLines.drop 16,
        (((df_setZf _ _).trans (df_setZf _ _)).trans (df_setZf _ _)).trans hdf, ?_⟩
      have h32 : (atCompare s rip sel .irq12Handler).regs .rsi ≠ 32 := by
        rw [hnumber]
        simp [IrqHandler.vector]
      have h33 : (atCompare s rip sel .irq12Handler).regs .rsi ≠ 33 := by
        rw [hnumber]
        simp [IrqHandler.vector]
      exact Reaches.jumpNe rfl h32 (Reaches.jumpNe rfl h33 (Reaches.jumpEq rfl hnumber
        (Reaches.label rfl (Reaches.refl _ _))))

/-- The machine of a handler's first instruction. -/
def calledMachine (s : Cpu StubLabel IrqHandler W) (rip : BitVec 64) (sel : BitVec 16)
    (k : IrqHandler) (rflags ret : BitVec 64) : Machine W :=
  (atCall s rip sel k rflags []).push ret

/-- The handler's stack begins with its return address, below the 22 words. -/
theorem rsp_calledMachine (s : Cpu StubLabel IrqHandler W) (rip : BitVec 64) (sel : BitVec 16)
    (k : IrqHandler) (rflags ret : BitVec 64) :
    (calledMachine s rip sel k rflags ret).regs .rsp = below (alignStack (s.regs .rsp)) 23 := by
  simp [calledMachine, atCall, atCompare, atDispatch, Machine.push, below_sub]

/-- The handler gets the address of the frame as its argument. -/
theorem rdi_calledMachine (s : Cpu StubLabel IrqHandler W) (rip : BitVec 64) (sel : BitVec 16)
    (k : IrqHandler) (rflags ret : BitVec 64) :
    (calledMachine s rip sel k rflags ret).regs .rdi = below (alignStack (s.regs .rsp)) 22 := by
  simp [calledMachine, atCall, atCompare, atDispatch, Machine.push]

/-- Nothing but the stack was written on the way to the handler. -/
theorem mem_calledMachine (s : Cpu StubLabel IrqHandler W) (rip : BitVec 64) (sel : BitVec 16)
    (k : IrqHandler) (rflags ret : BitVec 64) :
    (calledMachine s rip sel k rflags ret).mem =
      pushAll s.mem (alignStack (s.regs .rsp)) (irqPushed s rip k ++ [ret]) := by
  rw [pushAll_append, length_irqPushed]
  simp [calledMachine, atCall, atCompare, atDispatch, Machine.push, pushAll]

/-- The frame of the handler, under its return address, is what the stack holds. -/
theorem onStack_calledMachine (s : Cpu StubLabel IrqHandler W) (rip : BitVec 64) (sel : BitVec 16)
    (k : IrqHandler) (rflags ret : BitVec 64) :
    OnStack (calledMachine s rip sel k rflags ret).mem (below (alignStack (s.regs .rsp)) 23)
      (ret :: irqFrame s rip k) := by
  have hlen : (irqPushed s rip k ++ [ret]).length < 2 ^ 60 := by simp [length_irqPushed]
  have hpush := onStack_pushAll s.mem (alignStack (s.regs .rsp)) hlen
  rw [List.reverse_append, irqPushed_reverse] at hpush
  rw [mem_calledMachine]
  simpa [length_irqPushed] using hpush

/-- The handler is entered as the calling convention asks: the stack is aligned, and DF is clear as
it was. -/
theorem entry_calledMachine (hdf : df s.rflags = false) (rip : BitVec 64) (sel : BitVec 16)
    (k : IrqHandler) {rflags : BitVec 64} (hflags : df rflags = df s.rflags) (ret : BitVec 64) :
    Entry (calledMachine s rip sel k rflags ret) := by
  refine ⟨?_, hflags.trans hdf⟩
  have halign := toNat_alignStack_mod (s.regs .rsp)
  rw [rsp_calledMachine]
  unfold below
  bv_omega

/-- Together: a handler is called with the frame of its interrupt, on an aligned stack. -/
theorem calledMachine_calledIn (hdf : df s.rflags = false) (rip : BitVec 64) (sel : BitVec 16)
    (k : IrqHandler) {rflags : BitVec 64} (hflags : df rflags = df s.rflags) (ret : BitVec 64) :
    CalledIn s rip k (calledMachine s rip sel k rflags ret) where
  entry := entry_calledMachine hdf rip sel k hflags ret
  world := rfl
  argument := by rw [rdi_calledMachine, rsp_calledMachine, below_add]
  frame := by
    have hframe := (onStack_calledMachine s rip sel k rflags ret).2
    rwa [below_add, ← rdi_calledMachine s rip sel k rflags ret] at hframe
  far := by
    intro x hx
    rw [mem_calledMachine]
    exact pushAll_of_far (by simp [length_irqPushed]) (by simpa [length_irqPushed] using hx)

/-! ## Out of the handler -/

/-- The processor behind the `call`, when the handler has left `m`. -/
def atReturn (s : Cpu StubLabel IrqHandler W) (sel : BitVec 16) (m : Machine W)
    (rest : List StubLine) : Cpu StubLabel IrqHandler W :=
  { s with
    toMachine := m.set .rsp (below (alignStack (s.regs .rsp)) 22)
    cs := sel
    pc := .lines rest }

/-- The handler returns behind its `call`, and the frame is as it was. -/
theorem reaches_atReturn (hdf : df s.rflags = false) (habi : Abi 22 (handlers k))
    (rip : BitVec 64) (sel : BitVec 16) {rflags : BitVec 64} (hflags : df rflags = df s.rflags)
    (rest : List StubLine) :
    ∃ m, CalledIn s rip k m ∧
      OnStack (handlers k m).mem (below (alignStack (s.regs .rsp)) 22) (irqFrame s rip k) ∧
      Reaches (stubProgram handlers addressOf) (atCall s rip sel k rflags rest)
        (atReturn s sel (handlers k m) (.instr (.jmp .done) :: rest)) := by
  let ret := addressOf (.instr (.jmp StubLabel.done) :: rest)
  let m := calledMachine s rip sel k rflags ret
  have hentry : Entry m := entry_calledMachine hdf rip sel k hflags ret
  have hrsp : m.regs .rsp = below (alignStack (s.regs .rsp)) 23 :=
    rsp_calledMachine s rip sel k rflags ret
  have hrsp' : (handlers k m).regs .rsp = below (alignStack (s.regs .rsp)) 23 :=
    (habi.regs m hentry .rsp (by simp [calleeSaved])).trans hrsp
  have hholds : OnStack (handlers k m).mem (below (alignStack (s.regs .rsp)) 23)
      (ret :: irqFrame s rip k) := by
    refine (onStack_calledMachine s rip sel k rflags ret).congr_bytes fun i hi => ?_
    have hkept := habi.frame m hentry i (by simpa [irqFrame, poppedRegs, savedState] using hi)
    rwa [hrsp] at hkept
  obtain ⟨htop, hframe⟩ := hholds
  rw [below_add] at hframe
  have htop' : (handlers k m).top = ret := by
    rw [Machine.top, hrsp']
    exact htop
  refine ⟨m, calledMachine_calledIn hdf rip sel k hflags ret, hframe,
    Reaches.instr rfl ⟨0, ?_⟩⟩
  change { atCall s rip sel k rflags rest with
    toMachine := (handlers k m).set .rsp ((handlers k m).regs .rsp + 8#64)
    pc := if (handlers k m).top = ret then .lines (.instr (.jmp StubLabel.done) :: rest)
      else .address (handlers k m).top } = _
  rw [if_pos htop', hrsp', below_add]
  rfl

/-- The pops load every register but the stack pointer, each with its own value. -/
theorem restored_regs (g f : Reg → BitVec 64) (x : BitVec 64) :
    Function.update (restore g poppedRegs (poppedRegs.map f)) .rsp x =
      Function.update f .rsp x := by
  funext r
  by_cases hr : r = .rsp
  · subst hr
    simp
  · rw [Function.update_of_ne hr, Function.update_of_ne hr, restore_map nodup_poppedRegs,
      if_pos (mem_poppedRegs.2 hr)]

/-- The processor behind the pops. -/
def atIretq (s : Cpu StubLabel IrqHandler W) (sel : BitVec 16) (m : Machine W) :
    Cpu StubLabel IrqHandler W :=
  { atReturn s sel m [] with
    regs := Function.update s.regs .rsp (below (alignStack (s.regs .rsp)) 7)
    pc := .lines [.instr (.add .rsp 16), .instr .iretq] }

/-- Back from the handler the registers are popped, and the next instruction is `iretq`. The frame
is where it was, as the handler keeps what is above its stack. -/
theorem reaches_atIretq {m : Machine W} (rip : BitVec 64) (sel : BitVec 16)
    (rest : List StubLine)
    (hframe : OnStack m.mem (below (alignStack (s.regs .rsp)) 22) (irqFrame s rip k)) :
    Reaches (stubProgram handlers addressOf)
      (atReturn s sel m (.instr (.jmp .done) :: rest)) (atIretq s sel m) := by
  have hrsp : (atReturn s sel m doneLines).regs .rsp = below (alignStack (s.regs .rsp)) 22 := by
    simp [atReturn, Machine.set]
  have hwords : OnStack (atReturn s sel m doneLines).mem ((atReturn s sel m doneLines).regs .rsp)
      (poppedRegs.map s.regs ++ ([k.vector, 0] ++ (savedState s rip).reverse)) := by
    rw [hrsp, ← List.append_assoc]
    exact hframe
  have hpops := reaches_pop (p := stubProgram handlers addressOf) poppedRegs
    (by simp [poppedRegs]) rfl (List.length_map _) hwords
  refine Reaches.instr rfl (Reaches.label rfl (hpops.trans ⟨0, ?_⟩))
  rw [restored_regs, hrsp, above_below _ (by simp [poppedRegs])]
  rfl

/-- Everything on the stack goes back where it came from: the number is dropped, and `iretq` takes
the frame of the interrupt. -/
theorem reaches_resumed {m : Machine W} (rip : BitVec 64) (sel : BitVec 16)
    (hframe : OnStack m.mem (below (alignStack (s.regs .rsp)) 22) (irqFrame s rip k)) :
    Reaches (stubProgram handlers addressOf) (atIretq s sel m)
      { s with mem := m.mem, world := m.world, pc := .address rip } := by
  have hadd : below (alignStack (s.regs .rsp)) 7 + 16#64 = below (alignStack (s.regs .rsp)) 5 := by
    unfold below
    bv_omega
  have hsaved : OnStack m.mem (below (alignStack (s.regs .rsp)) 5)
      [rip, s.cs.setWidth 64, s.rflags, s.regs .rsp, s.ss.setWidth 64] := by
    have hend := (onStack_append.1 hframe).2
    rwa [above_below _ (by simp [poppedRegs])] at hend
  have hword := onStack_iff.1 hsaved
  have hrip : get m.mem (below (alignStack (s.regs .rsp)) 5) = rip := by
    simpa using hword 0 (by simp)
  refine Reaches.instr rfl (Reaches.instr rfl ⟨0, ?_⟩)
  simp [exec, atIretq, atReturn, Machine.set, hadd, hrip, hword 1, hword 2, hword 3, hword 4]

/-- The interrupted code goes on as if nothing had happened: the handler of the stub runs once, on a
stack of its own below the interrupted one, and everything but the memory is as it was. In memory
there is what the handler left, and the handler found there what the interrupted code had left. The
direction flag is clear when the interrupt comes, as the calling convention asks. -/
theorem irq_transparent (handlers : IrqHandler → Machine W → Machine W)
    (addressOf : List StubLine → BitVec 64) (k : IrqHandler) (habi : Abi 22 (handlers k))
    (s : Cpu StubLabel IrqHandler W) (rip : BitVec 64) (sel : BitVec 16)
    (hpc : s.pc = .address rip) (hdf : df s.rflags = false) :
    ∃ m, CalledIn s rip k m ∧
      ∃ N, ∀ n ≥ N, (step (stubProgram handlers addressOf))^[n]
          (interrupt s rip sel ((stubProgram handlers addressOf).from k.stub)) =
        { s with mem := (handlers k m).mem, world := (handlers k m).world } := by
  obtain ⟨rflags, rest, hflags, hcall⟩ :=
    reaches_atCall handlers addressOf s rip sel k
  obtain ⟨m, hm, hframe, hreturn⟩ := reaches_atReturn hdf habi rip sel hflags rest
  refine ⟨m, hm, ?_⟩
  have hrun := (reaches_atDispatch s rip sel k).trans ((reaches_atCompare s rip sel k).trans
    (hcall.trans (hreturn.trans ((reaches_atIretq rip sel rest hframe).trans
      (reaches_resumed rip sel hframe)))))
  rw [hpc]
  exact hrun.eventually rfl

end

/-- A processor in the middle of the kernel. -/
def kernelCpu : Cpu StubLabel IrqHandler Nat where
  regs := fun _ => 0x80000FFC
  rflags := 0x202
  mem := fun _ => 0
  world := 0
  cs := 0x28
  ss := 0x30
  pc := .address 0xFFFFFFFF80001234

/-- A timer interrupt that counts: the counter has gone up, and the kernel goes on where it was. -/
theorem irq_transparent_timer :
    ∃ m, CalledIn kernelCpu 0xFFFFFFFF80001234 .irq0Handler m ∧
      ∃ N, ∀ n ≥ N,
        (step (stubProgram (fun _ m => { m with world := m.world + 1 }) fun _ => 0))^[n]
          (interrupt kernelCpu 0xFFFFFFFF80001234 0x28
            ((stubProgram (fun _ m => { m with world := m.world + 1 }) fun _ => 0).from
              (.irq0Stub))) =
        { kernelCpu with mem := m.mem, world := m.world + 1 } :=
  irq_transparent (fun _ m => { m with world := m.world + 1 }) (fun _ => 0) .irq0Handler
    ⟨fun _ _ _ _ => rfl, fun _ _ _ _ => rfl⟩ kernelCpu 0xFFFFFFFF80001234 0x28 rfl
    (by simp [df, kernelCpu])

end OnkenOS
