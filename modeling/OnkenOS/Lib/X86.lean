import Mathlib.Logic.Function.Iterate
import OnkenOS.Lib.WordStack

/-!
# Interrupts on the x86-64

As much of the processor as an interrupt stub uses: the general registers, the flags, two segment
registers and a stack, the dozen instructions of such a stub, and how the processor enters and
leaves an interrupt through a gate without a change of privilege.

The program counter is an address, or the lines of the program that are still to be run. Routines
called by name are arbitrary functions of the machine; `Abi` is what the calling convention promises
of them. Of the status flags only ZF is followed: nothing below reads the others before `iretq`
brings all of them back.
-/

namespace X86

open WordStack

/-- The general registers. -/
inductive Reg where
  | rax | rcx | rdx | rsi | rdi | r8 | r9 | r10 | r11 | rbx | rbp | r12 | r13 | r14 | r15 | rsp
deriving DecidableEq, Repr

/-- An instruction, with labels from `L` and routines from `F`. -/
inductive Instr (L F : Type*) where
  | push (r : Reg)
  | pushImm (n : BitVec 64)
  | pop (r : Reg)
  | mov (dst src : Reg)
  /-- `mov dst, [base + offset]` -/
  | load (dst base : Reg) (offset : BitVec 64)
  | cmp (r : Reg) (n : BitVec 64)
  | je (l : L)
  | jmp (l : L)
  | call (f : F)
  | add (r : Reg) (n : BitVec 64)
  | iretq

/-- A line of a program. -/
inductive Line (L F : Type*) where
  | label (l : L)
  | instr (i : Instr L F)

/-- What a routine can read and change; `world` is everything outside the processor. -/
structure Machine (W : Type*) where
  regs : Reg → BitVec 64
  rflags : BitVec 64
  mem : Mem
  world : W

/-- What runs next: code at an address, or the given lines. -/
inductive Pc (L F : Type*) where
  | address (a : BitVec 64)
  | lines (rest : List (Line L F))

/-- The processor. -/
structure Cpu (L F W : Type*) extends Machine W where
  cs : BitVec 16
  ss : BitVec 16
  pc : Pc L F

/-- The program, its routines, and the addresses at which its lines lie in memory. -/
structure Program (L F W : Type*) where
  text : List (Line L F)
  routines : F → Machine W → Machine W
  addressOf : List (Line L F) → BitVec 64

/-- The direction flag. -/
def df (rflags : BitVec 64) : Bool := rflags.getLsbD 10

/-- The zero flag. -/
def zf (rflags : BitVec 64) : Bool := rflags.getLsbD 6

/-- The flags with the zero flag set to `b`. -/
def setZf (rflags : BitVec 64) (b : Bool) : BitVec 64 :=
  if b then rflags ||| 0x40 else rflags &&& ~~~0x40

/-- A comparison leaves the direction flag. -/
theorem df_setZf (rflags : BitVec 64) (b : Bool) : df (setZf rflags b) = df rflags := by
  cases b <;> simp [df, setZf]

/-- It sets the zero flag. -/
@[simp] theorem zf_setZf (rflags : BitVec 64) (b : Bool) : zf (setZf rflags b) = b := by
  cases b <;> simp [zf, setZf]

namespace Machine

variable {W : Type*}

/-- `r := v`. -/
def set (m : Machine W) (r : Reg) (v : BitVec 64) : Machine W :=
  { m with regs := Function.update m.regs r v }

/-- `push` of a word. -/
def push (m : Machine W) (w : BitVec 64) : Machine W :=
  { m with
    mem := put m.mem (m.regs .rsp - 8#64) w
    regs := Function.update m.regs .rsp (m.regs .rsp - 8#64) }

/-- The word on top of the stack. -/
def top (m : Machine W) : BitVec 64 := get m.mem (m.regs .rsp)

end Machine

section
variable {L F W : Type*} [DecidableEq L]

/-- The lines from a label on. -/
def Program.from (p : Program L F W) (l : L) : List (Line L F) :=
  p.text.dropWhile fun
    | .label l' => !decide (l' = l)
    | .instr _ => true

/-- An instruction, with the lines behind it. -/
def exec (p : Program L F W) (i : Instr L F) (rest : List (Line L F)) (s : Cpu L F W) :
    Cpu L F W :=
  match i with
  | .push r => { s with toMachine := s.push (s.regs r), pc := .lines rest }
  | .pushImm n => { s with toMachine := s.push n, pc := .lines rest }
  | .pop r =>
      { s with
        toMachine := (s.set .rsp (s.regs .rsp + 8#64)).set r s.top
        pc := .lines rest }
  | .mov dst src => { s with toMachine := s.set dst (s.regs src), pc := .lines rest }
  | .load dst base offset =>
      { s with toMachine := s.set dst (get s.mem (s.regs base + offset)), pc := .lines rest }
  | .cmp r n =>
      { s with rflags := setZf s.rflags (decide (s.regs r = n)), pc := .lines rest }
  | .je l => { s with pc := .lines (if zf s.rflags then p.from l else rest) }
  | .jmp l => { s with pc := .lines (p.from l) }
  | .call f =>
      -- the routine ends in a `ret`, which takes the return address off the stack
      let m := p.routines f (s.push (p.addressOf rest))
      { s with
        toMachine := m.set .rsp (m.regs .rsp + 8#64)
        pc := if m.top = p.addressOf rest then .lines rest else .address m.top }
  | .add r n =>
      { s with
        toMachine :=
          { s.set r (s.regs r + n) with rflags := setZf s.rflags (decide (s.regs r + n = 0)) }
        pc := .lines rest }
  | .iretq =>
      let a := s.regs .rsp
      { s with
        regs := Function.update s.regs .rsp (get s.mem (above a 3))
        rflags := get s.mem (above a 2)
        cs := (get s.mem (above a 1)).setWidth 16
        ss := (get s.mem (above a 4)).setWidth 16
        pc := .address (get s.mem a) }

/-- One line of the program. Code at an address is not part of it. -/
def step (p : Program L F W) (s : Cpu L F W) : Cpu L F W :=
  match s.pc with
  | .address _ => s
  | .lines [] => s
  | .lines (.label _ :: rest) => { s with pc := .lines rest }
  | .lines (.instr i :: rest) => exec p i rest s

/-- The stack pointer of a processor that takes an interrupt, aligned to sixteen bytes. -/
def alignStack (rsp : BitVec 64) : BitVec 64 := rsp &&& ~~~15#64

/-- What the processor saves on the stack, first to last, when code at `rip` is interrupted. -/
def savedState (s : Cpu L F W) (rip : BitVec 64) : List (BitVec 64) :=
  [s.ss.setWidth 64, s.regs .rsp, s.rflags, s.cs.setWidth 64, rip]

/-- The processor takes an interrupt through a gate with selector `sel` that leads to `entry`: TF,
IF, NT, RF and VM are cleared. -/
def interrupt (s : Cpu L F W) (rip : BitVec 64) (sel : BitVec 16) (entry : List (Line L F)) :
    Cpu L F W :=
  { s with
    mem := pushAll s.mem (alignStack (s.regs .rsp)) (savedState s rip)
    regs := Function.update s.regs .rsp (below (alignStack (s.regs .rsp)) 5)
    rflags := s.rflags &&& ~~~0x34300
    cs := sel
    pc := .lines entry }

end

/-! ## The calling convention -/

/-- The registers a routine hands back as it found them. -/
def calleeSaved : List Reg := [.rbx, .rbp, .r12, .r13, .r14, .r15, .rsp]

/-- A routine is entered with the stack aligned and the direction flag clear. -/
structure Entry {W : Type*} (m : Machine W) : Prop where
  aligned : (m.regs .rsp).toNat % 16 = 8
  forward : df m.rflags = false

/-- What the calling convention promises of a routine that has no business with the `frame` words
above its return address. -/
structure Abi {W : Type*} (frame : Nat) (f : Machine W → Machine W) : Prop where
  regs : ∀ m, Entry m → ∀ r ∈ calleeSaved, (f m).regs r = m.regs r
  frame : ∀ m, Entry m → ∀ i < 8 * (frame + 1),
    (f m).mem (m.regs .rsp + BitVec.ofNat 64 i) = m.mem (m.regs .rsp + BitVec.ofNat 64 i)

/-! ## Runs -/

section
variable {L F W : Type*} [DecidableEq L] {p : Program L F W} {s t u : Cpu L F W}
  {rest : List (Line L F)} {a : BitVec 64}

/-- `t` is what a number of lines make of `s`. -/
def Reaches (p : Program L F W) (s t : Cpu L F W) : Prop := ∃ n, (step p)^[n] s = t

/-- No line at all reaches the same processor. -/
theorem Reaches.refl (p : Program L F W) (s : Cpu L F W) : Reaches p s s := ⟨0, rfl⟩

/-- Lines, and then more lines. -/
theorem Reaches.trans (h : Reaches p s t) (h' : Reaches p t u) : Reaches p s u := by
  obtain ⟨n, rfl⟩ := h
  obtain ⟨n', rfl⟩ := h'
  exact ⟨n' + n, Function.iterate_add_apply _ _ _ _⟩

/-- One line, and the rest. -/
theorem Reaches.step (h : Reaches p (X86.step p s) t) : Reaches p s t :=
  Reaches.trans ⟨1, rfl⟩ h

/-- The next line is an instruction: it is carried out first. -/
theorem Reaches.instr {i : Instr L F} (hpc : s.pc = .lines (.instr i :: rest))
    (h : Reaches p (exec p i rest s) t) : Reaches p s t := by
  refine Reaches.step ?_
  rwa [X86.step, hpc]

/-- The next line is a label: it is passed. -/
theorem Reaches.label {l : L} (hpc : s.pc = .lines (.label l :: rest))
    (h : Reaches p { s with pc := .lines rest } t) : Reaches p s t := by
  refine Reaches.step ?_
  rwa [X86.step, hpc]

/-- A comparison that succeeds, and the jump behind it: the program goes on at the label, with the
zero flag set. -/
theorem Reaches.jumpEq {r : Reg} {n : BitVec 64} {l : L}
    (hpc : s.pc = .lines (.instr (.cmp r n) :: .instr (.je l) :: rest)) (hr : s.regs r = n)
    (h : Reaches p { s with rflags := setZf s.rflags true, pc := .lines (p.from l) } t) :
    Reaches p s t := by
  refine Reaches.instr hpc (Reaches.instr rfl ?_)
  simpa [exec, hr] using h

/-- A comparison that fails, and the jump behind it: the program goes on behind the two, with the
zero flag clear. -/
theorem Reaches.jumpNe {r : Reg} {n : BitVec 64} {l : L}
    (hpc : s.pc = .lines (.instr (.cmp r n) :: .instr (.je l) :: rest)) (hr : s.regs r ≠ n)
    (h : Reaches p { s with rflags := setZf s.rflags false, pc := .lines rest } t) :
    Reaches p s t := by
  refine Reaches.instr hpc (Reaches.instr rfl ?_)
  simpa [exec, hr] using h

/-- A run that leaves the program stays where it is. -/
theorem Reaches.eventually (h : Reaches p s t) (hpc : t.pc = .address a) :
    ∃ N, ∀ n ≥ N, (X86.step p)^[n] s = t := by
  obtain ⟨N, hN⟩ := h
  refine ⟨N, fun n hn => ?_⟩
  obtain ⟨k, rfl⟩ := Nat.exists_eq_add_of_le' hn
  have hfix : X86.step p t = t := by rw [X86.step, hpc]
  rw [Function.iterate_add_apply, hN, Function.iterate_fixed hfix]

/-! ## Blocks of pushes and pops -/

/-- The registers after the values are loaded into them in turn. -/
def restore (g : Reg → BitVec 64) : List Reg → List (BitVec 64) → Reg → BitVec 64
  | r :: rs, v :: vs => restore (Function.update g r v) rs vs
  | _, _ => g

/-- A register that is not loaded keeps what is stored in it before or after. -/
theorem restore_update {r : Reg} {rs : List Reg} (hr : r ∉ rs) (g : Reg → BitVec 64)
    (x : BitVec 64) (vs : List (BitVec 64)) :
    restore (Function.update g r x) rs vs = Function.update (restore g rs vs) r x := by
  induction rs generalizing g vs with
  | nil => rfl
  | cons r' rs ih =>
      rw [List.mem_cons, not_or] at hr
      cases vs with
      | nil => rfl
      | cons v vs => rw [restore, restore, Function.update_comm hr.1, ih hr.2]

/-- What a register holds after its value, and no other, is loaded into it. -/
theorem restore_map {r : Reg} {rs : List Reg} (hnodup : rs.Nodup) (g f : Reg → BitVec 64) :
    restore g rs (rs.map f) r = if r ∈ rs then f r else g r := by
  induction rs generalizing g with
  | nil => simp [restore]
  | cons r' rs ih =>
      rw [List.nodup_cons] at hnodup
      rw [List.map_cons, restore, ih hnodup.2]
      by_cases hr : r = r'
      · subst hr
        simp [hnodup.1]
      · simp [hr]

/-- Registers pushed one after the other: their values lie below the stack pointer, and it has gone
down by as many words. By induction on the registers. -/
theorem reaches_push (rs : List Reg) (hrsp : .rsp ∉ rs) :
    ∀ {s : Cpu L F W}, s.pc = .lines (rs.map (fun r => .instr (.push r)) ++ rest) →
      Reaches p s { s with
        mem := pushAll s.mem (s.regs .rsp) (rs.map s.regs)
        regs := Function.update s.regs .rsp (below (s.regs .rsp) rs.length)
        pc := .lines rest } := by
  induction rs with
  | nil =>
      intro s hpc
      have hs : { s with
          mem := pushAll s.mem (s.regs .rsp) (List.map s.regs [])
          regs := Function.update s.regs .rsp (below (s.regs .rsp) 0)
          pc := .lines rest } = s := by
        rw [List.map_nil, List.nil_append] at hpc
        rw [← hpc]
        simp [pushAll]
      exact ⟨0, hs.symm⟩
  | cons r rs ih =>
      intro s hpc
      rw [List.mem_cons, not_or] at hrsp
      refine Reaches.instr hpc ((ih hrsp.2 rfl).trans ⟨0, ?_⟩)
      have hregs : rs.map (Function.update s.regs .rsp (s.regs .rsp - 8#64)) = rs.map s.regs := by
        refine List.map_congr_left fun r' hr' => Function.update_of_ne ?_ _ _
        rintro rfl
        exact hrsp.2 hr'
      simp [exec, Machine.push, hregs, pushAll, below_succ]

/-- Registers popped one after the other take the words on the stack in turn. By induction on the
registers. -/
theorem reaches_pop (rs : List Reg) (hrsp : .rsp ∉ rs) :
    ∀ {s : Cpu L F W} {vs ws : List (BitVec 64)},
      s.pc = .lines (rs.map (fun r => .instr (.pop r)) ++ rest) → vs.length = rs.length →
      OnStack s.mem (s.regs .rsp) (vs ++ ws) →
      Reaches p s { s with
        regs := Function.update (restore s.regs rs vs) .rsp (above (s.regs .rsp) rs.length)
        pc := .lines rest } := by
  induction rs with
  | nil =>
      intro s vs ws hpc _ _
      have hs : { s with
          regs := Function.update (restore s.regs [] vs) .rsp (above (s.regs .rsp) 0)
          pc := .lines rest } = s := by
        rw [List.map_nil, List.nil_append] at hpc
        rw [← hpc]
        simp [restore]
      exact ⟨0, hs.symm⟩
  | cons r rs ih =>
      intro s vs ws hpc hlen hholds
      rw [List.mem_cons, not_or] at hrsp
      cases vs with
      | nil => cases hlen
      | cons v vs =>
          obtain ⟨htop, hrest⟩ := hholds
          have hne : Reg.rsp ≠ r := hrsp.1
          refine Reaches.instr hpc ((ih hrsp.2 rfl (Nat.succ.inj hlen)
            (show OnStack _ _ (vs ++ ws) from ?_)).trans ⟨0, ?_⟩)
          · simpa [exec, Machine.set, hne] using hrest
          · simp [exec, Machine.set, Machine.top, restore, htop, above_succ,
              Function.update_comm hne, restore_update hrsp.2]

end

end X86
