import OnkenOS.Kernel.Idt
import OnkenOS.Lib.Run

/-!
# Interrupts, from the line to the handler

The controllers as `pic_remap` leaves them, the table `idt_init` loads, the stubs and the end of
interrupt the handlers send (`irq0_handler` of `kernel/time/pit.c`, `irq1_handler` and
`irq12_handler` of `drivers/ps2.c`), as one system. Lines go up at any moment; an interrupt is taken
only when no handler runs, since the gates turn interrupts off.

`irq_served` says that nothing goes missing: a request that the controllers latch is one call of its
handler, now or later, and no other vector is ever fetched.
-/

namespace OnkenOS

open X86 Pic8259

/-- The interrupt line of a handler. -/
def IrqHandler.line : IrqHandler → Fin 16
  | .irq0Handler => 0
  | .irq1Handler => 1
  | .irq12Handler => 12

/-- The argument of `pic_send_eoi` at the end of a handler. -/
def IrqHandler.eoi : IrqHandler → BitVec 8
  | .irq0Handler => 0
  | .irq1Handler => 1
  | .irq12Handler => 12

/-- The handlers. -/
def irqHandlers : List IrqHandler := [.irq0Handler, .irq1Handler, .irq12Handler]

/-- The interrupts of the kernel. `latched` counts, for each handler, the times its line went up
while no request of it was waiting. -/
structure IrqSystem where
  pics : Pair
  running : Option IrqHandler
  calls : List IrqHandler
  latched : IrqHandler → Nat
  /-- the vectors fetched that are no stub's -/
  faults : List (BitVec 8)

/-- What can happen next. -/
inductive IrqEvent where
  | raise (line : Fin 16)
  | take
  | finish

/-- The handler whose stub is at an address. -/
def stubAt (stub : IrqHandler → BitVec 64) (g : Gate) : Option IrqHandler :=
  irqHandlers.find? fun k => stub k = g.offset

/-- A request of the handler is waiting. -/
def IrqSystem.pending (s : IrqSystem) (k : IrqHandler) : Bool := s.pics.waiting k.line

/-- One step. `gate` is what the processor reads of a vector in its table. -/
def irqStep (stub : IrqHandler → BitVec 64) (gate : BitVec 8 → Option Gate) (s : IrqSystem) :
    IrqEvent → IrqSystem
  | .raise line =>
      { s with
        pics := s.pics.raise line
        latched := fun k =>
          if k.line = line ∧ s.pending k = false then s.latched k + 1 else s.latched k }
  | .take =>
      match s.running, s.pics.acknowledge with
      | none, some (vector, pics) =>
          match (gate vector).bind (stubAt stub) with
          | some k => { s with pics := pics, running := some k, calls := s.calls ++ [k] }
          | none => { s with pics := pics, faults := s.faults ++ [vector] }
      | _, _ => s
  | .finish =>
      match s.running with
      | some k => { s with pics := (picSendEoi k.eoi).foldl Pair.outb s.pics, running := none }
      | none => s

/-- The interrupts behind `idt_init`. -/
def irqInit (pics : Pair) : IrqSystem where
  pics := picRemap.foldl Pair.outb pics
  running := none
  calls := []
  latched := fun _ => 0
  faults := []

/-! ## The controllers while the system runs -/

/-- The input of the master that a handler's requests come in at. -/
def IrqHandler.input : IrqHandler → Fin 8
  | .irq0Handler => 0
  | .irq1Handler => 1
  | .irq12Handler => Pair.cascadeInput

/-- The controllers with the interrupt of `running` in service. -/
structure Remapped (p : Pair) (running : Option IrqHandler) : Prop where
  masterPhase : p.master.phase = .ready
  masterBase : p.master.base = 0x20
  masterCascade : p.master.cascade = 0x04
  masterMask : p.master.imr = 0xF8
  masterManual : p.master.autoEoi = false
  slavePhase : p.slave.phase = .ready
  slaveBase : p.slave.base = 0x28
  slaveCascade : p.slave.cascade = 0x02
  slaveMask : p.slave.imr = 0xEF
  slaveManual : p.slave.autoEoi = false
  masterService : ∀ j, p.master.isr j = true ↔ ∃ k, running = some k ∧ j = k.input
  slaveService : ∀ j, p.slave.isr j = true ↔ running = some .irq12Handler ∧ j = 4

/-- The controllers when the request of a handler has been acknowledged. -/
def IrqHandler.served (p : Pair) : IrqHandler → Pair
  | .irq0Handler => { p with master := p.master.serve 0 }
  | .irq1Handler => { p with master := p.master.serve 1 }
  | .irq12Handler => ⟨p.master.serve Pair.cascadeInput, p.slave.serve 4⟩

section
variable {p : Pair} {running : Option IrqHandler} {k : IrqHandler}

/-- The writes of `pic_remap` set up both controllers, whatever the firmware left in them: the
vectors from 0x20 and 0x28 on, and nothing in service. -/
theorem remapped_picRemap (p : Pair) : Remapped (picRemap.foldl Pair.outb p) none := by
  constructor <;> simp [picRemap, Pair.outb, Chip.command, Chip.data]

/-- There are no other handlers. -/
theorem mem_irqHandlers (k : IrqHandler) : k ∈ irqHandlers := by
  cases k <;> simp [irqHandlers]

/-- The stub of a handler is its own: no other one has its address. -/
theorem stubAt_stub {stub : IrqHandler → BitVec 64} (hstub : Function.Injective stub) {g : Gate}
    (hg : g.offset = stub k) : stubAt stub g = some k := by
  have hfind : (irqHandlers.find? fun j => stub j = stub k) = some k := by
    have hsome : (irqHandlers.find? fun j => stub j = stub k).isSome :=
      List.find?_isSome.2 ⟨k, mem_irqHandlers k, by simp⟩
    obtain ⟨j, hj⟩ := Option.isSome_iff_exists.1 hsome
    have hsame : stub j = stub k := by simpa using List.find?_some hj
    rw [hj, hstub hsame]
  unfold stubAt
  rw [hg]
  exact hfind

/-- The mask of the master lets the timer, the keyboard and the slave through. -/
theorem master_unmasked :
    ∀ i : Fin 8, (0xF8#8).getLsbD i = false → i = 0 ∨ i = 1 ∨ i = Pair.cascadeInput := by
  decide

/-- The mask of the slave lets the mouse through. -/
theorem slave_unmasked : ∀ i : Fin 8, (0xEF#8).getLsbD i = false → i = 4 := by
  decide

namespace Remapped

/-- With nothing in service the slave asks for the mouse if its request is there, and for nothing
otherwise. -/
theorem slave_request (h : Remapped p none) :
    p.slave.request = if p.slave.irr 4 = true then some 4 else none := by
  have hfree : ∀ j, p.slave.isr j = false := by
    intro j
    have hj := h.slaveService j
    simpa using hj
  cases hreq : p.slave.request with
  | none =>
      split
      · next hirr =>
          obtain ⟨k, -, hk⟩ := Chip.exists_request hirr (by rw [h.slaveMask]; rfl) hfree
          rw [hreq] at hk
          exact absurd hk (by simp)
      · rfl
  | some i =>
      obtain ⟨hirr, himr, -, -⟩ := Chip.request_eq_some hreq
      rw [h.slaveMask] at himr
      obtain rfl := slave_unmasked i himr
      rw [if_pos hirr]

/-- The input of a waiting handler is up at the master. -/
theorem driven_irr (h : Remapped p none) (k : IrqHandler) :
    p.driven.irr k.input = p.waiting k.line := by
  cases k with
  | irq0Handler => rfl
  | irq1Handler => rfl
  | irq12Handler =>
      have hirr : p.driven.irr Pair.cascadeInput = p.slave.request.isSome := by
        simp [Pair.driven]
      change p.driven.irr Pair.cascadeInput = p.slave.irr 4
      rw [hirr, h.slave_request]
      cases p.slave.irr 4 <;> rfl

/-- The controllers ask for the most urgent of the waiting requests, and for nothing else. -/
theorem acknowledge (h : Remapped p none) :
    (p.acknowledge = none ∧ ∀ k : IrqHandler, p.waiting k.line = false) ∨
      ∃ k : IrqHandler, p.acknowledge = some (k.vector.setWidth 8, k.served p) ∧
        p.waiting k.line = true ∧
        ∀ j : IrqHandler, p.waiting j.line = true → k.vector ≤ j.vector := by
  have hfree : ∀ j, p.driven.isr j = false := by
    intro j
    have hj := h.masterService j
    simpa [Pair.driven] using hj
  have hmask : p.driven.imr = 0xF8 := h.masterMask
  have hopen : ∀ k : IrqHandler, p.driven.imr.getLsbD k.input = false := by
    intro k
    rw [hmask]
    cases k <;> rfl
  cases hreq : p.driven.request with
  | none =>
      refine .inl ⟨by rw [Pair.acknowledge, hreq], fun k => ?_⟩
      rw [← h.driven_irr k]
      by_contra hup
      obtain ⟨i, -, hi⟩ := Chip.exists_request (Bool.not_eq_false _ ▸ hup) (hopen k) hfree
      rw [hreq] at hi
      exact absurd hi (by simp)
  | some i =>
      obtain ⟨hirr, himr, hbelow, -⟩ := Chip.request_eq_some hreq
      -- a waiting handler has its input at or behind the one asked for
      have hurgent : ∀ j : IrqHandler, p.waiting j.line = true → i ≤ j.input := by
        intro j hj
        by_contra hlt
        have hmasked := hbelow j.input (not_le.1 hlt) ((h.driven_irr j).trans hj)
        rw [hopen j] at hmasked
        exact absurd hmasked (by simp)
      have hvector : ∀ k j : IrqHandler, k.input ≤ j.input → k.vector ≤ j.vector := by
        intro k j
        cases k <;> cases j <;> decide
      have hfound : ∀ k : IrqHandler, i = k.input →
          p.acknowledge = some (k.vector.setWidth 8, k.served p) →
          ∃ k : IrqHandler, p.acknowledge = some (k.vector.setWidth 8, k.served p) ∧
            p.waiting k.line = true ∧
            ∀ j : IrqHandler, p.waiting j.line = true → k.vector ≤ j.vector := by
        rintro k rfl hack
        exact ⟨k, hack, (h.driven_irr k).symm.trans hirr,
          fun j hj => hvector k j (hurgent j hj)⟩
      rw [hmask] at himr
      refine .inr ?_
      rcases master_unmasked i himr with rfl | rfl | rfl
      · refine hfound .irq0Handler rfl ?_
        simp only [Pair.acknowledge, hreq, Chip.vector, h.masterBase]
        rfl
      · refine hfound .irq1Handler rfl ?_
        simp only [Pair.acknowledge, hreq, Chip.vector, h.masterBase]
        rfl
      · refine hfound .irq12Handler rfl ?_
        have hup : p.slave.irr 4 = true := (h.driven_irr .irq12Handler).symm.trans hirr
        simp only [Pair.acknowledge, hreq, h.slave_request, hup, Chip.vector, h.slaveBase,
          h.masterCascade, h.slaveCascade]
        rfl

/-- What is waiting once a handler is called. -/
theorem waiting_served (p : Pair) (k j : IrqHandler) :
    (k.served p).waiting j.line = if j = k then false else p.waiting j.line := by
  cases k <;> cases j <;> rfl

/-- Acknowledging the request of a handler puts it in service, on both controllers for the mouse. -/
theorem served (h : Remapped p none) (k : IrqHandler) : Remapped (k.served p) (some k) := by
  have hmaster : ∀ j, p.master.isr j = false := by
    intro j
    have hj := h.masterService j
    simpa using hj
  have hslave : ∀ j, p.slave.isr j = false := by
    intro j
    have hj := h.slaveService j
    simpa using hj
  have hmanual := h.masterManual
  have hmanual' := h.slaveManual
  constructor <;> cases k <;>
    simp [IrqHandler.served, IrqHandler.input, Chip.serve, Function.update_apply, h.masterPhase,
      h.masterBase, h.masterCascade, h.masterMask, h.slavePhase, h.slaveBase, h.slaveCascade,
      h.slaveMask, hmanual, hmanual', hmaster, hslave]

/-- A line that goes up changes requests only, so the set-up and what is in service stay. -/
theorem raise (h : Remapped p running) (line : Fin 16) : Remapped (p.raise line) running := by
  unfold Pair.raise
  split
  · exact ⟨h.masterPhase, h.masterBase, h.masterCascade, h.masterMask, h.masterManual,
      h.slavePhase, h.slaveBase, h.slaveCascade, h.slaveMask, h.slaveManual, h.masterService,
      h.slaveService⟩
  · exact ⟨h.masterPhase, h.masterBase, h.masterCascade, h.masterMask, h.masterManual,
      h.slavePhase, h.slaveBase, h.slaveCascade, h.slaveMask, h.slaveManual, h.masterService,
      h.slaveService⟩

/-- After a line went up its request waits; the others wait as before. -/
theorem waiting_raise (p : Pair) (line l : Fin 16) :
    (p.raise line).waiting l = if l = line then true else p.waiting l := by
  unfold Pair.raise Pair.waiting
  by_cases hl : l = line
  · subst hl
    by_cases hlt : l.val < 8 <;> simp [hlt, Chip.raise]
  · have hval : l.val ≠ line.val := fun he => hl (Fin.ext he)
    by_cases hlt : l.val < 8
    · by_cases hline : line.val < 8
      · simp [hlt, hline, hl, hval, Chip.raise]
      · simp [hlt, hline, hl]
    · by_cases hline : line.val < 8
      · simp [hlt, hline, hl]
      · have hsub : l.val - 8 ≠ line.val - 8 := by omega
        simp [hlt, hline, hl, hsub, Chip.raise]

/-- The end of interrupt takes the running handler out of service at both chips. -/
theorem outb_picSendEoi (h : Remapped p (some k)) :
    (picSendEoi k.eoi).foldl Pair.outb p =
      ⟨{ p.master with isr := fun _ => false }, { p.slave with isr := fun _ => false }⟩ := by
  have hmaster : p.master.eoi = { p.master with isr := fun _ => false } := by
    refine Chip.eoi_eq (i := k.input) fun j hj => ?_
    obtain ⟨k', hk', rfl⟩ := (h.masterService j).1 hj
    rw [Option.some.inj hk']
  have hslave : p.slave.eoi = { p.slave with isr := fun _ => false } :=
    Chip.eoi_eq (i := 4) fun j hj => ((h.slaveService j).1 hj).2
  -- the other handlers leave the slave alone, and it has nothing in service
  have hother : k ≠ .irq12Handler → { p.slave with isr := fun _ => false } = p.slave := by
    intro hk
    refine Chip.isr_none fun j => ?_
    by_contra hj
    exact hk (Option.some.inj ((h.slaveService j).1 (by simpa using hj)).1)
  cases k with
  | irq0Handler =>
      rw [hother (by simp), ← hmaster]
      rfl
  | irq1Handler =>
      rw [hother (by simp), ← hmaster]
      rfl
  | irq12Handler =>
      rw [← hmaster, ← hslave]
      rfl

/-- The end of interrupt that a handler sends takes out of service what its acknowledgement put in,
on each controller it came through. -/
theorem eoi (h : Remapped p (some k)) :
    Remapped ((picSendEoi k.eoi).foldl Pair.outb p) none := by
  rw [h.outb_picSendEoi]
  exact ⟨h.masterPhase, h.masterBase, h.masterCascade, h.masterMask, h.masterManual,
    h.slavePhase, h.slaveBase, h.slaveCascade, h.slaveMask, h.slaveManual, by simp, by simp⟩

/-- The end of interrupt drops no request that is waiting. -/
theorem waiting_eoi (h : Remapped p (some k)) (l : Fin 16) :
    ((picSendEoi k.eoi).foldl Pair.outb p).waiting l = p.waiting l := by
  rw [h.outb_picSendEoi]
  rfl

end Remapped

/-! ## The system -/

/-- What every run keeps. -/
structure IrqInv (s : IrqSystem) : Prop where
  remapped : Remapped s.pics s.running
  faults : s.faults = []
  served : ∀ k, s.calls.count k + (s.pending k).toNat = s.latched k

variable {stub : IrqHandler → BitVec 64} {gate : BitVec 8 → Option Gate} {s : IrqSystem}

/-- The gates of the vectors are those of the stubs. -/
def StubGates (stub : IrqHandler → BitVec 64) (gate : BitVec 8 → Option Gate) : Prop :=
  ∀ k : IrqHandler, (gate (k.vector.setWidth 8)).bind (stubAt stub) = some k

/-- An interrupt that is taken is the most urgent one that waits, and its handler is called. -/
theorem take_cases (hgate : StubGates stub gate) (h : Remapped s.pics s.running)
    (hidle : s.running = none) :
    (irqStep stub gate s .take = s ∧ ∀ k, s.pending k = false) ∨
      ∃ k, s.pending k = true ∧ (∀ j, s.pending j = true → k.vector ≤ j.vector) ∧
        irqStep stub gate s .take =
          { s with pics := k.served s.pics, running := some k, calls := s.calls ++ [k] } := by
  rw [hidle] at h
  rcases h.acknowledge with ⟨hack, hnone⟩ | ⟨k, hack, hk, hurgent⟩
  · exact .inl ⟨by simp only [irqStep, hidle, hack], hnone⟩
  · exact .inr ⟨k, hk, hurgent, by simp only [irqStep, hidle, hack, hgate k]⟩

/-- While a handler runs, no interrupt is taken: the gates clear IF. -/
theorem take_of_running {k : IrqHandler} (h : s.running = some k) :
    irqStep stub gate s .take = s := by
  simp only [irqStep, h]

/-- Every step keeps the invariant: one case for a line, one for an interrupt taken and one for a
handler that ends. -/
theorem irqStep_inv (hgate : StubGates stub gate) (e : IrqEvent) (h : IrqInv s) :
    IrqInv (irqStep stub gate s e) := by
  cases e with
  | raise line =>
      refine ⟨h.remapped.raise line, h.faults, fun k => ?_⟩
      have hserved := h.served k
      have hwaiting : (irqStep stub gate s (.raise line)).pending k =
          if k.line = line then true else s.pending k := Remapped.waiting_raise s.pics line k.line
      rw [hwaiting]
      by_cases hline : k.line = line
      · cases hk : s.pending k with
        | false => simpa [irqStep, hline, hk] using hserved
        | true => simpa [irqStep, hline, hk] using hserved
      · simpa [irqStep, hline] using hserved
  | take =>
      cases hrun : s.running with
      | some k => rwa [take_of_running hrun]
      | none =>
          rcases take_cases hgate h.remapped hrun with ⟨heq, -⟩ | ⟨k, hk, -, heq⟩
          · rwa [heq]
          · rw [heq]
            refine ⟨(hrun ▸ h.remapped).served k, h.faults, fun j => ?_⟩
            have hserved := h.served j
            have hwaiting : (k.served s.pics).waiting j.line =
                if j = k then false else s.pics.waiting j.line := Remapped.waiting_served s.pics k j
            change (s.calls ++ [k]).count j + ((k.served s.pics).waiting j.line).toNat = s.latched j
            rw [hwaiting, List.count_append]
            by_cases hj : j = k
            · subst hj
              simpa [hk] using hserved
            · have hne : k ≠ j := fun he => hj he.symm
              simpa [hj, hne, IrqSystem.pending] using hserved
  | finish =>
      cases hrun : s.running with
      | none =>
          have heq : irqStep stub gate s .finish = s := by simp only [irqStep, hrun]
          rwa [heq]
      | some k =>
          have hremapped : Remapped s.pics (some k) := hrun ▸ h.remapped
          have heq : irqStep stub gate s .finish =
              { s with pics := (picSendEoi k.eoi).foldl Pair.outb s.pics, running := none } := by
            simp only [irqStep, hrun]
          rw [heq]
          refine ⟨hremapped.eoi, h.faults, fun j => ?_⟩
          have hserved := h.served j
          rwa [IrqSystem.pending, ← hremapped.waiting_eoi j.line] at hserved

/-- An interrupt taken and finished. -/
def irqRound : List IrqEvent := [.take, .finish]

/-- A round calls the handler that is due, and leaves what else waits. -/
theorem round_cases (hgate : StubGates stub gate) (h : IrqInv s) (hidle : s.running = none) :
    (Machine.run (irqStep stub gate) s irqRound = s ∧ ∀ k, s.pending k = false) ∨
      ∃ k, s.pending k = true ∧
        (Machine.run (irqStep stub gate) s irqRound).running = none ∧
        (Machine.run (irqStep stub gate) s irqRound).pending =
          Function.update s.pending k false := by
  rcases take_cases hgate h.remapped hidle with ⟨heq, hnone⟩ | ⟨k, hk, -, heq⟩
  · refine .inl ⟨?_, hnone⟩
    simp only [irqRound, Machine.run_cons, Machine.run_nil, heq]
    simp only [irqStep, hidle]
  · have hserved : Remapped (k.served s.pics) (some k) := (hidle ▸ h.remapped).served k
    refine .inr ⟨k, hk, ?_⟩
    simp only [irqRound, Machine.run_cons, Machine.run_nil, heq]
    refine ⟨rfl, funext fun j => ?_⟩
    rw [Function.update_apply]
    exact (hserved.waiting_eoi j.line).trans (Remapped.waiting_served s.pics k j)

/-- Serving a request leaves one less to serve, which is what the drain goes down on. -/
theorem countP_pending_lt {pending : IrqHandler → Bool} {k : IrqHandler} (hk : pending k = true) :
    irqHandlers.countP (Function.update pending k false) < irqHandlers.countP pending := by
  cases k <;> simp [irqHandlers, List.countP_cons, hk]

/-- With no more lines going up, every waiting handler is called in so many rounds. -/
theorem rounds_drain (hgate : StubGates stub gate) :
    ∀ (n : Nat) {s : IrqSystem}, IrqInv s → s.running = none →
      irqHandlers.countP s.pending ≤ n →
      ∀ k, (Machine.run (irqStep stub gate) s
        (List.replicate n irqRound).flatten).pending k = false
  | 0, s, _, _, hn, k => by
      have hzero : irqHandlers.countP s.pending = 0 := by omega
      simpa using List.countP_eq_zero.1 hzero k (mem_irqHandlers k)
  | n + 1, s, h, hidle, hn, k => by
      rw [List.replicate_succ, List.flatten_cons, Machine.run_append]
      rcases round_cases hgate h hidle with ⟨heq, hnone⟩ | ⟨k', hk', hidle', hpending⟩
      · rw [heq]
        have hzero : irqHandlers.countP s.pending = 0 :=
          List.countP_eq_zero.2 fun j _ => by simp [hnone j]
        exact rounds_drain hgate n h hidle (by omega) k
      · have hinv : IrqInv (Machine.run (irqStep stub gate) s irqRound) :=
          Machine.run_invariant (fun s e => irqStep_inv hgate e) irqRound h
        have hless := countP_pending_lt hk'
        rw [← hpending] at hless
        exact rounds_drain hgate n hinv hidle' (by omega) k

/-- The table that `idt_init` fills in is read by the processor as the gates of the stubs. -/
theorem stubGates_idtTable (idt : Idt) (cs : BitVec 16) (hstub : Function.Injective stub)
    (table : BitVec 64) :
    StubGates stub (fetchGate (idtPtr table).limit (idtTable idt cs stub).byte) := by
  intro k
  rw [fetchGate_idtTable]
  cases k with
  | irq0Handler => exact stubAt_stub hstub rfl
  | irq1Handler => exact stubAt_stub hstub rfl
  | irq12Handler => exact stubAt_stub hstub rfl

/-- Behind `pic_remap` nothing is in service, nothing waits and nothing was latched. -/
theorem irqInit_inv (pics : Pair) : IrqInv (irqInit pics) := by
  refine ⟨remapped_picRemap pics, rfl, fun k => ?_⟩
  have hwaiting : (irqInit pics).pending k = false := by
    cases k <;> simp [IrqSystem.pending, irqInit, picRemap, Pair.waiting, Pair.outb, Chip.command,
      Chip.data, IrqHandler.line]
  rw [hwaiting]
  rfl

end

/-- However the lines go up, `pic_remap`, the table and the handlers together lose no request that
the controllers latch and answer none twice; no vector without a stub is fetched; the most urgent
request that waits goes first; and three calls empty the controllers. -/
theorem irq_served (idt : Idt) (cs : BitVec 16) (stub : IrqHandler → BitVec 64)
    (hstub : Function.Injective stub) (table : BitVec 64) (pics : Pair) (es : List IrqEvent) :
    let gate := fetchGate (idtPtr table).limit (idtTable idt cs stub).byte
    let s := Machine.run (irqStep stub gate) (irqInit pics) es
    s.faults = [] ∧
      (∀ k, s.calls.count k + (s.pending k).toNat = s.latched k) ∧
      (s.running = none →
        (∀ k, s.pending k = true → ∃ j, s.pending j = true ∧
          (∀ i, s.pending i = true → j.vector ≤ i.vector) ∧
          (irqStep stub gate s .take).running = some j ∧
          (irqStep stub gate s .take).calls = s.calls ++ [j]) ∧
        ∀ k, (Machine.run (irqStep stub gate) s
          (irqRound ++ irqRound ++ irqRound)).pending k = false) := by
  intro gate s
  have hgate : StubGates stub gate := stubGates_idtTable idt cs hstub table
  have hinv : IrqInv s :=
    Machine.run_invariant (fun s e => irqStep_inv hgate e) es (irqInit_inv pics)
  refine ⟨hinv.faults, hinv.served, fun hidle => ⟨fun k hk => ?_, ?_⟩⟩
  · rcases take_cases hgate hinv.remapped hidle with ⟨-, hnone⟩ | ⟨j, hj, hurgent, heq⟩
    · exact absurd hk (by simp [hnone k])
    · exact ⟨j, hj, hurgent, by rw [heq], by rw [heq]⟩
  · have hthree : irqHandlers.countP s.pending ≤ 3 := List.countP_le_length
    exact rounds_drain hgate 3 hinv hidle hthree

/-- A controller as the firmware may leave it. -/
def firmwareChip : Chip :=
  ⟨.ready, true, false, 0x08, 0x04, false, 0xB8, fun _ => false, fun _ => false⟩

/-- A table in memory that is zero. -/
def zeroIdt : Idt := fun _ => ⟨0, 0, 0, 0, 0, 0, 0⟩

/-- Stubs sixteen bytes apart. -/
def sampleStub : IrqHandler → BitVec 64
  | .irq0Handler => 0xFFFFFFFF80001000
  | .irq1Handler => 0xFFFFFFFF80001010
  | .irq12Handler => 0xFFFFFFFF80001020

/-- A key, the mouse and the timer at once, one of which is taken: each of them was handled or still
waits, and no vector was a stranger. -/
theorem irq_served_together :
    let gate := fetchGate (idtPtr 0).limit (idtTable zeroIdt 0x28 sampleStub).byte
    let s := Machine.run (irqStep sampleStub gate) (irqInit ⟨firmwareChip, firmwareChip⟩)
      [.raise 1, .raise 12, .raise 0, .take]
    s.faults = [] ∧ ∀ k, s.calls.count k + (s.pending k).toNat = s.latched k := by
  have hstub : Function.Injective sampleStub := by
    intro j k
    cases j <;> cases k <;> simp [sampleStub]
  have hserved := irq_served zeroIdt 0x28 sampleStub hstub 0 ⟨firmwareChip, firmwareChip⟩
    [.raise 1, .raise 12, .raise 0, .take]
  exact ⟨hserved.1, hserved.2.1⟩

end OnkenOS
