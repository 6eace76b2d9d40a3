import Mathlib.Data.Fin.Tuple.Basic
import Mathlib.Logic.Function.Basic
import Mathlib.Tactic.Common

/-!
# Two interrupt controllers in cascade

The 8259A as a personal computer has it: a master at the ports 0x20 and 0x21 and a slave at 0xA0 and
0xA1, whose output is the master's input 2. A chip is brought up by a sequence of initialisation
words, and then latches requests, asks the processor for the most urgent one that no interrupt in
service outranks, and keeps that one in service until the processor says that it is done.

A request is latched when its line goes up and stays latched until it is acknowledged. Of the
operation commands only the end of interrupt without a number is followed.
-/

namespace Pic8259

/-- Which word the data port expects. -/
inductive Phase where
  | ready | icw2 | icw3 | icw4
deriving DecidableEq, Repr

/-- One chip. `irr` are the latched requests, `isr` those in service, `imr` masks. -/
structure Chip where
  phase : Phase
  needsIcw4 : Bool
  single : Bool
  base : BitVec 8
  cascade : BitVec 8
  autoEoi : Bool
  imr : BitVec 8
  irr : Fin 8 → Bool
  isr : Fin 8 → Bool

namespace Chip

/-- The end of the most urgent interrupt in service. -/
def eoi (c : Chip) : Chip :=
  match Fin.find? fun i => c.isr i with
  | some i => { c with isr := Function.update c.isr i false }
  | none => c

/-- A byte written to the command port. -/
def command (c : Chip) (v : BitVec 8) : Chip :=
  if v.getLsbD 4 then
    { c with
      phase := .icw2
      needsIcw4 := v.getLsbD 0
      single := v.getLsbD 1
      autoEoi := false
      imr := 0
      irr := fun _ => false
      isr := fun _ => false }
  else if v &&& 0xF8 = 0x20 then c.eoi
  else c

/-- A byte written to the data port. -/
def data (c : Chip) (v : BitVec 8) : Chip :=
  match c.phase with
  | .ready => { c with imr := v }
  | .icw2 =>
      { c with
        base := v &&& 0xF8
        phase := if c.single then (if c.needsIcw4 then .icw4 else .ready) else .icw3 }
  | .icw3 => { c with cascade := v, phase := if c.needsIcw4 then .icw4 else .ready }
  | .icw4 => { c with autoEoi := v.getLsbD 1, phase := .ready }

/-- The request the chip asks for: the most urgent one that is not masked, if no interrupt as
urgent is in service. -/
def request (c : Chip) : Option (Fin 8) :=
  (Fin.find? fun i => c.irr i && !c.imr.getLsbD i).filter fun i => decide (∀ j ≤ i, c.isr j = false)

/-- A line goes up. -/
def raise (c : Chip) (i : Fin 8) : Chip := { c with irr := Function.update c.irr i true }

/-- A request is acknowledged. -/
def serve (c : Chip) (i : Fin 8) : Chip :=
  { c with
    irr := Function.update c.irr i false
    isr := if c.autoEoi then c.isr else Function.update c.isr i true }

/-- The vector of an input. -/
def vector (c : Chip) (i : Fin 8) : BitVec 8 := c.base + BitVec.ofNat 8 i

end Chip

/-- The two chips. -/
structure Pair where
  master : Chip
  slave : Chip

namespace Pair

/-- `outb`, as far as the chips hear it. -/
def outb (p : Pair) (w : BitVec 16 × BitVec 8) : Pair :=
  if w.1 = 0x20 then { p with master := p.master.command w.2 }
  else if w.1 = 0x21 then { p with master := p.master.data w.2 }
  else if w.1 = 0xA0 then { p with slave := p.slave.command w.2 }
  else if w.1 = 0xA1 then { p with slave := p.slave.data w.2 }
  else p

/-- The input of the master that the slave is on. -/
def cascadeInput : Fin 8 := ⟨2, by omega⟩

/-- The master with the output of the slave on its input. -/
def driven (p : Pair) : Chip :=
  { p.master with
    irr := Function.update p.master.irr cascadeInput p.slave.request.isSome }

/-- A line goes up: the first eight are the master's, the others the slave's. -/
def raise (p : Pair) (line : Fin 16) : Pair :=
  if h : line.val < 8 then { p with master := p.master.raise ⟨line, h⟩ }
  else { p with slave := p.slave.raise ⟨line - 8, by omega⟩ }

/-- A request of the line is latched. -/
def waiting (p : Pair) (line : Fin 16) : Bool :=
  if h : line.val < 8 then p.master.irr ⟨line, h⟩ else p.slave.irr ⟨line - 8, by omega⟩

/-- The processor acknowledges the request there is, if any, and reads the vector. On the input of
the slave the slave answers, if both chips are told that it is there. -/
def acknowledge (p : Pair) : Option (BitVec 8 × Pair) :=
  match p.driven.request with
  | none => none
  | some i =>
      if i = cascadeInput then
        match p.slave.request with
        | some j =>
            if p.master.cascade.getLsbD i ∧ p.slave.cascade = BitVec.ofNat 8 i then
              some (p.slave.vector j, ⟨p.master.serve i, p.slave.serve j⟩)
            else some (0xFF, { p with master := p.master.serve i })
        | none => some (0xFF, { p with master := p.master.serve i })
      else some (p.master.vector i, { p with master := p.master.serve i })

end Pair

/-! ## Requests -/

section
variable {c : Chip} {i : Fin 8}

/-- The request a chip asks for is latched and not masked, no more urgent one is, and nothing as
urgent is in service. -/
theorem Chip.request_eq_some (h : c.request = some i) :
    c.irr i = true ∧ c.imr.getLsbD i = false ∧
      (∀ j < i, c.irr j = true → c.imr.getLsbD j = true) ∧ ∀ j ≤ i, c.isr j = false := by
  unfold Chip.request at h
  obtain ⟨hfind, hisr⟩ := Option.filter_eq_some_iff.1 h
  obtain ⟨hi, hbelow⟩ := Fin.find?_eq_some_iff.1 hfind
  simp only [Bool.and_eq_true, Bool.not_eq_true'] at hi
  refine ⟨hi.1, hi.2, fun j hj hirr => ?_, by simpa using hisr⟩
  have hnot := hbelow j hj
  simpa [hirr] using hnot

/-- A chip with a request that is not masked, and nothing in service, asks for one. -/
theorem Chip.exists_request (hirr : c.irr i = true) (himr : c.imr.getLsbD i = false)
    (hisr : ∀ j, c.isr j = false) : ∃ k ≤ i, c.request = some k := by
  cases hfind : Fin.find? fun i => c.irr i && !c.imr.getLsbD i with
  | none =>
      have hnot := Fin.find?_eq_none_iff.1 hfind i
      simp only [hirr, himr, Bool.not_false, Bool.and_true, Bool.true_eq_false] at hnot
  | some k =>
      refine ⟨k, ?_, ?_⟩
      · by_contra hlt
        have hnot := (Fin.find?_eq_some_iff.1 hfind).2 i (not_le.1 hlt)
        simp only [hirr, himr, Bool.not_false, Bool.and_true, Bool.true_eq_false] at hnot
      · unfold Chip.request
        rw [hfind]
        simp [hisr]

/-- A chip with nothing in service is left as it is by clearing its service register. -/
theorem Chip.isr_none (h : ∀ j, c.isr j = false) : { c with isr := fun _ => false } = c := by
  have hisr : c.isr = fun _ => false := funext h
  rw [← hisr]

/-- The end of the only interrupt in service leaves nothing in service: it is the most urgent one.
-/
theorem Chip.eoi_eq (h : ∀ j, c.isr j = true → j = i) :
    c.eoi = { c with isr := fun _ => false } := by
  unfold Chip.eoi
  cases hfind : Fin.find? fun i => c.isr i with
  | none => exact (Chip.isr_none (Fin.find?_eq_none_iff.1 hfind)).symm
  | some k =>
      have hk : k = i := h k (Fin.find?_eq_some_iff.1 hfind).1
      subst hk
      have hisr : Function.update c.isr k false = fun _ => false := by
        funext j
        by_cases hjk : j = k
        · simp [hjk]
        · simpa [hjk] using fun hj => hjk (h j hj)
      simp only [hisr]

end

end Pic8259
