import OnkenOS.Kernel.Interrupts
import OnkenOS.Lib.Pic8259

/-!
# The interrupt descriptor table

`kernel/interrupts/idt.c`: the table, whose entries are packed into sixteen bytes each, and the
bytes that bring up the interrupt controllers. The processor reads the table byte by byte
(`fetchGate`); what it finds there after `idt_init` is `idt_init_gates`.
-/

namespace OnkenOS

open X86 Pic8259

/-- `struct idt_entry`. -/
structure IdtEntry where
  isrLow : BitVec 16
  kernelCs : BitVec 16
  ist : BitVec 8
  attributes : BitVec 8
  isrMid : BitVec 16
  isrHigh : BitVec 32
  reserved : BitVec 32

/-- `idt`. -/
abbrev Idt := BitVec 8 → IdtEntry

/-- `struct idt_ptr`. -/
structure IdtPtr where
  limit : BitVec 16
  base : BitVec 64

/-- `idt_set_gate`. -/
def idtSetGate (idt : Idt) (num : BitVec 8) (base : BitVec 64) (sel : BitVec 16)
    (flags : BitVec 8) : Idt :=
  Function.update idt num
    { isrLow := (base &&& 0xFFFF).setWidth 16
      kernelCs := sel
      ist := 0
      attributes := flags
      isrMid := ((base >>> 16) &&& 0xFFFF).setWidth 16
      isrHigh := ((base >>> 32) &&& 0xFFFFFFFF).setWidth 32
      reserved := 0 }

/-- `pic_remap`, by the bytes it writes to the ports. -/
def picRemap : List (BitVec 16 × BitVec 8) :=
  [(0x20, 0x11), (0xA0, 0x11),
   (0x21, 0x20), (0xA1, 0x28),
   (0x21, 0x04), (0xA1, 0x02),
   (0x21, 0x01), (0xA1, 0x01),
   (0x21, 0xF8), (0xA1, 0xEF)]

/-- `pic_send_eoi`. -/
def picSendEoi (irq : BitVec 8) : List (BitVec 16 × BitVec 8) :=
  (if 8 ≤ irq then [(0xA0, 0x20)] else []) ++ [(0x20, 0x20)]

/-- The loop of `idt_init` that clears the table. -/
def idtClear (idt : Idt) : Idt :=
  (List.range 256).foldl (fun idt i => idtSetGate idt (BitVec.ofNat 8 i) 0 0 0) idt

/-- The table `idt_init` loads, for the code segment it reads and the addresses of the stubs. -/
def idtTable (idt : Idt) (cs : BitVec 16) (stub : IrqHandler → BitVec 64) : Idt :=
  let idt := idtClear idt
  let idt := idtSetGate idt 32 (stub .irq0Handler) cs 0x8E
  let idt := idtSetGate idt 33 (stub .irq1Handler) cs 0x8E
  idtSetGate idt 44 (stub .irq12Handler) cs 0x8E

/-- `idtp`, as `idt_init` fills it in for the table at `base`. -/
def idtPtr (base : BitVec 64) : IdtPtr := ⟨16 * 256 - 1, base⟩

/-! ## The table in memory -/

/-- The bytes of an entry: the structure is packed. -/
def IdtEntry.byte (e : IdtEntry) : Nat → BitVec 8
  | 0 => e.isrLow.extractLsb' 0 8
  | 1 => e.isrLow.extractLsb' 8 8
  | 2 => e.kernelCs.extractLsb' 0 8
  | 3 => e.kernelCs.extractLsb' 8 8
  | 4 => e.ist
  | 5 => e.attributes
  | 6 => e.isrMid.extractLsb' 0 8
  | 7 => e.isrMid.extractLsb' 8 8
  | 8 => e.isrHigh.extractLsb' 0 8
  | 9 => e.isrHigh.extractLsb' 8 8
  | 10 => e.isrHigh.extractLsb' 16 8
  | 11 => e.isrHigh.extractLsb' 24 8
  | i => e.reserved.extractLsb' (8 * (i - 12)) 8

/-- The bytes of the table. -/
def Idt.byte (idt : Idt) (i : Nat) : BitVec 8 := (idt (BitVec.ofNat 8 (i / 16))).byte (i % 16)

/-- A gate, as the processor understands it. -/
structure Gate where
  offset : BitVec 64
  selector : BitVec 16
  ist : BitVec 3
  type : BitVec 4
deriving DecidableEq

/-- The gate of a vector in a table of the given bytes: none if it is beyond the limit or not
present. -/
def fetchGate (limit : BitVec 16) (bytes : Nat → BitVec 8) (vector : BitVec 8) : Option Gate :=
  let b (j : Nat) : BitVec 8 := bytes (16 * vector.toNat + j)
  if 16 * vector.toNat + 15 ≤ limit.toNat ∧ (b 5).getLsbD 7 = true then
    some
      { offset := b 11 ++ b 10 ++ b 9 ++ b 8 ++ b 7 ++ b 6 ++ b 1 ++ b 0
        selector := b 3 ++ b 2
        ist := (b 4).extractLsb' 0 3
        type := (b 5).extractLsb' 0 4 }
  else none

section
variable {idt : Idt} {num vector : BitVec 8} {base : BitVec 64} {sel : BitVec 16}
  {flags : BitVec 8}

/-- The bytes of the table are those of its entries, sixteen for each. -/
theorem byte_table (idt : Idt) (v : BitVec 8) {j : Nat} (hj : j < 16) :
    idt.byte (16 * v.toNat + j) = (idt v).byte j := by
  have hdiv : (16 * v.toNat + j) / 16 = v.toNat := by omega
  have hmod : (16 * v.toNat + j) % 16 = j := by omega
  unfold Idt.byte
  rw [hdiv, hmod, BitVec.ofNat_toNat, BitVec.setWidth_eq]

/-- A mask of the width does nothing before a cut to that width. -/
theorem setWidth_and_mask (x : BitVec 64) {w : Nat} (hw : w ≤ 64) :
    (x &&& BitVec.ofNat 64 (2 ^ w - 1)).setWidth w = x.setWidth w := by
  have hpos := Nat.two_pow_pos w
  have hpow : 2 ^ w ≤ 2 ^ 64 := Nat.pow_le_pow_right (by omega) hw
  apply BitVec.eq_of_toNat_eq
  rw [BitVec.toNat_setWidth, BitVec.toNat_and, BitVec.toNat_ofNat, BitVec.toNat_setWidth,
    Nat.mod_eq_of_lt (show 2 ^ w - 1 < 2 ^ 64 by omega), Nat.and_two_pow_sub_one_eq_mod,
    Nat.mod_mod]

/-- A byte of a part of an address is a byte of the address. -/
theorem extractLsb'_setWidth_shift (x : BitVec 64) {k w s : Nat} (h : s + 8 ≤ w) :
    ((x >>> k).setWidth w).extractLsb' s 8 = x.extractLsb' (k + s) 8 := by
  ext i hi
  simp [show s + i < w by omega, Nat.add_assoc]

/-- The parts of an address, put together again, are the address: eight bytes, from the three fields
of the entry that it is stored in. -/
theorem offset_parts (base : BitVec 64) :
    ((((base >>> 32) &&& 0xFFFFFFFF).setWidth 32).extractLsb' 24 8 ++
      (((base >>> 32) &&& 0xFFFFFFFF).setWidth 32).extractLsb' 16 8 ++
      (((base >>> 32) &&& 0xFFFFFFFF).setWidth 32).extractLsb' 8 8 ++
      (((base >>> 32) &&& 0xFFFFFFFF).setWidth 32).extractLsb' 0 8 ++
      (((base >>> 16) &&& 0xFFFF).setWidth 16).extractLsb' 8 8 ++
      (((base >>> 16) &&& 0xFFFF).setWidth 16).extractLsb' 0 8 ++
      ((base &&& 0xFFFF).setWidth 16).extractLsb' 8 8 ++
      ((base &&& 0xFFFF).setWidth 16).extractLsb' 0 8 : BitVec 64) = base := by
  have hhigh : ((base >>> 32) &&& 0xFFFFFFFF).setWidth 32 = (base >>> 32).setWidth 32 :=
    setWidth_and_mask _ (by omega)
  have hmid : ((base >>> 16) &&& 0xFFFF).setWidth 16 = (base >>> 16).setWidth 16 :=
    setWidth_and_mask _ (by omega)
  have hlow : (base &&& 0xFFFF).setWidth 16 = (base >>> 0).setWidth 16 :=
    setWidth_and_mask _ (by omega)
  rw [hhigh, hmid, hlow]
  simp (disch := omega) only [extractLsb'_setWidth_shift]
  simp only [BitVec.extractLsb'_append_extractLsb'_eq_extractLsb']
  simp

/-- Two bytes make up a word again. -/
theorem word_parts (x : BitVec 16) : (x.extractLsb' 8 8 ++ x.extractLsb' 0 8 : BitVec 16) = x := by
  simp only [BitVec.extractLsb'_append_extractLsb'_eq_extractLsb']
  simp

/-- What the processor reads of one entry: its sixteen bytes, taken apart as the manual has them, if
the entry is present. -/
theorem fetchGate_byte (idt : Idt) (v : BitVec 8) (base : BitVec 64) :
    fetchGate (idtPtr base).limit idt.byte v =
      if (idt v).attributes.getLsbD 7 = true then
        some
          { offset := (idt v).isrHigh.extractLsb' 24 8 ++ (idt v).isrHigh.extractLsb' 16 8 ++
              (idt v).isrHigh.extractLsb' 8 8 ++ (idt v).isrHigh.extractLsb' 0 8 ++
              (idt v).isrMid.extractLsb' 8 8 ++ (idt v).isrMid.extractLsb' 0 8 ++
              (idt v).isrLow.extractLsb' 8 8 ++ (idt v).isrLow.extractLsb' 0 8
            selector := (idt v).kernelCs
            ist := (idt v).ist.extractLsb' 0 3
            type := (idt v).attributes.extractLsb' 0 4 }
      else none := by
  have hlimit : 16 * v.toNat + 15 ≤ (idtPtr base).limit.toNat := by
    have hv := v.isLt
    change 16 * v.toNat + 15 ≤ 4095
    omega
  simp only [fetchGate, byte_table idt v (show 0 < 16 by omega),
    byte_table idt v (show 1 < 16 by omega), byte_table idt v (show 2 < 16 by omega),
    byte_table idt v (show 3 < 16 by omega), byte_table idt v (show 4 < 16 by omega),
    byte_table idt v (show 5 < 16 by omega), byte_table idt v (show 6 < 16 by omega),
    byte_table idt v (show 7 < 16 by omega), byte_table idt v (show 8 < 16 by omega),
    byte_table idt v (show 9 < 16 by omega), byte_table idt v (show 10 < 16 by omega),
    byte_table idt v (show 11 < 16 by omega), hlimit, true_and, IdtEntry.byte, word_parts]

/-- A present gate is read as it was set, and setting it changes no other gate. -/
theorem fetchGate_idtSetGate (idt : Idt) (num : BitVec 8) (base : BitVec 64) (sel : BitVec 16)
    (flags v : BitVec 8) (table : BitVec 64) :
    fetchGate (idtPtr table).limit (idtSetGate idt num base sel flags).byte v =
      if v = num then
        if flags.getLsbD 7 = true then some ⟨base, sel, 0, flags.extractLsb' 0 4⟩ else none
      else fetchGate (idtPtr table).limit idt.byte v := by
  rw [fetchGate_byte, fetchGate_byte]
  by_cases hv : v = num
  · subst hv
    simp only [idtSetGate, Function.update_self, offset_parts, if_true]
    rfl
  · simp only [idtSetGate, Function.update_of_ne hv, if_neg hv]

/-- No gate is present in a cleared table, whatever was in it: the loop clears every entry. By
induction on its rounds. -/
theorem fetchGate_idtClear (idt : Idt) (v : BitVec 8) (table : BitVec 64) :
    fetchGate (idtPtr table).limit (idtClear idt).byte v = none := by
  have hfold : ∀ n, v.toNat < n → fetchGate (idtPtr table).limit
      ((List.range n).foldl (fun idt i => idtSetGate idt (BitVec.ofNat 8 i) 0 0 0) idt).byte v =
      none := by
    intro n
    induction n with
    | zero => exact fun h => absurd h (Nat.not_lt_zero _)
    | succ n ih =>
        intro hn
        rw [List.range_succ, List.foldl_append, List.foldl_cons, List.foldl_nil,
          fetchGate_idtSetGate]
        split
        · simp
        · next hne =>
            have hlt : v.toNat ≠ n := fun he => hne (by rw [← he, BitVec.ofNat_toNat,
              BitVec.setWidth_eq])
            exact ih (by omega)
  exact hfold 256 v.isLt

/-- The gates of the table `idt_init` loads: those of the three stubs, and no others. -/
theorem fetchGate_idtTable (idt : Idt) (cs : BitVec 16) (stub : IrqHandler → BitVec 64)
    (table : BitVec 64) (v : BitVec 8) :
    fetchGate (idtPtr table).limit (idtTable idt cs stub).byte v =
      if v = 44 then some ⟨stub .irq12Handler, cs, 0, 0xE⟩
      else if v = 33 then some ⟨stub .irq1Handler, cs, 0, 0xE⟩
      else if v = 32 then some ⟨stub .irq0Handler, cs, 0, 0xE⟩
      else none := by
  have hset : ∀ idt num base, fetchGate (idtPtr table).limit
      (idtSetGate idt num base cs 0x8E).byte v =
        if v = num then some ⟨base, cs, 0, 0xE⟩ else
          fetchGate (idtPtr table).limit idt.byte v :=
    fun idt num base => fetchGate_idtSetGate idt num base cs 0x8E v table
  simp only [idtTable, hset, fetchGate_idtClear]

/-- After `idt_init` the processor finds the stubs at the numbers they push, through gates that turn
interrupts off, and no other gate. -/
theorem idt_init_gates (idt : Idt) (cs : BitVec 16) (stub : IrqHandler → BitVec 64)
    (table : BitVec 64) (v : BitVec 8) :
    (∀ k : IrqHandler, v = k.vector.setWidth 8 →
        fetchGate (idtPtr table).limit (idtTable idt cs stub).byte v =
          some ⟨stub k, cs, 0, 0xE⟩) ∧
      ((∀ k : IrqHandler, v ≠ k.vector.setWidth 8) →
        fetchGate (idtPtr table).limit (idtTable idt cs stub).byte v = none) := by
  rw [fetchGate_idtTable]
  constructor
  · rintro k rfl
    cases k with
    | irq0Handler => simp [IrqHandler.vector]
    | irq1Handler => simp [IrqHandler.vector]
    | irq12Handler => simp [IrqHandler.vector]
  · intro hne
    have h0 : v ≠ 32 := hne .irq0Handler
    have h1 : v ≠ 33 := hne .irq1Handler
    have h12 : v ≠ 44 := hne .irq12Handler
    rw [if_neg h12, if_neg h1, if_neg h0]

end

end OnkenOS
