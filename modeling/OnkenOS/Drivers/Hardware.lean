import OnkenOS.Kernel.CString

/-!
# What the drivers report

The values `drivers/rtc.c`, `drivers/cpuid.c` and `drivers/pci.c` compute from what the hardware
answers. The answers themselves (the CMOS registers, the results of the `cpuid` instruction, the
devices on the bus) are arbitrary.
-/

namespace OnkenOS

/-! ## The real-time clock -/

/-- The registers the read-twice loop of `rtc_get_datetime` ends with, and register B. -/
structure RtcRegs where
  second : UInt8
  minute : UInt8
  hour : UInt8
  day : UInt8
  month : UInt8
  year : UInt8
  registerB : UInt8

/-- The results of `rtc_get_datetime`. -/
structure DateTime where
  year : Nat
  month : Nat
  day : Nat
  hour : Nat
  minute : Nat
  second : Nat

/-- `(v & 0x0F) + ((v / 16) * 10)`. -/
def bcd (v : Nat) : Nat := (v &&& 0x0F) + v / 16 * 10

/-- The conversion of `rtc_get_datetime` to binary. -/
def rtcBinary (r : RtcRegs) : DateTime :=
  let hour := r.hour.toNat
  if r.registerB &&& 0x04 = 0 then
    { second := bcd r.second.toNat
      minute := bcd r.minute.toNat
      hour := ((hour &&& 0x0F) + (hour &&& 0x70) / 16 * 10) ||| (hour &&& 0x80)
      day := bcd r.day.toNat
      month := bcd r.month.toNat
      year := bcd r.year.toNat }
  else
    { second := r.second.toNat
      minute := r.minute.toNat
      hour := hour
      day := r.day.toNat
      month := r.month.toNat
      year := r.year.toNat }

/-- `rtc_get_datetime`, after its registers are read. -/
def rtcGetDatetime (r : RtcRegs) : DateTime :=
  let d := rtcBinary r
  let hour :=
    if r.registerB &&& 0x02 = 0 ∧ d.hour &&& 0x80 ≠ 0 then ((d.hour &&& 0x7F) + 12) % 24
    else d.hour
  { d with hour := hour, year := d.year + 2000 }

/-- The BCD reading of a byte is a byte: at most fifteen tens and fifteen. -/
theorem bcd_lt (v : UInt8) : bcd v.toNat < 256 := by
  have hv := v.toNat_lt
  have hlow : v.toNat &&& 0x0F ≤ 0x0F := Nat.and_le_right
  unfold bcd
  omega

/-- Every field is a byte. -/
structure DateTime.Bytes (d : DateTime) : Prop where
  year : d.year < 256
  month : d.month < 256
  day : d.day < 256
  hour : d.hour < 256
  minute : d.minute < 256
  second : d.second < 256

/-- After the conversion from BCD every field is still a byte. -/
theorem rtcBinary_bytes (r : RtcRegs) : (rtcBinary r).Bytes := by
  have hlow : r.hour.toNat &&& 0x0F ≤ 0x0F := Nat.and_le_right
  have hten : r.hour.toNat &&& 0x70 ≤ 0x70 := Nat.and_le_right
  have hpm : r.hour.toNat &&& 0x80 ≤ 0x80 := Nat.and_le_right
  have hhour : ((r.hour.toNat &&& 0x0F) + (r.hour.toNat &&& 0x70) / 16 * 10) |||
      (r.hour.toNat &&& 0x80) < 2 ^ 8 := Nat.or_lt_two_pow (by omega) (by omega)
  unfold rtcBinary
  split
  · exact ⟨bcd_lt _, bcd_lt _, bcd_lt _, hhour, bcd_lt _, bcd_lt _⟩
  · exact ⟨r.year.toNat_lt, r.month.toNat_lt, r.day.toNat_lt, r.hour.toNat_lt,
      r.minute.toNat_lt, r.second.toNat_lt⟩

/-- The results have at most four digits: the year is 2000 and a byte, and the others are bytes. -/
theorem rtcGetDatetime_lt (r : RtcRegs) :
    let d := rtcGetDatetime r
    ∀ n ∈ [d.year, d.month, d.day, d.hour, d.minute, d.second], n < 10000 := by
  obtain ⟨hyear, hmonth, hday, hhour, hminute, hsecond⟩ := rtcBinary_bytes r
  have hhour24 : (rtcGetDatetime r).hour < 256 := by
    unfold rtcGetDatetime
    dsimp only
    split <;> omega
  intro d
  simp only [List.forall_mem_cons, List.not_mem_nil, false_imp_iff, implies_true, and_true]
  exact ⟨Nat.add_lt_add_right (Nat.lt_trans hyear (by omega)) 2000, Nat.lt_trans hmonth (by omega),
    Nat.lt_trans hday (by omega), Nat.lt_trans hhour24 (by omega),
    Nat.lt_trans hminute (by omega), Nat.lt_trans hsecond (by omega)⟩

/-! ## The processor -/

/-- The results of the `cpuid` instruction. -/
structure CpuidRegs where
  eax : BitVec 32
  ebx : BitVec 32
  ecx : BitVec 32
  edx : BitVec 32

/-- The bytes of a register in memory. -/
def regBytes (v : BitVec 32) : List UInt8 :=
  [(v.toNat % 256).toUInt8, (v.toNat / 256 % 256).toUInt8, (v.toNat / 65536 % 256).toUInt8,
    (v.toNat / 16777216).toUInt8]

/-- `cpuid_get_vendor`. -/
def cpuidGetVendor (cpuid : BitVec 32 → CpuidRegs) : List UInt8 :=
  cstr (regBytes (cpuid 0).ebx ++ regBytes (cpuid 0).edx ++ regBytes (cpuid 0).ecx)

/-- The sixteen bytes of one leaf of the brand string. -/
def brandLeaf (r : CpuidRegs) : List UInt8 :=
  regBytes r.eax ++ regBytes r.ebx ++ regBytes r.ecx ++ regBytes r.edx

/-- `cpuid_get_brand_string`. -/
def cpuidGetBrandString (cpuid : BitVec 32 → CpuidRegs) : List UInt8 :=
  if (cpuid 0x80000000).eax < 0x80000004 then cpuidGetVendor cpuid
  else
    let buf := brandLeaf (cpuid 0x80000002) ++ brandLeaf (cpuid 0x80000003) ++
      brandLeaf (cpuid 0x80000004)
    cstr (buf.dropWhile (· = 32))

/-- The brand string fits in its buffer: three leaves with sixteen bytes each. -/
theorem length_cpuidGetBrandString_le (cpuid : BitVec 32 → CpuidRegs) :
    (cpuidGetBrandString cpuid).length ≤ 48 := by
  unfold cpuidGetBrandString
  split
  · unfold cpuidGetVendor
    refine Nat.le_trans (List.takeWhile_sublist _).length_le ?_
    simp [regBytes]
  · refine Nat.le_trans (List.takeWhile_sublist _).length_le
      (Nat.le_trans (List.dropWhile_sublist _).length_le ?_)
    simp [brandLeaf, regBytes]

/-! ## Everything else -/

/-- `pci_device_t`, as far as it is printed. -/
structure PciDevice where
  vendorId : UInt16
  deviceId : UInt16
  bus : UInt8
  device : UInt8
  function : UInt8
  classCode : UInt8
  subclass : UInt8

/-- `mem_info_t`, as far as it is printed. -/
structure MemInfo where
  totalMemory : BitVec 64
  usedMemory : BitVec 64
  freeMemory : BitVec 64
  heapAllocations : BitVec 64

/-- What the drivers and the kernel report during one command. -/
structure Hardware where
  rtc : RtcRegs
  cpuid : BitVec 32 → CpuidRegs
  pciDevices : List PciDevice
  memInfo : MemInfo
  uptimeMs : BitVec 64
  fbWidth : BitVec 32
  fbHeight : BitVec 32

end OnkenOS
