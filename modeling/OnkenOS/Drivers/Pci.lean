import OnkenOS.Drivers.Hardware
import OnkenOS.Lib.Scan

/-!
# The devices on the bus

`drivers/pci.c`. The configuration space answers for a bus, a device, a function and an offset, and
does not change during a scan. `pci_enumerate_devices` runs three nested loops that all stop once
the caller's array is full; `pciEnumerateDevices_spec` says which list the array is a prefix of.
-/

namespace OnkenOS

open Scan

/-- What the configuration space holds, by bus, device, function and offset. -/
abbrev PciSpace := UInt8 → UInt8 → UInt8 → UInt8 → BitVec 32

/-- The address word of `pci_read_config`. -/
def pciAddress (bus device function offset : UInt8) : BitVec 32 :=
  1#32 <<< 31 ||| bus.toBitVec.setWidth 32 <<< 16 ||| device.toBitVec.setWidth 32 <<< 11 |||
    function.toBitVec.setWidth 32 <<< 8 ||| (offset &&& 0xFC).toBitVec.setWidth 32

/-- What the data port answers once the address port holds `address`. -/
def PciSpace.inl (space : PciSpace) (address : BitVec 32) : BitVec 32 :=
  space ⟨address.extractLsb' 16 8⟩ ⟨(address.extractLsb' 11 5).setWidth 8⟩
    ⟨(address.extractLsb' 8 3).setWidth 8⟩ ⟨address.extractLsb' 0 8 &&& 0xFC⟩

/-- `pci_read_config`. -/
def pciReadConfig (space : PciSpace) (bus device function offset : UInt8) : BitVec 32 :=
  space.inl (pciAddress bus device function offset)

/-- `pci_device_exists`. -/
def pciDeviceExists (space : PciSpace) (bus device function : UInt8) : Bool :=
  pciReadConfig space bus device function 0x00 &&& 0xFFFF != 0xFFFF

/-- `pci_get_vendor_id`. -/
def pciGetVendorId (space : PciSpace) (bus device function : UInt8) : UInt16 :=
  ⟨(pciReadConfig space bus device function 0x00 &&& 0xFFFF).setWidth 16⟩

/-- `pci_get_device_id`. -/
def pciGetDeviceId (space : PciSpace) (bus device function : UInt8) : UInt16 :=
  ⟨((pciReadConfig space bus device function 0x00 >>> 16) &&& 0xFFFF).setWidth 16⟩

/-- `pci_get_class_code`. -/
def pciGetClassCode (space : PciSpace) (bus device function : UInt8) : UInt8 :=
  ⟨((pciReadConfig space bus device function 0x08 >>> 24) &&& 0xFF).setWidth 8⟩

/-- `pci_get_subclass`. -/
def pciGetSubclass (space : PciSpace) (bus device function : UInt8) : UInt8 :=
  ⟨((pciReadConfig space bus device function 0x08 >>> 16) &&& 0xFF).setWidth 8⟩

/-- `pci_get_prog_if`. -/
def pciGetProgIf (space : PciSpace) (bus device function : UInt8) : UInt8 :=
  ⟨((pciReadConfig space bus device function 0x08 >>> 8) &&& 0xFF).setWidth 8⟩

/-- `pci_device_t`. -/
structure PciFunction extends PciDevice where
  progIf : UInt8

/-- The entry that `pci_enumerate_devices` fills in. -/
def pciEntry (space : PciSpace) (bus device function : UInt8) : PciFunction where
  bus := bus
  device := device
  function := function
  vendorId := pciGetVendorId space bus device function
  deviceId := pciGetDeviceId space bus device function
  classCode := pciGetClassCode space bus device function
  subclass := pciGetSubclass space bus device function
  progIf := pciGetProgIf space bus device function

/-- `num_functions`. -/
def numFunctions (space : PciSpace) (bus device : UInt8) : Nat :=
  let headerType : UInt8 := ⟨((pciReadConfig space bus device 0 0x0C >>> 16) &&& 0xFF).setWidth 8⟩
  if headerType &&& 0x80 ≠ 0 then 8 else 1

/-- The body of the innermost loop. -/
def pciScanFunction (space : PciSpace) (bus device function : UInt8)
    (devices : List PciFunction) : List PciFunction :=
  if pciDeviceExists space bus device function then
    devices ++ [pciEntry space bus device function]
  else devices

/-- The body of the loop over the devices of a bus. -/
def pciScanDevice (space : PciSpace) (maxDevices : Nat) (bus device : UInt8)
    (devices : List PciFunction) : List PciFunction :=
  if pciDeviceExists space bus device 0 then
    scan maxDevices (fun fn => pciScanFunction space bus device fn.toUInt8)
      (List.range (numFunctions space bus device)) devices
  else devices

/-- The body of the loop over the buses. -/
def pciScanBus (space : PciSpace) (maxDevices : Nat) (bus : UInt8) (devices : List PciFunction) :
    List PciFunction :=
  scan maxDevices (fun dev => pciScanDevice space maxDevices bus dev.toUInt8) (List.range 32)
    devices

/-- `pci_enumerate_devices`: the entries it fills in, as many as it returns. -/
def pciEnumerateDevices (space : PciSpace) (maxDevices : Nat) : List PciFunction :=
  scan maxDevices (fun bus => pciScanBus space maxDevices bus.toUInt8) (List.range 256) []

/-! ## Reading the configuration space -/

/-- The fields of the address do not overlap, as the device is below 32 and the function below 8:
the shifted fields are a sum. -/
theorem toNat_pciAddress {device function : UInt8} (bus offset : UInt8) (hdevice : device < 32)
    (hfunction : function < 8) :
    (pciAddress bus device function offset).toNat =
      2 ^ 31 + bus.toNat * 2 ^ 16 + device.toNat * 2 ^ 11 + function.toNat * 2 ^ 8 +
        (offset &&& 0xFC).toNat := by
  have hdev : device.toNat < 32 := hdevice
  have hfn : function.toNat < 8 := hfunction
  have hbus := bus.toNat_lt
  have hoff := (offset &&& 0xFC).toNat_lt
  have hor (k a b : Nat) (hb : b < 2 ^ k) : 2 ^ k * a ||| b = 2 ^ k * a + b :=
    (Nat.two_pow_add_eq_or_of_lt hb a).symm
  have hshift (x : UInt8) (k : Nat) (hk : k ≤ 16) :
      (x.toBitVec.setWidth 32 <<< k).toNat = x.toNat * 2 ^ k := by
    have hx := x.toNat_lt
    have hpow : 2 ^ k ≤ 2 ^ 16 := Nat.pow_le_pow_right (by omega) hk
    have hmul : x.toNat * 2 ^ k ≤ 255 * 2 ^ 16 := Nat.mul_le_mul (by omega) hpow
    have hword : (x.toBitVec.setWidth 32).toNat = x.toNat := by
      rw [BitVec.toNat_setWidth, UInt8.toNat_toBitVec, Nat.mod_eq_of_lt (by omega)]
    rw [BitVec.toNat_shiftLeft, hword, Nat.shiftLeft_eq, Nat.mod_eq_of_lt (by omega)]
  have hlow : ((offset &&& 0xFC).toBitVec.setWidth 32).toNat = (offset &&& 0xFC).toNat := by
    rw [BitVec.toNat_setWidth, UInt8.toNat_toBitVec, Nat.mod_eq_of_lt (by omega)]
  unfold pciAddress
  simp only [BitVec.toNat_or, hshift _ 16 (by omega), hshift _ 11 (by omega),
    hshift _ 8 (by omega), hlow]
  calc 2 ^ 31 ||| bus.toNat * 2 ^ 16 ||| device.toNat * 2 ^ 11 ||| function.toNat * 2 ^ 8 |||
        (offset &&& 0xFC).toNat
    _ = 2 ^ 16 * (2 ^ 15 + bus.toNat) ||| device.toNat * 2 ^ 11 ||| function.toNat * 2 ^ 8 |||
        (offset &&& 0xFC).toNat := by
      rw [show 2 ^ 31 = 2 ^ 31 * 1 from rfl, hor 31 1 _ (by omega)]
      congr 3
      omega
    _ = 2 ^ 11 * (2 ^ 5 * (2 ^ 15 + bus.toNat) + device.toNat) ||| function.toNat * 2 ^ 8 |||
        (offset &&& 0xFC).toNat := by
      rw [hor 16 _ _ (by omega)]
      congr 2
      omega
    _ = 2 ^ 8 * (2 ^ 3 * (2 ^ 5 * (2 ^ 15 + bus.toNat) + device.toNat) + function.toNat) |||
        (offset &&& 0xFC).toNat := by
      rw [hor 11 _ _ (by omega)]
      congr 1
      omega
    _ = _ := by
      rw [hor 8 _ _ hoff]
      omega

/-- The host bridge finds the fields of the address in it, so `pci_read_config` reads the register
that it is asked for. -/
theorem pciReadConfig_eq {device function : UInt8} (space : PciSpace) (bus offset : UInt8)
    (hdevice : device < 32) (hfunction : function < 8) :
    pciReadConfig space bus device function offset =
      space bus device function (offset &&& 0xFC) := by
  have haddress := toNat_pciAddress bus offset hdevice hfunction
  have hdev : device.toNat < 32 := hdevice
  have hfn : function.toNat < 8 := hfunction
  have hbus := bus.toNat_lt
  have hoff := (offset &&& 0xFC).toNat_lt
  have hfield (start len : Nat) :
      ((pciAddress bus device function offset).extractLsb' start len).toNat =
        (pciAddress bus device function offset).toNat / 2 ^ start % 2 ^ len := by
    rw [BitVec.extractLsb'_toNat, Nat.shiftRight_eq_div_pow]
  unfold pciReadConfig PciSpace.inl
  congr 1
  · refine UInt8.toNat_inj.1 ((hfield 16 8).trans ?_)
    rw [haddress]
    omega
  · refine UInt8.toNat_inj.1 ((BitVec.toNat_setWidth 8 _).trans ?_)
    rw [hfield, haddress]
    omega
  · refine UInt8.toNat_inj.1 ((BitVec.toNat_setWidth 8 _).trans ?_)
    rw [hfield, haddress]
    omega
  · have hmask : ∀ v : UInt8, v &&& 0xFC = ⟨v.toBitVec &&& 0xFC⟩ := fun _ => rfl
    have hlow : (pciAddress bus device function offset).extractLsb' 0 8 =
        (offset &&& 0xFC).toBitVec := by
      refine BitVec.eq_of_toNat_eq ((hfield 0 8).trans ?_)
      rw [haddress, UInt8.toNat_toBitVec]
      omega
    rw [hlow, ← hmask, UInt8.and_assoc]
    rfl

/-- A field of a word, cut out with a shift and a mask. -/
theorem shift_mask_byte (config : BitVec 32) (k : Nat) :
    ((config >>> k) &&& 0xFF).setWidth 8 = config.extractLsb' k 8 := by
  refine BitVec.eq_of_toNat_eq ?_
  rw [BitVec.toNat_setWidth, BitVec.toNat_and, BitVec.toNat_ushiftRight,
    BitVec.extractLsb'_toNat]
  exact (congrArg (· % 256) (Nat.and_two_pow_sub_one_eq_mod _ 8)).trans (Nat.mod_mod _ _)

/-- Two bytes of a word, cut out with a shift and a mask. -/
theorem shift_mask_half (config : BitVec 32) (k : Nat) :
    ((config >>> k) &&& 0xFFFF).setWidth 16 = config.extractLsb' k 16 := by
  refine BitVec.eq_of_toNat_eq ?_
  rw [BitVec.toNat_setWidth, BitVec.toNat_and, BitVec.toNat_ushiftRight,
    BitVec.extractLsb'_toNat]
  exact (congrArg (· % 65536) (Nat.and_two_pow_sub_one_eq_mod _ 16)).trans (Nat.mod_mod _ _)

/-- Masking with `0xFFFF` takes the lower half of a configuration word. -/
theorem mask_half (config : BitVec 32) :
    (config &&& 0xFFFF).setWidth 16 = config.extractLsb' 0 16 := by
  rw [← shift_mask_half, BitVec.ushiftRight_zero]

/-! ## What a scan reports -/

/-- The function answers. -/
def PciSpace.Present (space : PciSpace) (bus device function : UInt8) : Prop :=
  (space bus device function 0x00).extractLsb' 0 16 ≠ 0xFFFF

instance (space : PciSpace) (bus device function : UInt8) :
    Decidable (space.Present bus device function) :=
  inferInstanceAs (Decidable (_ ≠ _))

/-- The function is there, its device answers at function 0, and it is that function or the header
type of the device has bit 7. -/
structure PciSpace.Scanned (space : PciSpace) (bus device function : UInt8) : Prop where
  device_lt : device < 32
  function_lt : function < 8
  first : space.Present bus device 0
  multi : function = 0 ∨ ((space bus device 0 0x0C).extractLsb' 16 8).getLsbD 7
  present : space.Present bus device function

/-- The ids and the class of the entry are those in the configuration space. -/
structure PciSpace.Describes (space : PciSpace) (e : PciFunction) : Prop where
  vendorId : e.vendorId.toBitVec = (space e.bus e.device e.function 0x00).extractLsb' 0 16
  deviceId : e.deviceId.toBitVec = (space e.bus e.device e.function 0x00).extractLsb' 16 16
  classCode : e.classCode.toBitVec = (space e.bus e.device e.function 0x08).extractLsb' 24 8
  subclass : e.subclass.toBitVec = (space e.bus e.device e.function 0x08).extractLsb' 16 8
  progIf : e.progIf.toBitVec = (space e.bus e.device e.function 0x08).extractLsb' 8 8

/-- The order of the scan. -/
def PciFunction.Before (e e' : PciFunction) : Prop :=
  e.bus < e'.bus ∨
    e.bus = e'.bus ∧ (e.device < e'.device ∨ e.device = e'.device ∧ e.function < e'.function)

section
variable {space : PciSpace} {bus device function : UInt8}

/-- A function is there if its vendor id is not `0xFFFF`, which is what a bus answers for a function
that is not. -/
theorem pciDeviceExists_iff (hdevice : device < 32) (hfunction : function < 8) :
    pciDeviceExists space bus device function = true ↔ space.Present bus device function := by
  have hones : ∀ c : BitVec 32, c &&& 0xFFFF = 0xFFFF ↔ c.extractLsb' 0 16 = 0xFFFF := by
    intro c
    rw [← mask_half]
    refine ⟨fun h => by rw [h]; rfl, fun h => ?_⟩
    have hle : (c &&& 0xFFFF).toNat ≤ 0xFFFF := by
      rw [BitVec.toNat_and]
      exact Nat.and_le_right
    have hlow := congrArg BitVec.toNat h
    rw [BitVec.toNat_setWidth, Nat.mod_eq_of_lt (by omega)] at hlow
    exact BitVec.eq_of_toNat_eq hlow
  unfold pciDeviceExists PciSpace.Present
  rw [pciReadConfig_eq space bus 0 hdevice hfunction, bne_iff_ne, ne_eq, hones]
  rfl

/-- The scan looks at function 0 of every device, and at the others where bit 7 of the header type
says that there may be some. -/
theorem lt_numFunctions_iff (hdevice : device < 32) (hfunction : function < 8) :
    function.toNat < numFunctions space bus device ↔
      function = 0 ∨ ((space bus device 0 0x0C).extractLsb' 16 8).getLsbD 7 := by
  have hfn : function.toNat < 8 := hfunction
  have hbit : ∀ v : BitVec 8, (⟨v⟩ : UInt8) &&& 0x80 ≠ 0 ↔ v.getLsbD 7 := by decide +kernel
  have hread : pciReadConfig space bus device 0 0x0C = space bus device 0 0x0C :=
    pciReadConfig_eq space bus 0x0C hdevice (by decide)
  unfold numFunctions
  simp only [hread, shift_mask_byte, hbit]
  split
  · next hmulti => exact iff_of_true hfn (.inr hmulti)
  · next hsingle =>
      rw [or_iff_left hsingle, ← UInt8.toNat_inj]
      exact Nat.lt_one_iff

/-- There are at most eight functions. -/
theorem numFunctions_le (space : PciSpace) (bus device : UInt8) :
    numFunctions space bus device ≤ 8 := by
  unfold numFunctions
  dsimp only
  split <;> omega

/-- The entry that is filled in has the ids and the class that the configuration space holds. -/
theorem pciEntry_describes (hdevice : device < 32) (hfunction : function < 8) :
    space.Describes (pciEntry space bus device function) := by
  have hids : pciReadConfig space bus device function 0x00 = space bus device function 0x00 :=
    pciReadConfig_eq space bus 0x00 hdevice hfunction
  have hclass : pciReadConfig space bus device function 0x08 = space bus device function 0x08 :=
    pciReadConfig_eq space bus 0x08 hdevice hfunction
  exact {
    vendorId := (mask_half _).trans (congrArg (BitVec.extractLsb' 0 16) hids)
    deviceId := (shift_mask_half _ 16).trans (congrArg (BitVec.extractLsb' 16 16) hids)
    classCode := (shift_mask_byte _ 24).trans (congrArg (BitVec.extractLsb' 24 8) hclass)
    subclass := (shift_mask_byte _ 16).trans (congrArg (BitVec.extractLsb' 16 8) hclass)
    progIf := (shift_mask_byte _ 8).trans (congrArg (BitVec.extractLsb' 8 8) hclass) }

end

/-- An entry with the ids and the class of its function is the one the scan fills in. -/
theorem PciSpace.Describes.eq_pciEntry {space : PciSpace} {e : PciFunction}
    (h : space.Describes e) (hdevice : e.device < 32) (hfunction : e.function < 8) :
    e = pciEntry space e.bus e.device e.function := by
  obtain ⟨⟨vendorId, deviceId, bus, device, function, classCode, subclass⟩, progIf⟩ := e
  obtain ⟨hvendor, hdeviceId, hclass, hsubclass, hprogIf⟩ := h
  have hentry : space.Describes (pciEntry space bus device function) :=
    pciEntry_describes hdevice hfunction
  obtain ⟨hvendor', hdeviceId', hclass', hsubclass', hprogIf'⟩ := hentry
  unfold pciEntry
  rw [PciFunction.mk.injEq, PciDevice.mk.injEq]
  exact ⟨⟨UInt16.toBitVec_inj.1 (hvendor.trans hvendor'.symm),
    UInt16.toBitVec_inj.1 (hdeviceId.trans hdeviceId'.symm), rfl, rfl, rfl,
    UInt8.toBitVec_inj.1 (hclass.trans hclass'.symm),
    UInt8.toBitVec_inj.1 (hsubclass.trans hsubclass'.symm)⟩,
    UInt8.toBitVec_inj.1 (hprogIf.trans hprogIf'.symm)⟩

/-- The entries of the functions of a device. -/
def PciSpace.deviceFunctions (space : PciSpace) (bus device : UInt8) : List PciFunction :=
  if pciDeviceExists space bus device 0 then
    (List.range (numFunctions space bus device)).flatMap fun fn =>
      if pciDeviceExists space bus device fn.toUInt8 then [pciEntry space bus device fn.toUInt8]
      else []
  else []

/-- The entries of the functions of all devices. -/
def PciSpace.functions (space : PciSpace) : List PciFunction :=
  (List.range 256).flatMap fun bus =>
    (List.range 32).flatMap fun dev => space.deviceFunctions bus.toUInt8 dev.toUInt8

/-- The entries of a device are those of its functions that are there and looked at. -/
theorem mem_deviceFunctions_iff {space : PciSpace} {device : UInt8} (bus : UInt8)
    (hdevice : device < 32) (e : PciFunction) :
    e ∈ space.deviceFunctions bus device ↔
      e = pciEntry space bus device e.function ∧ space.Scanned bus device e.function := by
  have hzero : (0 : UInt8) < 8 := by decide
  unfold PciSpace.deviceFunctions
  constructor
  · intro he
    split at he
    · next hfirst =>
        obtain ⟨fn, hfn, he⟩ := List.mem_flatMap.1 he
        have hnum := List.mem_range.1 hfn
        have hlt : fn < 8 := Nat.lt_of_lt_of_le hnum (numFunctions_le space bus device)
        have htoNat : fn.toUInt8.toNat = fn :=
          UInt8.toNat_ofNat_of_lt' (Nat.lt_trans hlt (by decide))
        have hfunction : fn.toUInt8 < 8 := by
          rw [UInt8.lt_iff_toNat_lt, htoNat]
          exact hlt
        split at he
        · next hpresent =>
            cases List.mem_singleton.1 he
            refine ⟨rfl, hdevice, hfunction, (pciDeviceExists_iff hdevice hzero).1 hfirst, ?_,
              (pciDeviceExists_iff hdevice hfunction).1 hpresent⟩
            exact (lt_numFunctions_iff hdevice hfunction).1 (by rwa [htoNat])
        · exact absurd he List.not_mem_nil
    · exact absurd he List.not_mem_nil
  · rintro ⟨he, -, hfunction, hfirst, hmulti, hpresent⟩
    rw [if_pos ((pciDeviceExists_iff hdevice hzero).2 hfirst)]
    refine List.mem_flatMap.2 ⟨e.function.toNat,
      List.mem_range.2 ((lt_numFunctions_iff hdevice hfunction).2 hmulti), ?_⟩
    have hback : e.function.toNat.toUInt8 = e.function := UInt8.ofNat_toNat
    rw [hback, if_pos ((pciDeviceExists_iff hdevice hfunction).2 hpresent), ← he]
    exact List.mem_singleton_self e

/-- Counters below 256 keep their order as bytes. -/
theorem toUInt8_lt_toUInt8 {i j n : Nat} (hn : n ≤ 256) (hij : i < j) (hj : j < n) :
    i.toUInt8 < j.toUInt8 := by
  have hsize : UInt8.size = 256 := rfl
  rw [UInt8.lt_iff_toNat_lt]
  change (UInt8.ofNat i).toNat < (UInt8.ofNat j).toNat
  rw [UInt8.toNat_ofNat_of_lt' (by omega), UInt8.toNat_ofNat_of_lt' (by omega)]
  exact hij

/-- Lists put one after the other in the order of their indices. -/
theorem pairwise_flatMap_range {n : Nat} {R : PciFunction → PciFunction → Prop}
    {f : Nat → List PciFunction} (hf : ∀ i < n, (f i).Pairwise R)
    (hlt : ∀ i j, i < j → j < n → ∀ e ∈ f i, ∀ e' ∈ f j, R e e') :
    ((List.range n).flatMap f).Pairwise R := by
  rw [List.pairwise_flatMap]
  refine ⟨fun i hi => hf i (List.mem_range.1 hi), ?_⟩
  exact List.pairwise_lt_range.imp_of_mem fun _ hj hij => hlt _ _ hij (List.mem_range.1 hj)

/-- The entries of a device have its bus and its number. -/
theorem bus_eq_of_mem {space : PciSpace} {bus device : UInt8} {e : PciFunction}
    (he : e ∈ space.deviceFunctions bus device) : e.bus = bus ∧ e.device = device := by
  unfold PciSpace.deviceFunctions at he
  split at he
  · obtain ⟨fn, -, he⟩ := List.mem_flatMap.1 he
    split at he
    · cases List.mem_singleton.1 he
      exact ⟨rfl, rfl⟩
    · exact absurd he List.not_mem_nil
  · exact absurd he List.not_mem_nil

/-- The functions of one device are ordered by their number. -/
theorem pciEntry_before (space : PciSpace) (bus device : UInt8) {function function' : UInt8}
    (h : function < function') :
    (pciEntry space bus device function).Before (pciEntry space bus device function') := by
  have hplace (fn : UInt8) : (pciEntry space bus device fn).bus = bus ∧
      (pciEntry space bus device fn).device = device := ⟨rfl, rfl⟩
  rw [PciFunction.Before, (hplace function).1, (hplace function').1, (hplace function).2,
    (hplace function').2]
  exact .inr ⟨rfl, .inr ⟨rfl, h⟩⟩

/-- The entries of one device stand in the order of their functions. -/
theorem pairwise_deviceFunctions (space : PciSpace) (bus device : UInt8) :
    (space.deviceFunctions bus device).Pairwise PciFunction.Before := by
  unfold PciSpace.deviceFunctions
  split
  · refine pairwise_flatMap_range (fun fn _ => ?_) fun i j hij hj e he e' he' => ?_
    · split
      · exact List.pairwise_singleton _ _
      · exact List.Pairwise.nil
    · have hnum := numFunctions_le space bus device
      split at he
      · split at he'
        · cases List.mem_singleton.1 he
          cases List.mem_singleton.1 he'
          have hle : numFunctions space bus device ≤ 256 := Nat.le_trans hnum (by omega)
          exact pciEntry_before space bus device (toUInt8_lt_toUInt8 hle hij hj)
        · exact absurd he' List.not_mem_nil
      · exact absurd he List.not_mem_nil
  · exact List.Pairwise.nil

/-- All entries stand in the order of bus, device and function, so none of them is there twice. -/
theorem pairwise_functions (space : PciSpace) : space.functions.Pairwise PciFunction.Before := by
  refine pairwise_flatMap_range (fun bus _ => ?_) fun i j hij hj e he e' he' => ?_
  · refine pairwise_flatMap_range (fun dev _ => pairwise_deviceFunctions space _ _)
      fun i j hij hj e he e' he' => ?_
    obtain ⟨hbus, hdev⟩ := bus_eq_of_mem he
    obtain ⟨hbus', hdev'⟩ := bus_eq_of_mem he'
    rw [PciFunction.Before, hbus, hbus', hdev, hdev']
    exact .inr ⟨rfl, .inl (toUInt8_lt_toUInt8 (by omega) hij hj)⟩
  · obtain ⟨dev, -, hdev⟩ := List.mem_flatMap.1 he
    obtain ⟨dev', -, hdev'⟩ := List.mem_flatMap.1 he'
    rw [PciFunction.Before, (bus_eq_of_mem hdev).1, (bus_eq_of_mem hdev').1]
    exact .inl (toUInt8_lt_toUInt8 (by omega) hij hj)

/-- The list of all functions: what is in it, and with which ids and class. -/
theorem mem_functions_iff (space : PciSpace) (e : PciFunction) :
    e ∈ space.functions ↔ space.Scanned e.bus e.device e.function ∧ space.Describes e := by
  unfold PciSpace.functions
  constructor
  · intro he
    obtain ⟨bus, -, he⟩ := List.mem_flatMap.1 he
    obtain ⟨dev, hdev, he⟩ := List.mem_flatMap.1 he
    have hdevice : dev.toUInt8 < 32 :=
      toUInt8_lt_toUInt8 (j := 32) (n := 33) (by decide) (List.mem_range.1 hdev) (by decide)
    obtain ⟨hbus, hdev⟩ := bus_eq_of_mem he
    obtain ⟨hentry, hscanned⟩ := (mem_deviceFunctions_iff _ hdevice e).1 he
    rw [hbus, hdev]
    refine ⟨hscanned, ?_⟩
    rw [hentry]
    exact pciEntry_describes hdevice hscanned.function_lt
  · rintro ⟨hscanned, hdescribes⟩
    have hbus : e.bus.toNat.toUInt8 = e.bus := UInt8.ofNat_toNat
    have hdev : e.device.toNat.toUInt8 = e.device := UInt8.ofNat_toNat
    refine List.mem_flatMap.2 ⟨e.bus.toNat, List.mem_range.2 e.bus.toNat_lt, ?_⟩
    refine List.mem_flatMap.2 ⟨e.device.toNat, List.mem_range.2 hscanned.device_lt, ?_⟩
    rw [hbus, hdev, mem_deviceFunctions_iff e.bus hscanned.device_lt]
    exact ⟨hdescribes.eq_pciEntry hscanned.device_lt hscanned.function_lt, hscanned⟩

/-- The body of the innermost loop appends the entry if the function is there. The array never holds
more than its room. -/
theorem pciScanFunction_eq {space : PciSpace} {room : Nat} {found : List PciFunction}
    (bus device function : UInt8) (hroom : found.length < room) :
    pciScanFunction space bus device function found =
      (found ++ if pciDeviceExists space bus device function then
        [pciEntry space bus device function] else []).take room := by
  unfold pciScanFunction
  split
  · rw [List.take_of_length_le]
    rw [List.length_append, List.length_singleton]
    exact hroom
  · rw [List.append_nil, List.take_of_length_le (by omega)]

/-- The loop over the functions of a device collects its entries, up to the room. -/
theorem pciScanDevice_collects (space : PciSpace) (room : Nat) (bus device : UInt8) :
    Collects room (pciScanDevice space room bus device) (space.deviceFunctions bus device) := by
  unfold pciScanDevice PciSpace.deviceFunctions
  split
  · exact scan_collects fun fn _ _ hroom => pciScanFunction_eq bus device fn.toUInt8 hroom
  · exact collects_nil room

/-- The loop over the devices of a bus collects their entries, one device after the other. -/
theorem pciScanBus_collects (space : PciSpace) (room : Nat) (bus : UInt8) :
    Collects room (pciScanBus space room bus)
      ((List.range 32).flatMap fun dev => space.deviceFunctions bus dev.toUInt8) :=
  scan_collects fun dev _ found hroom =>
    pciScanDevice_collects space room bus dev.toUInt8 found (Nat.le_of_lt hroom)

/-- The array holds the first entries of the list of all functions. -/
theorem pciEnumerateDevices_eq_take (space : PciSpace) (maxDevices : Nat) :
    pciEnumerateDevices space maxDevices = space.functions.take maxDevices :=
  (scan_collects fun bus _ found hroom =>
    pciScanBus_collects space maxDevices bus.toUInt8 found (Nat.le_of_lt hroom)).eq_take

/-- The scan is complete and in order: the array holds the first entries of one list, and this list
has exactly the functions that the scan is to report, each once, in increasing order of bus,
device and function, with the ids and the class of the configuration space. -/
theorem pciEnumerateDevices_spec (space : PciSpace) (maxDevices : Nat) :
    ∃ all : List PciFunction,
      (∀ e, e ∈ all ↔ space.Scanned e.bus e.device e.function ∧ space.Describes e) ∧
      all.Pairwise PciFunction.Before ∧ all.Nodup ∧
      pciEnumerateDevices space maxDevices = all.take maxDevices ∧
      (pciEnumerateDevices space maxDevices).length = min maxDevices all.length := by
  refine ⟨space.functions, mem_functions_iff space, pairwise_functions space, ?_,
    pciEnumerateDevices_eq_take space maxDevices, ?_⟩
  · refine (pairwise_functions space).imp fun {e e'} hbefore heq => ?_
    subst heq
    unfold PciFunction.Before at hbefore
    simp only [UInt8.lt_irrefl, true_and, or_self] at hbefore
  · rw [pciEnumerateDevices_eq_take, List.length_take]

end OnkenOS
