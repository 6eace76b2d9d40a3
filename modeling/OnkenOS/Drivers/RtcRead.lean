import Mathlib.Logic.Function.Iterate
import OnkenOS.Drivers.RtcFormat

/-!
# Reading the clock while it runs

`rtc_get_datetime` reads the six registers of a clock that advances while it does, until two rounds
of reads agree. The instants of the accesses are arbitrary. Between the reads of the seconds in two
rounds that agree, fewer than sixty seconds apart, the clock has not advanced at all, so that the
registers hold the values of one instant (`rtcReadRegs_untorn`).
-/

namespace OnkenOS

/-! ## The calendar -/

/-- The year counter has two digits. -/
def DateTime.nextYear (d : DateTime) : DateTime :=
  { d with month := 1, year := if d.year < 2099 then d.year + 1 else 2000 }

def DateTime.nextMonth (d : DateTime) : DateTime :=
  if d.month < 12 then { d with day := 1, month := d.month + 1 }
  else DateTime.nextYear { d with day := 1 }

def DateTime.nextDay (d : DateTime) : DateTime :=
  if d.day < daysInMonth d.year d.month then { d with hour := 0, day := d.day + 1 }
  else DateTime.nextMonth { d with hour := 0 }

def DateTime.nextHour (d : DateTime) : DateTime :=
  if d.hour < 23 then { d with minute := 0, hour := d.hour + 1 }
  else DateTime.nextDay { d with minute := 0 }

def DateTime.nextMinute (d : DateTime) : DateTime :=
  if d.minute < 59 then { d with second := 0, minute := d.minute + 1 }
  else DateTime.nextHour { d with second := 0 }

/-- A second later. -/
def DateTime.tick (d : DateTime) : DateTime :=
  if d.second < 59 then { d with second := d.second + 1 } else d.nextMinute

section
variable {d : DateTime}

/-- A new minute begins with second zero. -/
theorem second_nextMinute (d : DateTime) : d.nextMinute.second = 0 := by
  unfold DateTime.nextMinute DateTime.nextHour DateTime.nextDay DateTime.nextMonth
    DateTime.nextYear
  split
  · rfl
  · split
    · rfl
    · split
      · rfl
      · split <;> rfl

/-- A tick takes the seconds on by one, from 59 to zero. -/
theorem second_tick (hd : d.second < 60) : d.tick.second = (d.second + 1) % 60 := by
  unfold DateTime.tick
  split
  · next hlt => exact (Nat.mod_eq_of_lt (Nat.succ_lt_succ hlt)).symm
  · rw [second_nextMinute]
    omega

/-- The seconds go round every sixty ticks, whatever is carried into the other fields. -/
theorem second_iterate_tick (hd : d.second < 60) (n : Nat) :
    (DateTime.tick^[n] d).second = (d.second + n) % 60 := by
  induction n with
  | zero => exact (Nat.mod_eq_of_lt hd).symm
  | succ n ih =>
      rw [Function.iterate_succ_apply', second_tick (by rw [ih]; omega), ih]
      omega

end

/-! ## The clock and a call -/

/-- A clock over time: it starts at a date and time and has advanced by `ticks t` seconds at the
instant `t`. A second is `second` instants long, so that less than `n` seconds hold at most `n`
ticks. -/
structure CmosClock where
  registerB : UInt8
  start : DateTime
  valid : start.Valid
  second : Nat
  ticks : Nat → Nat
  mono : ∀ s t, s ≤ t → ticks s ≤ ticks t
  rate : ∀ s t n, s ≤ t → t < s + n * second → ticks t ≤ ticks s + n

/-- What the clock shows at an instant. -/
def CmosClock.shows (c : CmosClock) (t : Nat) : DateTime := DateTime.tick^[c.ticks t] c.start

/-- What the registers hold at an instant. -/
def CmosClock.registers (c : CmosClock) (t : Nat) : RtcRegs := rtcEncode c.registerB (c.shows t)

/-- The register that a number selects. -/
def RtcRegs.select (r : RtcRegs) (reg : UInt8) : UInt8 :=
  if reg = 0x00 then r.second
  else if reg = 0x02 then r.minute
  else if reg = 0x04 then r.hour
  else if reg = 0x07 then r.day
  else if reg = 0x08 then r.month
  else if reg = 0x09 then r.year
  else if reg = 0x0B then r.registerB
  else 0

/-- What a call of `rtc_get_datetime` meets: the clock, the instant of each access to the registers,
and whether the clock says at an access that it is updating. -/
structure RtcCall where
  clock : CmosClock
  instant : Nat → Nat
  inOrder : ∀ i j, i ≤ j → instant i ≤ instant j
  updating : Nat → Bool

/-- `get_rtc_register`, as the access number `i` of the call. -/
def getRtcRegister (call : RtcCall) (i : Nat) (reg : UInt8) : UInt8 :=
  (call.clock.registers (call.instant i)).select reg

/-- `while (updating_rtc());` from the access number `i` on: the number of the access after it. -/
def waitUpdating (call : RtcCall) : Nat → Nat → Option Nat
  | 0, _ => none
  | fuel + 1, i => if call.updating i then waitUpdating call fuel (i + 1) else some (i + 1)

/-- The values of a round of reads, with the number of its first read. -/
structure RtcRound where
  first : Nat
  second : UInt8
  minute : UInt8
  hour : UInt8
  day : UInt8
  month : UInt8
  year : UInt8

/-- The six reads. -/
def readRegisters (call : RtcCall) (i : Nat) : RtcRound where
  first := i
  second := getRtcRegister call i 0x00
  minute := getRtcRegister call (i + 1) 0x02
  hour := getRtcRegister call (i + 2) 0x04
  day := getRtcRegister call (i + 3) 0x07
  month := getRtcRegister call (i + 4) 0x08
  year := getRtcRegister call (i + 5) 0x09

/-- A round: the wait and the reads. -/
def readRound (call : RtcCall) (fuel i : Nat) : Option RtcRound :=
  (waitUpdating call fuel i).map (readRegisters call)

/-- The condition to leave the loop. -/
def RtcRound.Agrees (last round : RtcRound) : Prop :=
  last.second = round.second ∧ last.minute = round.minute ∧ last.hour = round.hour ∧
    last.day = round.day ∧ last.month = round.month ∧ last.year = round.year

instance (last round : RtcRound) : Decidable (last.Agrees round) :=
  inferInstanceAs (Decidable (_ ∧ _))

/-- The read-twice loop, after a round: its last two rounds. -/
def readTwice (call : RtcCall) : Nat → RtcRound → Option (RtcRound × RtcRound)
  | 0, _ => none
  | fuel + 1, last =>
      match readRound call fuel (last.first + 6) with
      | none => none
      | some round =>
          if last.Agrees round then some (last, round) else readTwice call fuel round

/-- `rtc_get_datetime` up to the end of its loop. -/
def rtcReadRegs (call : RtcCall) (fuel : Nat) : Option (RtcRound × RtcRound) :=
  (readRound call fuel 0).bind (readTwice call fuel)

/-- The registers with the values of a round. -/
def RtcRound.regs (round : RtcRound) (registerB : UInt8) : RtcRegs where
  second := round.second
  minute := round.minute
  hour := round.hour
  day := round.day
  month := round.month
  year := round.year
  registerB := registerB

/-- `rtc_get_datetime`. -/
def rtcReadDatetime (call : RtcCall) (fuel : Nat) : Option DateTime :=
  (rtcReadRegs call fuel).map fun rounds =>
    rtcGetDatetime (rounds.2.regs (getRtcRegister call (rounds.2.first + 6) 0x0B))

/-! ## What the loop ends with -/

section
variable {call : RtcCall} {fuel i : Nat} {last round : RtcRound}

/-- The wait makes one access at least. -/
theorem lt_of_waitUpdating {j : Nat} (h : waitUpdating call fuel i = some j) : i < j := by
  induction fuel generalizing i with
  | zero => cases h
  | succ fuel ih =>
      rw [waitUpdating] at h
      split at h
      · exact Nat.lt_of_succ_lt (ih h)
      · cases h
        exact Nat.lt_succ_self i

/-- A round is six reads, behind an access of the wait. -/
theorem readRound_eq_some (h : readRound call fuel i = some round) :
    ∃ j, i < j ∧ round = readRegisters call j := by
  obtain ⟨j, hwait, rfl⟩ := Option.map_eq_some_iff.1 h
  exact ⟨j, lt_of_waitUpdating hwait, rfl⟩

/-- The last two rounds agree, and the second starts after the first. -/
theorem readTwice_eq_some {j : Nat} {rounds : RtcRound × RtcRound}
    (h : readTwice call fuel (readRegisters call j) = some rounds) :
    ∃ a b, j ≤ a ∧ a + 6 < b ∧ rounds = (readRegisters call a, readRegisters call b) ∧
      (readRegisters call a).Agrees (readRegisters call b) := by
  induction fuel generalizing j with
  | zero => cases h
  | succ fuel ih =>
      rw [readTwice] at h
      split at h
      · cases h
      · next round hround =>
          obtain ⟨b, hb, rfl⟩ := readRound_eq_some hround
          have hjb : j + 6 < b := hb
          split at h
          · next hagrees =>
              cases h
              exact ⟨j, b, Nat.le_refl j, hjb, rfl, hagrees⟩
          · obtain ⟨a, c, hba, hac, hrounds⟩ := ih h
            exact ⟨a, c, by omega, hac, hrounds⟩

/-- The loop is left after two rounds that agree; the second one begins behind the end of the first.
-/
theorem rtcReadRegs_eq_some (h : rtcReadRegs call fuel = some (last, round)) :
    ∃ a b, a + 6 < b ∧ last = readRegisters call a ∧ round = readRegisters call b ∧
      last.Agrees round := by
  obtain ⟨first, hfirst, htwice⟩ := Option.bind_eq_some_iff.1 h
  obtain ⟨j, -, rfl⟩ := readRound_eq_some hfirst
  obtain ⟨a, b, -, hab, hrounds, hagrees⟩ := readTwice_eq_some htwice
  cases hrounds
  exact ⟨a, b, hab, rfl, rfl, hagrees⟩

/-! ## One instant -/

/-- Rounds that agree give the same registers: the values that are tested are all that are used. -/
theorem RtcRound.Agrees.regs_eq (h : last.Agrees round) (registerB : UInt8) :
    last.regs registerB = round.regs registerB := by
  obtain ⟨hsecond, hminute, hhour, hday, hmonth, hyear⟩ := h
  unfold RtcRound.regs
  rw [hsecond, hminute, hhour, hday, hmonth, hyear]

/-- A round whose reads all see the same number of ticks shows its first instant. -/
theorem regs_readRegisters {a : Nat}
    (h : ∀ k ≤ 5, call.clock.ticks (call.instant (a + k)) = call.clock.ticks (call.instant a)) :
    (readRegisters call a).regs call.clock.registerB =
      call.clock.registers (call.instant a) := by
  have hshows (k : Nat) (hk : k ≤ 5) :
      call.clock.registers (call.instant (a + k)) = call.clock.registers (call.instant a) := by
    unfold CmosClock.registers CmosClock.shows
    rw [h k hk]
  unfold RtcRound.regs readRegisters getRtcRegister
  simp only [hshows 1 (by omega), hshows 2 (by omega), hshows 3 (by omega), hshows 4 (by omega),
    hshows 5 (by omega)]
  rfl

/-- Two reads of the seconds that agree, with fewer than sixty ticks between them. -/
theorem ticks_eq_of_second_eq {c : CmosClock} {s t : Nat} (hst : s ≤ t)
    (hticks : c.ticks t ≤ c.ticks s + 59)
    (heq : (c.registers s).second = (c.registers t).second) : c.ticks s = c.ticks t := by
  have hmono := c.mono s t hst
  have hstart := c.valid.second
  have hs := second_iterate_tick hstart (c.ticks s)
  have ht := second_iterate_tick hstart (c.ticks t)
  have hseconds : (DateTime.tick^[c.ticks s] c.start).second =
      (DateTime.tick^[c.ticks t] c.start).second := rtcField_inj (by omega) (by omega) heq
  omega

/-- The read is not torn: if the last two rounds of reads take less than 59 seconds together, the
values they leave are those of the registers at one instant during the call. -/
theorem rtcReadRegs_untorn (h : rtcReadRegs call fuel = some (last, round))
    (hquick : call.instant (round.first + 5) <
      call.instant last.first + 59 * call.clock.second) :
    ∃ t, call.instant 0 ≤ t ∧ t ≤ call.instant (round.first + 5) ∧
      round.regs call.clock.registerB = call.clock.registers t := by
  obtain ⟨a, b, hab, rfl, rfl, hagrees⟩ := rtcReadRegs_eq_some h
  have hlast : call.instant a ≤ call.instant (b + 5) := call.inOrder _ _ (by omega)
  have hticks : call.clock.ticks (call.instant (b + 5)) ≤
      call.clock.ticks (call.instant a) + 59 := call.clock.rate _ _ 59 hlast hquick
  have hmono (i j : Nat) (hij : i ≤ j) :
      call.clock.ticks (call.instant i) ≤ call.clock.ticks (call.instant j) :=
    call.clock.mono _ _ (call.inOrder i j hij)
  have hbend := hmono b (b + 5) (by omega)
  -- the seconds are the first register of both rounds
  have hseconds : call.clock.ticks (call.instant a) = call.clock.ticks (call.instant b) :=
    ticks_eq_of_second_eq (call.inOrder a b (by omega)) (by omega) hagrees.1
  refine ⟨call.instant a, call.inOrder 0 a (Nat.zero_le a), hlast, ?_⟩
  rw [← hagrees.regs_eq, regs_readRegisters]
  intro k hk
  have hfrom := hmono a (a + k) (by omega)
  have hto := hmono (a + k) b (by omega)
  omega

end

/-- A clock that counts a second every `second` instants, the first after `phase` of them less. -/
def CmosClock.regular (registerB : UInt8) (start : DateTime) (valid : start.Valid)
    (second phase : Nat) (hsecond : 0 < second) : CmosClock where
  registerB := registerB
  start := start
  valid := valid
  second := second
  ticks t := (t + phase) / second
  mono _ _ hst := Nat.div_le_div_right (Nat.add_le_add_right hst phase)
  rate s t n _ ht := by
    rw [← Nat.add_mul_div_right _ _ hsecond]
    exact Nat.div_le_div_right (by omega)

/-- A call in the last second before noon, with an access every hundredth of a second. -/
def callBeforeNoon : RtcCall where
  clock := .regular 0 { morning with minute := 59, second := 59 }
    { morning_valid with minute := by decide, second := by decide } 100 95 (by decide)
  instant i := i
  inOrder _ _ hij := hij
  updating _ := false

/-- In that call the clock turns to noon in the first round, and the loop is left after three. -/
theorem rtcReadRegs_callBeforeNoon :
    rtcReadRegs callBeforeNoon 3 =
      some (readRegisters callBeforeNoon 8, readRegisters callBeforeNoon 15) :=
  rfl

/-- The first round of that call is torn, and a third round is read. -/
theorem rtcReadRegs_untorn_beforeNoon :
    rtcReadRegs callBeforeNoon 3 =
        some (readRegisters callBeforeNoon 8, readRegisters callBeforeNoon 15) ∧
      ∃ t, callBeforeNoon.instant 0 ≤ t ∧ t ≤ callBeforeNoon.instant (15 + 5) ∧
        (readRegisters callBeforeNoon 15).regs 0 = callBeforeNoon.clock.registers t :=
  ⟨rtcReadRegs_callBeforeNoon, rtcReadRegs_untorn rtcReadRegs_callBeforeNoon (by decide)⟩

end OnkenOS
