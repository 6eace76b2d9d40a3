import OnkenOS.Drivers.Hardware

/-!
# The formats of the real-time clock

The clock stores its fields in binary or with a decimal digit in each half of the byte, and its
hours from 0 to 23 or from 1 to 12 with a bit for the afternoon; register B says which.
`rtc_get_datetime` undoes all of it except at noon and at midnight of a 12-hour clock
(`rtcGetDatetime_rtcEncode_iff`): there the hour stored is 12, and only an hour of the afternoon is
converted at all.
-/

namespace OnkenOS

/-! ## What the registers hold -/

/-- The days of a month of the years 2000 to 2099. -/
def daysInMonth (year month : Nat) : Nat :=
  if month = 2 then if year % 4 = 0 then 29 else 28
  else if month = 4 ∨ month = 6 ∨ month = 9 ∨ month = 11 then 30 else 31

/-- A date and time from 2000 to 2099. -/
structure DateTime.Valid (d : DateTime) : Prop where
  year : 2000 ≤ d.year ∧ d.year < 2100
  month : 1 ≤ d.month ∧ d.month ≤ 12
  day : 1 ≤ d.day ∧ d.day ≤ daysInMonth d.year d.month
  hour : d.hour < 24
  minute : d.minute < 60
  second : d.second < 60

/-- A field below 100 as the clock stores it. Bit 2 of register B is set for binary. -/
def rtcField (registerB : UInt8) (v : Nat) : UInt8 :=
  if registerB &&& 0x04 = 0 then (v / 10 * 16 + v % 10).toUInt8 else v.toUInt8

/-- The hour as the clock stores it. Bit 1 of register B is set for hours from 0 to 23. -/
def rtcHour (registerB : UInt8) (hour : Nat) : UInt8 :=
  if registerB &&& 0x02 = 0 then
    rtcField registerB (if hour % 12 = 0 then 12 else hour % 12) |||
      if hour < 12 then 0 else 0x80
  else rtcField registerB hour

/-- The registers that show a date and time. -/
def rtcEncode (registerB : UInt8) (d : DateTime) : RtcRegs where
  second := rtcField registerB d.second
  minute := rtcField registerB d.minute
  hour := rtcHour registerB d.hour
  day := rtcField registerB d.day
  month := rtcField registerB d.month
  year := rtcField registerB (d.year - 2000)
  registerB := registerB

/-! ## What is decoded -/

/-- A field is read back, in either format. -/
def rtcValue (registerB v : UInt8) : Nat :=
  if registerB &&& 0x04 = 0 then bcd v.toNat else v.toNat

/-- The conversions of the hour. -/
def rtcHourValue (registerB v : UInt8) : Nat :=
  let hour :=
    if registerB &&& 0x04 = 0 then
      ((v.toNat &&& 0x0F) + (v.toNat &&& 0x70) / 16 * 10) ||| (v.toNat &&& 0x80)
    else v.toNat
  if registerB &&& 0x02 = 0 ∧ hour &&& 0x80 ≠ 0 then ((hour &&& 0x7F) + 12) % 24 else hour

/-- The six conversions of `rtc_get_datetime`, each in terms of the two formats that register B
chooses. -/
theorem rtcGetDatetime_eq (r : RtcRegs) :
    rtcGetDatetime r =
      { year := rtcValue r.registerB r.year + 2000
        month := rtcValue r.registerB r.month
        day := rtcValue r.registerB r.day
        hour := rtcHourValue r.registerB r.hour
        minute := rtcValue r.registerB r.minute
        second := rtcValue r.registerB r.second } := by
  unfold rtcGetDatetime rtcBinary rtcValue rtcHourValue
  split <;> rfl

section
variable {registerB : UInt8} {v : Nat}

/-- A field comes back as it was stored, in binary and in BCD. -/
theorem rtcValue_rtcField (hv : v < 100) : rtcValue registerB (rtcField registerB v) = v := by
  have hdigits : ∀ v < 100, bcd (v / 10 * 16 + v % 10).toUInt8.toNat = v := by decide
  unfold rtcValue rtcField
  split
  · exact hdigits v hv
  · exact UInt8.toNat_ofNat_of_lt' (Nat.lt_trans hv (by decide))

/-- So different values are stored differently. -/
theorem rtcField_inj {w : Nat} (hv : v < 100) (hw : w < 100)
    (h : rtcField registerB v = rtcField registerB w) : v = w := by
  rw [← rtcValue_rtcField hv, h, rtcValue_rtcField hw]

/-- On a 24-hour clock the hour is read back, in binary and in BCD. -/
theorem rtcHourValue_rtcHour (h24 : registerB &&& 0x02 ≠ 0) (hv : v < 24) :
    rtcHourValue registerB (rtcHour registerB v) = v := by
  have hdigits : ∀ v < 24, ((v / 10 * 16 + v % 10).toUInt8.toNat &&& 0x0F) +
      ((v / 10 * 16 + v % 10).toUInt8.toNat &&& 0x70) / 16 * 10 |||
        ((v / 10 * 16 + v % 10).toUInt8.toNat &&& 0x80) = v := by decide
  unfold rtcHourValue rtcHour rtcField
  simp only [h24, false_and, if_false]
  split
  · exact hdigits v hv
  · exact UInt8.toNat_ofNat_of_lt' (Nat.lt_trans hv (by decide))

/-- A 12-hour clock: noon and midnight are taken for each other. -/
theorem rtcHourValue_rtcHour_12 (h12 : registerB &&& 0x02 = 0) (hv : v < 24) :
    rtcHourValue registerB (rtcHour registerB v) = if v % 12 = 0 then 12 - v else v := by
  unfold rtcHourValue rtcHour rtcField
  simp only [h12, true_and, if_true]
  split
  · revert v
    decide
  · revert v
    decide

/-- The hour comes back on a 24-hour clock, and on a 12-hour clock at every hour but noon and
midnight. -/
theorem rtcHourValue_rtcHour_iff (hv : v < 24) :
    rtcHourValue registerB (rtcHour registerB v) = v ↔
      registerB &&& 0x02 ≠ 0 ∨ v % 12 ≠ 0 := by
  rcases eq_or_ne (registerB &&& 0x02) 0 with h12 | h24
  · rw [rtcHourValue_rtcHour_12 h12 hv, or_iff_right (not_not_intro h12)]
    split
    · next hnoon => exact iff_of_false (by omega) (not_not_intro hnoon)
    · next hnoon => exact iff_of_true rfl hnoon
  · exact iff_of_true (rtcHourValue_rtcHour h24 hv) (.inl h24)

end

/-- Every field but the hour is read back in every format; the hour is what the conversions of the
source make of it. -/
theorem rtcGetDatetime_rtcEncode {d : DateTime} (hd : d.Valid) (registerB : UInt8) :
    rtcGetDatetime (rtcEncode registerB d) =
      { d with hour := rtcHourValue registerB (rtcHour registerB d.hour) } := by
  obtain ⟨hyear, hmonth, hday, -, hminute, hsecond⟩ := hd
  have hlast : daysInMonth d.year d.month < 100 := by
    unfold daysInMonth
    split
    · split <;> omega
    · split <;> omega
  have hyear' : d.year - 2000 + 2000 = d.year := by omega
  rw [rtcGetDatetime_eq]
  simp only [rtcEncode]
  rw [rtcValue_rtcField (by omega), rtcValue_rtcField (by omega), rtcValue_rtcField (by omega),
    rtcValue_rtcField (by omega), rtcValue_rtcField (by omega), hyear']

/-- The date and time read back are those stored exactly if the clock counts 24 hours or the hour is
neither noon's nor midnight's: twelve is taken for a number like the others, and 12 PM for zero. -/
theorem rtcGetDatetime_rtcEncode_iff (registerB : UInt8) {d : DateTime} (hd : d.Valid) :
    rtcGetDatetime (rtcEncode registerB d) = d ↔
      registerB &&& 0x02 ≠ 0 ∨ d.hour % 12 ≠ 0 := by
  rw [rtcGetDatetime_rtcEncode hd, ← rtcHourValue_rtcHour_iff hd.hour]
  constructor
  · intro h
    exact congrArg DateTime.hour h
  · intro h
    rw [h]

/-- Half past eleven in the morning. -/
def morning : DateTime where
  year := 2026
  month := 10
  day := 7
  hour := 11
  minute := 30
  second := 0

/-- It is a date and time of those years: each field is in its range. -/
theorem morning_valid : morning.Valid where
  year := by decide
  month := by decide
  day := by decide
  hour := by decide
  minute := by decide
  second := by decide

/-- Half past eleven, read from a 12-hour clock in decimal digits: it comes back as it was stored.
-/
theorem rtcGetDatetime_rtcEncode_iff_morning :
    morning.Valid ∧ (rtcGetDatetime (rtcEncode 0 morning) = morning ↔
      (0 : UInt8) &&& 0x02 ≠ 0 ∨ morning.hour % 12 ≠ 0) :=
  ⟨morning_valid, rtcGetDatetime_rtcEncode_iff 0 morning_valid⟩

/-- Noon on such a clock is read as midnight: 12 with the bit for PM becomes zero. -/
theorem rtcGetDatetime_noon :
    ¬ ∀ (registerB : UInt8) (d : DateTime), d.Valid →
      rtcGetDatetime (rtcEncode registerB d) = d := by
  intro h
  have hnoon : ({ morning with hour := 12 } : DateTime).Valid :=
    { morning_valid with hour := by decide }
  have hhour := congrArg DateTime.hour (h 0 _ hnoon)
  revert hhour
  decide

end OnkenOS
