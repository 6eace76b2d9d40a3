import Mathlib.Data.List.Basic

/-!
# Decimal numbers as bytes

The ASCII digits of a number, the first one first and without leading zeros. They are built up from
the last digit (`decimal_of_ten_le`), as a formatter finds them and as a scanner reads them.
-/

namespace Decimal

/-- The digits of a number. -/
def decimal (n : Nat) : List UInt8 := (Nat.toDigits 10 n).map fun c => c.toNat.toUInt8

/-- One digit. -/
def digit (d : Nat) : UInt8 := (d % 10 + 48).toUInt8

section
variable {n : Nat}

/-- A digit as Lean writes it is the digit as C does. -/
theorem toUInt8_digitChar (hn : n < 10) : n.digitChar.toNat.toUInt8 = digit n := by
  have hall : ∀ n < 10, n.digitChar.toNat.toUInt8 = digit n := by decide
  exact hall n hn

/-- The code of a digit is 48 more than its value. -/
theorem toNat_digit (n : Nat) : (digit n).toNat = n % 10 + 48 := by
  have hlt : n % 10 < 10 := Nat.mod_lt n (by omega)
  rw [digit, UInt8.toNat_ofNat']
  omega

/-- The digits are the characters from 48 to 57. -/
theorem digit_bounds (n : Nat) : 48 ≤ digit n ∧ digit n ≤ 57 := by
  have hlt : n % 10 < 10 := Nat.mod_lt n (by omega)
  rw [UInt8.le_iff_toNat_le, UInt8.le_iff_toNat_le, toNat_digit]
  exact ⟨Nat.le_add_left 48 _, Nat.add_le_add_right (Nat.le_of_lt_succ hlt) 48⟩

/-- Only the last digit of the number counts. -/
theorem digit_mod (n : Nat) : digit (n % 10) = digit n := by
  rw [digit, Nat.mod_mod, digit]

/-- A number of one digit. -/
theorem decimal_of_lt_ten (hn : n < 10) : decimal n = [digit n] := by
  rw [decimal, Nat.toDigits_of_lt_base hn, List.map_singleton, toUInt8_digitChar hn]

/-- A number from ten on is written as the digits before its last one, and that. -/
theorem decimal_of_ten_le (hn : 10 ≤ n) : decimal n = decimal (n / 10) ++ [digit n] := by
  have hlt : n % 10 < 10 := Nat.mod_lt n (by omega)
  rw [decimal, Nat.toDigits_of_base_le (by omega) hn, List.map_append, List.map_singleton,
    toUInt8_digitChar hlt, digit_mod, decimal]

/-- The first digit of a positive number is not a zero. -/
theorem decimal_pos (hn : 0 < n) : ∃ c rest, decimal n = c :: rest ∧ 49 ≤ c ∧ c ≤ 57 := by
  induction n using Nat.strongRecOn with
  | _ n ih =>
      rcases Nat.lt_or_ge n 10 with hlt | hge
      · have hdigits : ∀ n < 10, 0 < n → 49 ≤ digit n ∧ digit n ≤ 57 := by decide
        exact ⟨_, [], decimal_of_lt_ten hlt, hdigits n hlt hn⟩
      · obtain ⟨c, rest, hc, hrange⟩ := ih (n / 10) (by omega) (by omega)
        exact ⟨c, rest ++ [digit n], by rw [decimal_of_ten_le hge, hc, List.cons_append], hrange⟩

/-- A number is written in digits. -/
theorem mem_decimal {c : UInt8} (hc : c ∈ decimal n) : 48 ≤ c ∧ c ≤ 57 := by
  induction n using Nat.strongRecOn with
  | _ n ih =>
      rcases Nat.lt_or_ge n 10 with hlt | hge
      · rw [decimal_of_lt_ten hlt, List.mem_singleton] at hc
        exact hc ▸ digit_bounds n
      · rw [decimal_of_ten_le hge, List.mem_append, List.mem_singleton] at hc
        rcases hc with hc | rfl
        · exact ih (n / 10) (by omega) hc
        · exact digit_bounds n

/-- Zero is written with one digit. -/
theorem decimal_zero : decimal 0 = [48] := rfl

end

end Decimal
