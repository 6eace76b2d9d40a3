import Mathlib.Data.Bool.AllAny
import OnkenOS.Drivers.KeyStream

/-!
# Typing a text

The scancodes with which a text is typed, each character by its key, with Shift held where the
layout or Caps Lock asks for it. `handle_kbd` decodes them to the text, and every printable
character has a key (`typed_text_decodes`).
-/

namespace OnkenOS

open Machine

/-- The characters that are on a key. -/
def typable : List UInt8 := (kbdUs ++ kbdUsShifted).filter (· ≠ 0)

/-- The key of a character, and whether Shift is held. Caps Lock swaps the letters. -/
def strokeOf (caps : Bool) (c : UInt8) : BitVec 8 × Bool :=
  if c ∈ kbdUs then (BitVec.ofNat 8 (kbdUs.idxOf c), caps && decide (97 ≤ c ∧ c ≤ 122))
  else (BitVec.ofNat 8 (kbdUsShifted.idxOf c), !(caps && decide (65 ≤ c ∧ c ≤ 90)))

/-- A key pressed and released, between the press and the release of Shift if need be. -/
def strokesOf (caps : Bool) (c : UInt8) : List (BitVec 8) :=
  let (code, shift) := strokeOf caps c
  if shift then [0x2A, code, code + 0x80, 0xAA] else [code, code + 0x80]

/-- The bytes the keyboard interrupt reads, with their status, when a text is typed. -/
def typing (caps : Bool) (text : List UInt8) : List (BitVec 8 × BitVec 8) :=
  (text.flatMap (strokesOf caps)).map fun data => (1, data)

/-- The keyboard behind some scancodes. -/
def Kbd.after (s : Kbd) (codes : List (BitVec 8 × BitVec 8)) : Kbd :=
  codes.foldl (fun s code => irq1Handler s code.1 code.2) s

section
variable {s : Kbd} {caps : Bool} {c : UInt8}

/-- The key of a character is a key, and the layout has the character there. -/
theorem strokeOf_spec (hc : c ∈ typable) (caps : Bool) :
    (strokeOf caps c).1 < 0x54 ∧
      (strokeOf caps c).1 ∉ ([0x38, 0x1D, 0x2A, 0x36, 0x3A] : List (BitVec 8)) ∧
      (⟨0, false, false, (strokeOf caps c).2, false, caps, false⟩ : Kbd).keyOf (strokeOf caps c).1 =
        c := by
  have hall : ∀ c ∈ typable, ∀ caps, (strokeOf caps c).1 < 0x54 ∧
      (strokeOf caps c).1 ∉ ([0x38, 0x1D, 0x2A, 0x36, 0x3A] : List (BitVec 8)) ∧
      (⟨0, false, false, (strokeOf caps c).2, false, caps, false⟩ : Kbd).keyOf (strokeOf caps c).1 =
        c := by
    decide +kernel
  exact hall c hc caps

/-- Every printable character is on some key of the table. -/
theorem typable_printable : ∀ n < 127, 32 ≤ n → n.toUInt8 ∈ typable := by
  decide

/-- Which key a scancode is depends on Shift and Caps Lock, and on nothing else of the driver. -/
theorem keyOf_flags (s : Kbd) (data : BitVec 8) :
    s.keyOf data =
      (⟨0, false, false, s.shiftPressed, false, s.capslockActive, false⟩ : Kbd).keyOf data := rfl

/-! ## One key -/

/-- A key goes down: its make code stores the character of the key, and changes nothing else of the
driver. -/
theorem press_key {code : BitVec 8} (he0 : s.e0Mode = false) (hlt : code < 0x54)
    (hmod : code ∉ ([0x38, 0x1D, 0x2A, 0x36, 0x3A] : List (BitVec 8))) :
    s.charOf 1 code = some (s.keyOf code) ∧ irq1Handler s 1 code = s.setLastKey (s.keyOf code) := by
  have hkey : s.IsKey code := ⟨he0, by bv_omega, hmod⟩
  refine ⟨if_pos ⟨by decide, by decide, hkey⟩, ?_⟩
  have hirq : irq1Handler s 1 code = handleKbd s code := rfl
  rw [hirq, handleKbd_of_isKey hkey]
  rfl

/-- A byte that is no make code stores nothing. -/
theorem charOf_break {data : BitVec 8} (hdata : ¬ data < 128) : s.charOf 1 data = none :=
  if_neg fun h => hdata h.2.2.2.1

/-- A key goes up: its break code changes nothing of the driver. -/
theorem release_key {code : BitVec 8} (he0 : s.e0Mode = false) (hlt : code < 0x54)
    (hmod : code ∉ ([0x38, 0x1D, 0x2A, 0x36, 0x3A] : List (BitVec 8))) :
    s.charOf 1 (code + 0x80) = none ∧ irq1Handler s 1 (code + 0x80) = s := by
  have hbreak : ¬ code + 0x80 < 128 := by bv_omega
  refine ⟨charOf_break hbreak, ?_⟩
  have hmake : ∀ c : BitVec 8, c < 128 → code + 0x80 ≠ c := by
    rintro c hc rfl
    exact hbreak hc
  have hadd : ∀ c d : BitVec 8, d = c + 0x80 → code ≠ c → code + 0x80 ≠ d := by
    rintro c _ rfl hne he
    exact hne (by bv_omega)
  simp only [List.mem_cons, List.not_mem_nil, or_false, not_or] at hmod
  have hirq : irq1Handler s 1 (code + 0x80) = handleKbd s (code + 0x80) := rfl
  rw [hirq]
  unfold handleKbd
  rw [if_neg (hadd 0x60 0xE0 rfl (by bv_omega)), he0, if_neg Bool.false_ne_true,
    if_neg (hmake 0x38 (by decide)), if_neg (hadd 0x38 0xB8 rfl hmod.1),
    if_neg (hmake 0x1D (by decide)), if_neg (hadd 0x1D 0x9D rfl hmod.2.1),
    if_neg (not_or.2 ⟨hmake 0x2A (by decide), hmake 0x36 (by decide)⟩),
    if_neg (not_or.2 ⟨hadd 0x2A 0xAA rfl hmod.2.2.1, hadd 0x36 0xB6 rfl hmod.2.2.2.1⟩),
    if_neg (hmake 0x3A (by decide)), if_neg hbreak]

/-- Pressing Shift stores no character and sets the flag. -/
theorem press_shift (he0 : s.e0Mode = false) :
    s.charOf 1 0x2A = none ∧ irq1Handler s 1 0x2A = { s with shiftPressed := true } := by
  refine ⟨if_neg fun h => absurd h.2.2.2.2 (by decide), ?_⟩
  have hirq : irq1Handler s 1 0x2A = handleKbd s 0x2A := rfl
  rw [hirq]
  simp [handleKbd, he0]

/-- Releasing it stores no character and clears the flag. -/
theorem release_shift (he0 : s.e0Mode = false) :
    s.charOf 1 0xAA = none ∧ irq1Handler s 1 0xAA = { s with shiftPressed := false } := by
  refine ⟨charOf_break (by decide), ?_⟩
  have hirq : irq1Handler s 1 0xAA = handleKbd s 0xAA := rfl
  rw [hirq]
  simp [handleKbd, he0]

/-! ## Texts -/

/-- A scancode that stores no character adds none to what is typed. -/
theorem typedChars_none {data : BitVec 8} (h : s.charOf 1 data = none)
    (codes : List (BitVec 8 × BitVec 8)) :
    typedChars s ((1, data) :: codes) = typedChars (irq1Handler s 1 data) codes := by
  rw [typedChars, h]
  rfl

/-- A character is stored once, and the modifiers are as before: Shift goes down before its key and
up behind it, if it is needed. -/
theorem typedChars_stroke (he0 : s.e0Mode = false) (hshift : s.shiftPressed = false)
    (hc : c ∈ typable) (codes : List (BitVec 8 × BitVec 8)) :
    typedChars s ((strokesOf s.capslockActive c).map (fun data => (1, data)) ++ codes) =
        c :: typedChars (s.setLastKey c) codes ∧
      s.after ((strokesOf s.capslockActive c).map fun data => (1, data)) = s.setLastKey c := by
  obtain ⟨hlt, hmod, hkey⟩ := strokeOf_spec hc s.capslockActive
  have hc0 : nonZero c = some c := if_neg (by simpa using (List.mem_filter.1 hc).2)
  unfold strokesOf Kbd.after
  cases hheld : (strokeOf s.capslockActive c).2 with
  | false =>
      rw [hheld] at hkey
      have hchar : s.keyOf (strokeOf s.capslockActive c).1 = c := by
        rw [keyOf_flags, hshift]
        exact hkey
      obtain ⟨hpress, hpressed⟩ := press_key he0 hlt hmod
      rw [hchar] at hpress hpressed
      obtain ⟨hrelease, hreleased⟩ := release_key (s := s.setLastKey c) he0 hlt hmod
      simp only [hheld, if_false, Bool.false_eq_true, List.map_cons, List.map_nil, List.cons_append,
        List.nil_append, List.foldl_cons, List.foldl_nil]
      rw [typedChars, hpress, hpressed, typedChars_none hrelease, hreleased]
      exact ⟨by simp [hc0], rfl⟩
  | true =>
      rw [hheld] at hkey
      obtain ⟨hdown, hdowned⟩ := press_shift he0
      have hchar : ({ s with shiftPressed := true } : Kbd).keyOf
          (strokeOf s.capslockActive c).1 = c := by
        rw [keyOf_flags]
        exact hkey
      obtain ⟨hpress, hpressed⟩ := press_key (s := { s with shiftPressed := true }) he0 hlt hmod
      rw [hchar] at hpress hpressed
      obtain ⟨hrelease, hreleased⟩ :=
        release_key (s := ({ s with shiftPressed := true } : Kbd).setLastKey c) he0 hlt hmod
      obtain ⟨hup, hupped⟩ :=
        release_shift (s := ({ s with shiftPressed := true } : Kbd).setLastKey c) he0
      have hback : { ({ s with shiftPressed := true } : Kbd).setLastKey c with
          shiftPressed := false } = s.setLastKey c := by
        rw [Kbd.setLastKey, Kbd.setLastKey, ← hshift]
      simp only [hheld, if_true, List.map_cons, List.map_nil, List.cons_append, List.nil_append,
        List.foldl_cons, List.foldl_nil]
      rw [typedChars_none hdown, hdowned, typedChars, hpress, hpressed, typedChars_none hrelease,
        hreleased, typedChars_none hup, hupped, hback]
      exact ⟨by simp [hc0], rfl⟩

/-- A text is stored character by character. By induction: each stroke leaves the driver as it found
it. -/
theorem typedChars_typing (he0 : s.e0Mode = false) (hshift : s.shiftPressed = false)
    {text : List UInt8} (htext : ∀ c ∈ text, c ∈ typable) :
    typedChars s (typing s.capslockActive text) = text ∧
      ∃ c, s.after (typing s.capslockActive text) = s.setLastKey c := by
  induction text generalizing s with
  | nil => exact ⟨rfl, s.lastKey, rfl⟩
  | cons c text ih =>
      obtain ⟨hchars, hafter⟩ := typedChars_stroke he0 hshift (htext c List.mem_cons_self)
        (typing s.capslockActive text)
      obtain ⟨hrest, c', hlast⟩ := ih (s := s.setLastKey c) he0 hshift
        fun d hd => htext d (List.mem_cons_of_mem c hd)
      have htyping : typing s.capslockActive (c :: text) =
          (strokesOf s.capslockActive c).map (fun data => (1, data)) ++
            typing s.capslockActive text := by
        rw [typing, List.flatMap_cons, List.map_append, typing]
      rw [htyping]
      refine ⟨?_, c', ?_⟩
      · rw [hchars]
        exact congrArg (c :: ·) hrest
      · unfold Kbd.after at hafter hlast ⊢
        rw [List.foldl_append, hafter]
        exact hlast

end

/-- Typing a text stores it, character by character, and leaves no modifier down, with Caps Lock on
or off, if no Shift is down and no prefix pending at the start; and every printable character,
Enter, Tab and Backspace can be typed. -/
theorem typed_text_decodes (s : Kbd) (he0 : s.e0Mode = false) (hshift : s.shiftPressed = false) :
    (∀ text : List UInt8, (∀ c ∈ text, c ∈ typable) →
      typedChars s (typing s.capslockActive text) = text ∧
        ∃ c, s.after (typing s.capslockActive text) = s.setLastKey c) ∧
      ∀ c : UInt8, (32 ≤ c ∧ c < 127) ∨ c = 10 ∨ c = 9 ∨ c = 8 → c ∈ typable := by
  refine ⟨fun text htext => typedChars_typing he0 hshift htext, ?_⟩
  rintro c (⟨hle, hlt⟩ | rfl | rfl | rfl)
  · have hmem := typable_printable c.toNat (UInt8.lt_iff_toNat_lt.1 hlt)
      (UInt8.le_iff_toNat_le.1 hle)
    rwa [Nat.toUInt8, UInt8.ofNat_toNat] at hmem
  · decide
  · decide
  · decide

/-- The keyboard after the start, with small and capital letters, digits and signs. -/
theorem typed_text_decodes_start :
    typedChars .static (typing false (str "cat Notes_2.txt")) = str "cat Notes_2.txt" :=
  ((typed_text_decodes .static rfl rfl).1 (str "cat Notes_2.txt")
    (List.all_iff_forall_prop.1 (by decide))).1

end OnkenOS
