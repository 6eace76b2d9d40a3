import OnkenOS.Lib.Run
import OnkenOS.Drivers.Ps2

/-!
# The modifier keys

`handle_kbd` keeps one flag for each modifier, and two keys set it: the flag says that the last
scancode it decodes was a make code, not that a key is down. Besides, it decodes the right control
and alt keys, which come behind the prefix, as nothing. The flags follow the keys as long as no
press or release is of one of these cases (`modifiers_follow_iff`).
-/

namespace OnkenOS

open Machine

/-! ## What the driver reports -/

/-- `ps2_is_alt_pressed`. -/
def ps2IsAltPressed (s : Kbd) : Bool := s.altPressed

/-- `ps2_is_ctrl_pressed`. -/
def ps2IsCtrlPressed (s : Kbd) : Bool := s.ctrlPressed

/-- `ps2_is_super_pressed`. -/
def ps2IsSuperPressed (s : Kbd) : Bool := s.superPressed

/-- `ps2_is_shift_pressed`. -/
def ps2IsShiftPressed (s : Kbd) : Bool := s.shiftPressed

/-! ## The keyboard -/

/-- A key, by its make code and whether the prefix comes before it. A break code is the make code
with the high bit set, and no key has the prefix byte as its break code. -/
@[ext] structure Key where
  e0 : Bool
  code : BitVec 8
  code_lt : code < 0x80
  code_ne : code ≠ 0x60
deriving DecidableEq

/-- The prefix of a key. -/
def Key.lead (k : Key) : List (BitVec 8) := if k.e0 then [0xE0] else []

/-- The last byte of a scancode. -/
def Key.lastByte (k : Key) (down : Bool) : BitVec 8 := if down then k.code else k.code + 0x80

/-- The scancode of a key that is down (a press, or a typematic repeat) or goes up. -/
def Key.scancode (k : Key) (down : Bool) : List (BitVec 8) :=
  k.lead ++ [k.lastByte down]

/-- The kinds of modifier keys. -/
inductive Modifier where
  | shift
  | ctrl
  | alt
  | super
deriving DecidableEq

/-- The keys of a kind: the left and the right one. -/
def Modifier.keys : Modifier → List Key
  | .shift => [⟨false, 0x2A, by decide, by decide⟩, ⟨false, 0x36, by decide, by decide⟩]
  | .ctrl => [⟨false, 0x1D, by decide, by decide⟩, ⟨true, 0x1D, by decide, by decide⟩]
  | .alt => [⟨false, 0x38, by decide, by decide⟩, ⟨true, 0x38, by decide, by decide⟩]
  | .super => [⟨true, 0x5B, by decide, by decide⟩, ⟨true, 0x5C, by decide, by decide⟩]

/-- The keys of a kind that the driver knows. -/
def Modifier.decoded : Modifier → List Key
  | .shift => [⟨false, 0x2A, by decide, by decide⟩, ⟨false, 0x36, by decide, by decide⟩]
  | .ctrl => [⟨false, 0x1D, by decide, by decide⟩]
  | .alt => [⟨false, 0x38, by decide, by decide⟩]
  | .super => [⟨true, 0x5B, by decide, by decide⟩, ⟨true, 0x5C, by decide, by decide⟩]

/-- What the driver reports about a kind. -/
def Modifier.isPressed (s : Kbd) : Modifier → Bool
  | .shift => ps2IsShiftPressed s
  | .ctrl => ps2IsCtrlPressed s
  | .alt => ps2IsAltPressed s
  | .super => ps2IsSuperPressed s

/-- The driver after the interrupts of a scancode: status 1 is a byte of the keyboard. -/
def Kbd.receive (s : Kbd) (scancode : List (BitVec 8)) : Kbd :=
  scancode.foldl (fun s data => irq1Handler s 1 data) s

section
variable {s : Kbd}

/-- The flags after a byte that does not come behind the prefix. -/
theorem handleKbd_flags {data : BitVec 8} (he0 : s.e0Mode = false) (hdata : data ≠ 0xE0) :
    (handleKbd s data).e0Mode = false ∧
      (handleKbd s data).shiftPressed =
        (if data = 0x2A ∨ data = 0x36 then true
          else if data = 0xAA ∨ data = 0xB6 then false else s.shiftPressed) ∧
      (handleKbd s data).ctrlPressed =
        (if data = 0x1D then true else if data = 0x9D then false else s.ctrlPressed) ∧
      (handleKbd s data).altPressed =
        (if data = 0x38 then true else if data = 0xB8 then false else s.altPressed) ∧
      (handleKbd s data).superPressed = s.superPressed := by
  unfold handleKbd
  rw [if_neg hdata, he0, if_neg Bool.false_ne_true]
  split_ifs <;> simp_all

/-- The flags after the byte behind the prefix: only that of the super keys can change, and the
prefix is used up. -/
theorem handleKbd_flags_e0 {data : BitVec 8} (he0 : s.e0Mode = true) (hdata : data ≠ 0xE0) :
    (handleKbd s data).e0Mode = false ∧
      (handleKbd s data).shiftPressed = s.shiftPressed ∧
      (handleKbd s data).ctrlPressed = s.ctrlPressed ∧
      (handleKbd s data).altPressed = s.altPressed ∧
      (handleKbd s data).superPressed =
        (if data = 0x5B ∨ data = 0x5C then true
          else if data = 0xDB ∨ data = 0xDC then false else s.superPressed) := by
  unfold handleKbd
  rw [if_neg hdata, if_pos he0]
  split_ifs <;> exact ⟨rfl, rfl, rfl, rfl, rfl⟩

/-- The last byte is never the prefix: make codes are smaller, and no key has it for its break code.
-/
theorem lastByte_ne (k : Key) (down : Bool) : k.lastByte down ≠ 0xE0 := by
  obtain ⟨e0, code, hlt, hne⟩ := k
  unfold Key.lastByte
  dsimp only
  split <;> bv_omega

/-- A key's last byte is a make code if it was pressed. -/
theorem lastByte_eq_make (k : Key) (down : Bool) {c : BitVec 8} (hc : c < 0x80) :
    k.lastByte down = c ↔ down = true ∧ k.code = c := by
  have hlt := k.code_lt
  cases down with
  | true => simp [Key.lastByte]
  | false =>
      simp only [Key.lastByte, Bool.false_eq_true, if_false, false_and, iff_false]
      bv_omega

/-- It is a break code if it was released. -/
theorem lastByte_eq_break (k : Key) (down : Bool) {c : BitVec 8} (hc : c < 0x80) :
    k.lastByte down = c + 0x80 ↔ down = false ∧ k.code = c := by
  have hlt := k.code_lt
  cases down with
  | true =>
      simp only [Key.lastByte, if_true, Bool.true_eq_false, false_and, iff_false]
      bv_omega
  | false => simp [Key.lastByte]

/-- A flag that one make code sets and its break code clears. -/
theorem flag_one (k : Key) (down flag : Bool) {c : BitVec 8} (hc : c < 0x80) :
    (if k.lastByte down = c then true else if k.lastByte down = c + 0x80 then false else flag) =
      if k.code = c then down else flag := by
  simp only [lastByte_eq_make k down hc, lastByte_eq_break k down hc]
  cases down <;> simp

/-- A flag that two make codes set and their break codes clear. -/
theorem flag_two (k : Key) (down flag : Bool) {c d : BitVec 8} (hc : c < 0x80) (hd : d < 0x80) :
    (if k.lastByte down = c ∨ k.lastByte down = d then true
      else if k.lastByte down = c + 0x80 ∨ k.lastByte down = d + 0x80 then false else flag) =
      if k.code = c ∨ k.code = d then down else flag := by
  simp only [lastByte_eq_make k down hc, lastByte_eq_break k down hc, lastByte_eq_make k down hd,
    lastByte_eq_break k down hd]
  cases down <;> simp

/-- The scancode of a key without the prefix: it sets or clears the flag of the modifier whose key
the driver takes it for, and leaves the others. -/
theorem receive_plain (he0 : s.e0Mode = false) {k : Key} (hlead : k.e0 = false) (down : Bool) :
    (s.receive (k.scancode down)).e0Mode = false ∧
      ∀ m : Modifier, m.isPressed (s.receive (k.scancode down)) =
        if k ∈ m.decoded then down else m.isPressed s := by
  have hbyte : s.receive (k.scancode down) = handleKbd s (k.lastByte down) := by
    unfold Key.scancode Key.lead
    rw [hlead]
    rfl
  obtain ⟨hmode, hshift, hctrl, halt, hsuper⟩ := handleKbd_flags he0 (lastByte_ne k down)
  have hshift' := hshift.trans
    (flag_two k down s.shiftPressed (c := 0x2A) (d := 0x36) (by decide) (by decide))
  have hctrl' := hctrl.trans (flag_one k down s.ctrlPressed (c := 0x1D) (by decide))
  have halt' := halt.trans (flag_one k down s.altPressed (c := 0x38) (by decide))
  rw [hbyte]
  refine ⟨hmode, fun m => ?_⟩
  cases m with
  | shift =>
      simpa [Modifier.isPressed, ps2IsShiftPressed, Modifier.decoded, Key.ext_iff, hlead]
        using hshift'
  | ctrl =>
      simpa [Modifier.isPressed, ps2IsCtrlPressed, Modifier.decoded, Key.ext_iff, hlead]
        using hctrl'
  | alt =>
      simpa [Modifier.isPressed, ps2IsAltPressed, Modifier.decoded, Key.ext_iff, hlead]
        using halt'
  | super =>
      simpa [Modifier.isPressed, ps2IsSuperPressed, Modifier.decoded, Key.ext_iff, hlead]
        using hsuper

/-- The scancode of a key with the prefix: only the super keys are decoded behind it. -/
theorem receive_prefixed {k : Key} (hlead : k.e0 = true) (down : Bool) :
    (s.receive (k.scancode down)).e0Mode = false ∧
      ∀ m : Modifier, m.isPressed (s.receive (k.scancode down)) =
        if k ∈ m.decoded then down else m.isPressed s := by
  have hbyte : s.receive (k.scancode down) =
      handleKbd { s with e0Mode := true } (k.lastByte down) := by
    unfold Key.scancode Key.lead
    rw [hlead]
    rfl
  obtain ⟨hmode, hshift, hctrl, halt, hsuper⟩ :=
    handleKbd_flags_e0 (s := { s with e0Mode := true }) rfl (lastByte_ne k down)
  have hsuper' := hsuper.trans
    (flag_two k down s.superPressed (c := 0x5B) (d := 0x5C) (by decide) (by decide))
  rw [hbyte]
  refine ⟨hmode, fun m => ?_⟩
  cases m with
  | shift =>
      simpa [Modifier.isPressed, ps2IsShiftPressed, Modifier.decoded, Key.ext_iff, hlead]
        using hshift
  | ctrl =>
      simpa [Modifier.isPressed, ps2IsCtrlPressed, Modifier.decoded, Key.ext_iff, hlead]
        using hctrl
  | alt =>
      simpa [Modifier.isPressed, ps2IsAltPressed, Modifier.decoded, Key.ext_iff, hlead]
        using halt
  | super =>
      simpa [Modifier.isPressed, ps2IsSuperPressed, Modifier.decoded, Key.ext_iff, hlead]
        using hsuper'

/-- A scancode sets the flag of a key that the driver knows, and no other one. -/
theorem receive_scancode (he0 : s.e0Mode = false) (k : Key) (down : Bool) :
    (s.receive (k.scancode down)).e0Mode = false ∧
      ∀ m : Modifier, m.isPressed (s.receive (k.scancode down)) =
        if k ∈ m.decoded then down else m.isPressed s := by
  cases hlead : k.e0 with
  | false => exact receive_plain he0 hlead down
  | true => exact receive_prefixed hlead down

end

/-! ## Keys going down and up -/

/-- The keyboard: the driver, and the keys that are down. -/
structure Keyboard where
  kbd : Kbd
  held : Key → Bool

/-- Before the first scancode. -/
def Keyboard.start : Keyboard := ⟨.static, fun _ => false⟩

/-- What can happen to a key. -/
inductive KeyAction where
  | press
  | typematic
  | release

/-- Only a key that is up can be pressed, only one that is down can repeat and be released. -/
def KeyAction.Possible (s : Keyboard) (k : Key) : KeyAction → Prop
  | .press => s.held k = false
  | .typematic | .release => s.held k = true

instance (s : Keyboard) (k : Key) : DecidablePred (KeyAction.Possible s k)
  | .press | .typematic | .release => inferInstanceAs (Decidable (_ = _))

/-- Whether the key is down afterwards. -/
def KeyAction.down : KeyAction → Bool
  | .press | .typematic => true
  | .release => false

/-- One action: the interrupts of its scancode. What is not possible does not happen. -/
def keyboardStep (s : Keyboard) : KeyAction × Key → Keyboard
  | (action, k) =>
      if action.Possible s k then
        { kbd := s.kbd.receive (k.scancode action.down)
          held := Function.update s.held k action.down }
      else s

/-- What the driver reports about each modifier is whether one of its keys is down. -/
def Keyboard.Follows (s : Keyboard) : Prop :=
  ∀ m : Modifier, m.isPressed s.kbd = true ↔ ∃ k ∈ m.keys, s.held k = true

/-- Another key of the kind is down. -/
def Modifier.HeldBesides (s : Keyboard) (k : Key) (m : Modifier) : Prop :=
  ∃ k' ∈ m.keys, k' ≠ k ∧ s.held k' = true

/-- A modifier key that the driver does not know is pressed and released only while the other one
of its kind is down; one that it knows is released only while the other one is up. -/
def KeyAction.SafeFor (s : Keyboard) (k : Key) (m : Modifier) : KeyAction → Prop
  | .press => k ∈ m.decoded ∨ m.HeldBesides s k
  | .typematic => True
  | .release => (k ∈ m.decoded ↔ ¬ m.HeldBesides s k)

/-- The action does not happen, or is safe for the kind of modifier that the key is of. -/
def KeySafe (s : Keyboard) (e : KeyAction × Key) : Prop :=
  e.1.Possible s e.2 → ∀ m : Modifier, e.2 ∈ m.keys → e.1.SafeFor s e.2 m

section
variable {s : Keyboard}

/-- The keys that the driver knows as a modifier are keys of it. -/
theorem mem_keys_of_mem_decoded {k : Key} {m : Modifier} (h : k ∈ m.decoded) : k ∈ m.keys := by
  cases m with
  | shift | super => exact h
  | ctrl | alt => exact List.mem_cons.2 (.inl (List.mem_singleton.1 h))

/-- Some key of a kind is down after an action on one of its keys. -/
theorem exists_held_update {k : Key} {m : Modifier} (hk : k ∈ m.keys) (down : Bool) :
    (∃ k' ∈ m.keys, Function.update s.held k down k' = true) ↔
      down = true ∨ m.HeldBesides s k := by
  constructor
  · rintro ⟨k', hk', hheld⟩
    rcases eq_or_ne k' k with rfl | hne
    · rw [Function.update_self] at hheld
      exact .inl hheld
    · rw [Function.update_of_ne hne] at hheld
      exact .inr ⟨k', hk', hne, hheld⟩
  · rintro (hdown | ⟨k', hk', hne, hheld⟩)
    · exact ⟨k, hk, by rw [Function.update_self, hdown]⟩
    · exact ⟨k', hk', by rw [Function.update_of_ne hne, hheld]⟩

/-- An action on another key leaves whether a key of this kind is down. -/
theorem exists_held_update_of_notMem {k : Key} {m : Modifier} (hk : k ∉ m.keys) (down : Bool) :
    (∃ k' ∈ m.keys, Function.update s.held k down k' = true) ↔
      ∃ k' ∈ m.keys, s.held k' = true := by
  refine exists_congr fun k' => and_congr_right fun hk' => ?_
  rw [Function.update_of_ne]
  rintro rfl
  exact hk hk'

/-- The key itself is down, or another one of its kind. -/
theorem exists_held_iff {k : Key} {m : Modifier} (hk : k ∈ m.keys) :
    (∃ k' ∈ m.keys, s.held k' = true) ↔ s.held k = true ∨ m.HeldBesides s k := by
  rw [← exists_held_update hk, Function.update_eq_self]

/-- An action on a key of a kind keeps the flag of the kind right exactly when it is safe. -/
theorem safeFor_iff {action : KeyAction} {k : Key} {m : Modifier} (hk : k ∈ m.keys)
    (hpos : action.Possible s k)
    (hm : m.isPressed s.kbd = true ↔ ∃ k ∈ m.keys, s.held k = true) :
    ((if k ∈ m.decoded then action.down else m.isPressed s.kbd) = true ↔
        action.down = true ∨ m.HeldBesides s k) ↔ action.SafeFor s k m := by
  rw [exists_held_iff hk] at hm
  cases action with
  | press =>
      have hup : s.held k = false := hpos
      by_cases hdec : k ∈ m.decoded
      · simp [hdec, KeyAction.SafeFor, KeyAction.down]
      · simp [hdec, hm, hup, KeyAction.SafeFor, KeyAction.down]
  | typematic =>
      have hdown : s.held k = true := hpos
      by_cases hdec : k ∈ m.decoded
      · simp [hdec, KeyAction.SafeFor, KeyAction.down]
      · simp [hdec, hm, hdown, KeyAction.SafeFor, KeyAction.down]
  | release =>
      have hdown : s.held k = true := hpos
      by_cases hdec : k ∈ m.decoded
      · simp [hdec, KeyAction.SafeFor, KeyAction.down]
      · simp [hdec, hm, hdown, KeyAction.SafeFor, KeyAction.down]

/-- Every scancode is complete: the driver does not wait for the byte behind a prefix. -/
theorem keyboardStep_e0Mode (he0 : s.kbd.e0Mode = false) (e : KeyAction × Key) :
    (keyboardStep s e).kbd.e0Mode = false := by
  obtain ⟨action, k⟩ := e
  unfold keyboardStep
  dsimp only
  split
  · exact (receive_scancode he0 k action.down).1
  · exact he0

/-- An action keeps the flags right exactly when it is a safe one. -/
theorem keyboardStep_follows_iff (he0 : s.kbd.e0Mode = false) (h : s.Follows)
    (e : KeyAction × Key) : (keyboardStep s e).Follows ↔ KeySafe s e := by
  obtain ⟨action, k⟩ := e
  by_cases hpos : action.Possible s k
  · have hstep : keyboardStep s (action, k) =
        { kbd := s.kbd.receive (k.scancode action.down)
          held := Function.update s.held k action.down } := if_pos hpos
    have hsafe : KeySafe s (action, k) ↔ ∀ m : Modifier, k ∈ m.keys → action.SafeFor s k m :=
      ⟨fun hok => hok hpos, fun hok _ => hok⟩
    rw [hstep, hsafe]
    refine forall_congr' fun m => ?_
    dsimp only
    rw [(receive_scancode he0 k action.down).2 m]
    by_cases hk : k ∈ m.keys
    · rw [exists_held_update hk, forall_prop_of_true hk]
      exact safeFor_iff hk hpos (h m)
    · have hdec : k ∉ m.decoded := fun hmem => hk (mem_keys_of_mem_decoded hmem)
      rw [if_neg hdec, exists_held_update_of_notMem hk]
      exact iff_of_true (h m) fun hmem => absurd hmem hk
  · have hstep : keyboardStep s (action, k) = s := if_neg hpos
    rw [hstep]
    exact iff_of_true h fun hpos' => absurd hpos' hpos

end

/-- In every run of the keyboard, the flags are right after every scancode exactly when every action
is a safe one. The driver keeps one flag for the two keys of a modifier, so the release of one of
them while the other is down is not safe, and a right control or alt key, which it does not decode,
only is while the left one is down. -/
theorem modifiers_follow_iff (es : List (KeyAction × Key)) :
    RunOk keyboardStep (fun s e => (keyboardStep s e).Follows) .start es ↔
      RunOk keyboardStep KeySafe .start es := by
  have hstart : Keyboard.start.kbd.e0Mode = false ∧ Keyboard.start.Follows := by
    refine ⟨rfl, fun m => ?_⟩
    cases m <;> simp [Keyboard.start] <;> rfl
  have hmode : ∀ (s : Keyboard) (e : KeyAction × Key), s.kbd.e0Mode = false →
      (keyboardStep s e).kbd.e0Mode = false := fun _ e he0 => keyboardStep_e0Mode he0 e
  have hstep : ∀ (s : Keyboard) (e : KeyAction × Key), s.kbd.e0Mode = false ∧ s.Follows →
      ((keyboardStep s e).kbd.e0Mode = false ∧ (keyboardStep s e).Follows ↔ KeySafe s e) := by
    rintro s e ⟨he0, hfollows⟩
    rw [and_iff_right (hmode s e he0)]
    exact keyboardStep_follows_iff he0 hfollows e
  rw [← RunOk_keeps_iff hstep es hstart]
  refine RunOk_congr (fun s => s.kbd.e0Mode = false) hmode (fun s e he0 => ?_) es hstart.1
  exact (and_iff_right (hmode s e he0)).symm

/-- Both shift keys go down, the left one goes up: the driver reports no shift, though the right one
is still down. -/
theorem modifiers_lose_shift :
    ¬ ∀ es, RunOk keyboardStep (fun s e => (keyboardStep s e).Follows) .start es := by
  intro h
  have hshift := (h [(.press, ⟨false, 0x2A, by decide, by decide⟩),
    (.press, ⟨false, 0x36, by decide, by decide⟩),
    (.release, ⟨false, 0x2A, by decide, by decide⟩)]).2.2.1 .shift
  revert hshift
  decide +kernel

end OnkenOS
