import OnkenOS.Lib.Mailbox
import OnkenOS.Drivers.Ps2

/-!
# Keystrokes from the interrupt to the main loop

`last_key` is a mailbox of one slot: the keyboard interrupt stores into it, and
`ps2_get_last_key` reads it and clears it in two steps that the interrupt can fall between. The
main loop gets every character that is typed exactly when no interrupt destroys one
(`keys_delivered_iff`).
-/

namespace OnkenOS

open Machine Mailbox

/-! ## The two sides -/

/-- `last_key = c`. -/
def Kbd.setLastKey (s : Kbd) (c : UInt8) : Kbd := { s with lastKey := c }

/-- The keyboard, and the main loop: `k` of a call of `ps2_get_last_key` that has read and not
cleared yet, and what the calls have returned. `typed` is not in the source: the non-zero
characters that the interrupts have stored. -/
structure KeySystem where
  kbd : Kbd
  k : Option UInt8
  returned : List UInt8
  typed : List UInt8

/-- Before the first interrupt. -/
def KeySystem.start : KeySystem := ⟨.static, none, [], []⟩

/-- An interrupt, with the status and the data byte it reads, or the next step of the main loop
in `ps2_get_last_key`. -/
inductive KbdEvent where
  | irq1 (status data : BitVec 8)
  | poll

/-- The scancode is a make code that is not one of a modifier. -/
def Kbd.IsKey (s : Kbd) (data : BitVec 8) : Prop :=
  s.e0Mode = false ∧ data < 128 ∧ data ∉ [0x38, 0x1D, 0x2A, 0x36, 0x3A]

instance (s : Kbd) (data : BitVec 8) : Decidable (s.IsKey data) :=
  inferInstanceAs (Decidable (_ ∧ _))

/-- The character that an interrupt stores, if it stores one: the byte comes from the keyboard
and is the make code of a key. -/
def Kbd.charOf (s : Kbd) (status data : BitVec 8) : Option UInt8 :=
  if status &&& 1 ≠ 0 ∧ status &&& 0x20 = 0 ∧ s.IsKey data then some (s.keyOf data) else none

/-- A character, unless it is zero. -/
def nonZero (c : UInt8) : Option UInt8 := if c = 0 then none else some c

/-- One event. -/
def kbdStep (s : KeySystem) : KbdEvent → KeySystem
  | .irq1 status data =>
      { s with
        kbd := irq1Handler s.kbd status data
        typed := s.typed ++ ((s.kbd.charOf status data).bind nonZero).toList }
  | .poll =>
      match s.k with
      | none => { s with k := some s.kbd.lastKey }
      | some k =>
          { s with kbd := s.kbd.setLastKey 0, k := none, returned := s.returned ++ [k] }

/-- The next call of `ps2_get_last_key` will read zero, and none is under way. -/
def KeySystem.Drained (s : KeySystem) : Prop := s.k = none ∧ s.kbd.lastKey = 0

/-- The scancodes of a run. -/
def scancodes (es : List KbdEvent) : List (BitVec 8 × BitVec 8) :=
  es.filterMap fun
    | .irq1 status data => some (status, data)
    | .poll => none

/-- The non-zero characters of a stream of scancodes. -/
def typedChars : Kbd → List (BitVec 8 × BitVec 8) → List UInt8
  | _, [] => []
  | s, (status, data) :: codes =>
      ((s.charOf status data).bind nonZero).toList ++ typedChars (irq1Handler s status data) codes

/-- No character is lost by the event: an interrupt stores one only when the last one has been
returned, or stores zero while the main loop is between its read and its clear. -/
def KbdSafe (s : KeySystem) : KbdEvent → Prop
  | .irq1 status data =>
      ∀ c, s.kbd.charOf status data = some c →
        if s.k.isSome then c = 0 else s.kbd.lastKey = 0
  | .poll => True

/-! ## The interrupt -/

section
variable {s : Kbd} {data : BitVec 8}

/-- The make code of a key reaches the last branch. -/
theorem handleKbd_of_isKey (h : s.IsKey data) :
    handleKbd s data = { s with lastKey := s.keyOf data } := by
  obtain ⟨he0, hlt, hmod⟩ := h
  have hbreak : ∀ code : BitVec 8, ¬ code < 128 → data ≠ code := by
    rintro code hcode rfl
    exact hcode hlt
  simp only [List.mem_cons, List.not_mem_nil, or_false, not_or] at hmod
  unfold handleKbd
  rw [if_neg (hbreak 0xE0 (by decide)), he0, if_neg Bool.false_ne_true, if_neg hmod.1,
    if_neg (hbreak 0xB8 (by decide)), if_neg hmod.2.1, if_neg (hbreak 0x9D (by decide)),
    if_neg (not_or.2 ⟨hmod.2.2.1, hmod.2.2.2.1⟩),
    if_neg (not_or.2 ⟨hbreak 0xAA (by decide), hbreak 0xB6 (by decide)⟩),
    if_neg hmod.2.2.2.2, if_pos hlt]

/-- Any other scancode leaves `last_key` alone, and no scancode reads it: what is waiting does not
decide what comes next. -/
theorem handleKbd_of_not_isKey (h : ¬ s.IsKey data) (c : UInt8) :
    handleKbd (s.setLastKey c) data = (handleKbd s data).setLastKey c := by
  unfold handleKbd
  simp only [apply_ite (Kbd.setLastKey · c)]
  refine ite_congr rfl (fun _ => rfl) fun _ => ?_
  refine ite_congr rfl (fun _ => rfl) fun he0 => ?_
  refine ite_congr rfl (fun _ => rfl) fun h38 => ?_
  refine ite_congr rfl (fun _ => rfl) fun _ => ?_
  refine ite_congr rfl (fun _ => rfl) fun h1D => ?_
  refine ite_congr rfl (fun _ => rfl) fun _ => ?_
  refine ite_congr rfl (fun _ => rfl) fun hshift => ?_
  refine ite_congr rfl (fun _ => rfl) fun _ => ?_
  refine ite_congr rfl (fun _ => rfl) fun h3A => ?_
  -- what is left is the last branch, which only keys reach
  refine ite_congr rfl (fun hlt => absurd ⟨by simpa using he0, hlt, ?_⟩ h) fun _ => rfl
  simp only [List.mem_cons, List.not_mem_nil, or_false, not_or]
  exact ⟨h38, h1D, fun h => hshift (.inl h), fun h => hshift (.inr h), h3A⟩

/-- Which character an interrupt stores does not depend on the one that waits. -/
theorem charOf_setLastKey (s : Kbd) (c : UInt8) (status data : BitVec 8) :
    (s.setLastKey c).charOf status data = s.charOf status data := rfl

/-- The interrupt stores its character, if it has one, and does not read `last_key`. -/
theorem irq1Handler_setLastKey (s : Kbd) (c : UInt8) (status data : BitVec 8) :
    irq1Handler (s.setLastKey c) status data =
      (irq1Handler s status data).setLastKey ((s.charOf status data).getD c) := by
  unfold irq1Handler
  by_cases hfull : status &&& 1 ≠ 0
  · rw [if_pos hfull, if_pos hfull]
    by_cases hkbd : status &&& 0x20 = 0
    · rw [if_pos hkbd, if_pos hkbd]
      by_cases hkey : s.IsKey data
      · have hchar : s.charOf status data = some (s.keyOf data) :=
          if_pos ⟨hfull, hkbd, hkey⟩
        have hkey' : (s.setLastKey c).IsKey data := hkey
        rw [hchar, handleKbd_of_isKey hkey, handleKbd_of_isKey hkey']
        rfl
      · have hchar : s.charOf status data = none := if_neg fun h => hkey h.2.2
        rw [hchar, handleKbd_of_not_isKey hkey]
        rfl
    · have hchar : s.charOf status data = none := if_neg fun h => hkbd h.2.1
      rw [hchar, if_neg hkbd, if_neg hkbd]
      rfl
  · have hchar : s.charOf status data = none := if_neg fun h => hfull h.1
    rw [hchar, if_neg hfull, if_neg hfull]
    rfl

/-- After an interrupt its character waits, or the one before if it stored none. -/
theorem irq1Handler_lastKey (s : Kbd) (status data : BitVec 8) :
    (irq1Handler s status data).lastKey = (s.charOf status data).getD s.lastKey :=
  congrArg Kbd.lastKey (irq1Handler_setLastKey s s.lastKey status data)

/-- What is typed does not depend on what the main loop has taken. -/
theorem typedChars_setLastKey (s : Kbd) (c : UInt8) (codes : List (BitVec 8 × BitVec 8)) :
    typedChars (s.setLastKey c) codes = typedChars s codes := by
  induction codes generalizing s c with
  | nil => rfl
  | cons code codes ih =>
      rw [typedChars, typedChars, charOf_setLastKey, irq1Handler_setLastKey, ih]

end

/-! ## The mailbox -/

section
variable {s : KeySystem}

/-- The run's record of the typed characters is that of its scancodes. -/
theorem run_typed_eq (es : List KbdEvent) (s : KeySystem) :
    (run kbdStep s es).typed = s.typed ++ typedChars s.kbd (scancodes es) := by
  induction es generalizing s with
  | nil => exact (List.append_nil _).symm
  | cons e es ih =>
      rw [run_cons, ih]
      cases e with
      | irq1 status data =>
          change (s.typed ++ _) ++ _ = s.typed ++ typedChars s.kbd ((status, data) :: scancodes es)
          rw [typedChars, List.append_assoc]
          rfl
      | poll =>
          change _ = s.typed ++ typedChars s.kbd (scancodes es)
          unfold kbdStep
          cases s.k with
          | none => rfl
          | some k =>
              dsimp only
              rw [typedChars_setLastKey]

/-- The mailbox behind `last_key`. -/
def KeySystem.box (s : KeySystem) : Box UInt8 where
  slot := nonZero s.kbd.lastKey
  held := s.k.map nonZero
  sent := s.typed
  taken := s.returned.filterMap nonZero

/-- An event of the keyboard, as one of the mailbox, if it is one. -/
def boxEvents (s : KeySystem) : KbdEvent → List (Event UInt8)
  | .irq1 status data => ((s.kbd.charOf status data).map fun c => .store (nonZero c)).toList
  | .poll => [.receive]

/-- Seen as a mailbox, the keyboard does what a mailbox does on the same events. -/
theorem run_boxEvents (s : KeySystem) (e : KbdEvent) :
    run step s.box (boxEvents s e) = (kbdStep s e).box := by
  cases e with
  | irq1 status data =>
      have hkey := irq1Handler_lastKey s.kbd status data
      unfold boxEvents kbdStep KeySystem.box
      dsimp only
      rw [hkey]
      cases s.kbd.charOf status data with
      | none =>
          change _ = Box.mk _ _ (s.typed ++ []) _
          rw [List.append_nil]
          rfl
      | some c => rfl
  | poll =>
      unfold boxEvents kbdStep
      cases hk : s.k with
      | none =>
          unfold KeySystem.box
          rw [hk]
          rfl
      | some k =>
          unfold KeySystem.box
          rw [hk]
          change Box.mk none none _ (s.returned.filterMap nonZero ++ (nonZero k).toList) =
            Box.mk none none _ ((s.returned ++ [k]).filterMap nonZero)
          rw [List.filterMap_append]
          cases hc : nonZero k <;> simp [hc]

/-- Only zero is no character. -/
theorem nonZero_eq_none {c : UInt8} : nonZero c = none ↔ c = 0 := by
  unfold nonZero
  split
  · next h => exact iff_of_true rfl h
  · next h => exact iff_of_false nofun h

/-- An event is safe for the keyboard exactly when it is for the mailbox. -/
theorem runOk_boxEvents (s : KeySystem) (e : KbdEvent) :
    RunOk step Safe s.box (boxEvents s e) ↔ KbdSafe s e := by
  cases e with
  | poll => exact and_iff_left trivial
  | irq1 status data =>
      have hevents : boxEvents s (.irq1 status data) =
          ((s.kbd.charOf status data).map fun c => Event.store (nonZero c)).toList := rfl
      have hsafe : KbdSafe s (.irq1 status data) ↔ ∀ c, s.kbd.charOf status data = some c →
          if s.k.isSome then c = 0 else s.kbd.lastKey = 0 := Iff.rfl
      rw [hevents, hsafe]
      cases s.kbd.charOf status data with
      | none => exact iff_of_true trivial fun c hc => (by cases hc)
      | some c =>
          have hheld : s.box.held.isSome = s.k.isSome := Option.isSome_map
          have hstore : Safe s.box (.store (nonZero c)) ↔
              if s.k.isSome then c = 0 else s.kbd.lastKey = 0 := by
            change (if s.box.held.isSome then nonZero c = none
              else nonZero s.kbd.lastKey = none) ↔ _
            rw [hheld, nonZero_eq_none, nonZero_eq_none]
          simp only [Option.some.injEq, forall_eq']
          exact (and_iff_left trivial).trans hstore

/-- Nothing is returned that was not typed, nothing twice and nothing out of order; and once the
main loop has polled until it reads zero, everything that was typed is returned exactly when no
interrupt destroyed a character. -/
theorem keys_delivered_iff (es : List KbdEvent) :
    ((run kbdStep .start es).returned.filterMap nonZero).Sublist
        (typedChars .static (scancodes es)) ∧
      ((run kbdStep .start es).Drained →
        ((run kbdStep .start es).returned.filterMap nonZero =
            typedChars .static (scancodes es) ↔
          RunOk kbdStep KbdSafe .start es)) := by
  have hbox : run step empty (expand kbdStep boxEvents .start es) = (run kbdStep .start es).box :=
    run_expand run_boxEvents es .start
  have htyped : (run kbdStep .start es).typed = typedChars .static (scancodes es) :=
    run_typed_eq es .start
  refine ⟨?_, fun ⟨hk, hlast⟩ => ?_⟩
  · have hsub := taken_sublist_sent (expand kbdStep boxEvents .start es)
    rw [hbox] at hsub
    rw [← htyped]
    exact hsub
  · have hpending : pending (run step empty (expand kbdStep boxEvents .start es)) = none := by
      rw [hbox]
      unfold pending KeySystem.box
      rw [hk, hlast]
      rfl
    have hiff := taken_eq_sent_iff _ hpending
    rw [hbox] at hiff
    rw [← htyped, ← RunOk_expand run_boxEvents runOk_boxEvents]
    exact hiff

/-- Two keys, with polls between their interrupts: both arrive. -/
theorem keys_delivered_two :
    (run kbdStep .start [.irq1 1 0x1E, .poll, .poll, .irq1 1 0x9E, .irq1 1 0x30, .poll,
        .irq1 1 0xB0, .poll, .poll, .poll]).returned.filterMap nonZero =
      typedChars .static [(1, 0x1E), (1, 0x9E), (1, 0x30), (1, 0xB0)] ∧
    typedChars .static [(1, 0x1E), (1, 0x9E), (1, 0x30), (1, 0xB0)] = str "ab" := by
  refine ⟨((keys_delivered_iff [.irq1 1 0x1E, .poll, .poll, .irq1 1 0x9E, .irq1 1 0x30, .poll,
    .irq1 1 0xB0, .poll, .poll, .poll]).2 ⟨rfl, rfl⟩).2 ?_, by decide⟩
  exact ⟨fun _ _ => rfl, trivial, trivial, fun _ _ => rfl, fun _ _ => rfl, trivial,
    fun _ hc => (by cases hc), trivial, trivial, trivial, trivial⟩

/-- Two keys pressed before the main loop polls: the second one is stored over the first, which is
never returned. -/
theorem keys_lost :
    ¬ ∀ es : List KbdEvent, (run kbdStep .start es).Drained →
      (run kbdStep .start es).returned.filterMap nonZero =
        typedChars .static (scancodes es) := by
  intro h
  have heq := h [.irq1 1 0x1E, .irq1 1 0x30, .poll, .poll] ⟨rfl, rfl⟩
  exact absurd heq (by decide)

end

end OnkenOS
