import OnkenOS.Lib.Run
import OnkenOS.Drivers.Ps2

/-!
# Mouse packets

A packet has three bytes, or four with a wheel; the first one has bit 3 set and carries the
buttons and the ninth bits of the two deltas. `handle_mouse` finds the end of every packet, but
keeps the low eight bits of a delta as a signed byte: a delta of 128 to 255 becomes negative.
`mouse_packets_decode_iff` says exactly when a stream of packets is decoded right.
-/

namespace OnkenOS

open Machine

/-- A packet; the last byte is sent only by a mouse with a wheel. -/
structure MousePacket where
  b0 : BitVec 8
  b1 : BitVec 8
  b2 : BitVec 8
  b3 : BitVec 8
  sync : b0 &&& 0x08 ≠ 0

/-- The bytes the mouse sends. -/
def MousePacket.bytes (p : MousePacket) (wheel : Bool) : List (BitVec 8) :=
  [p.b0, p.b1, p.b2] ++ if wheel then [p.b3] else []

/-- A two's complement number of nine bits. -/
def nineBit (sign : Bool) (low : BitVec 8) : Int := (BitVec.ofBool sign ++ low).toInt

/-- The motion to the right. -/
def MousePacket.deltaX (p : MousePacket) : Int := nineBit (p.b0.getLsbD 4) p.b1

/-- The motion upward. -/
def MousePacket.deltaY (p : MousePacket) : Int := nineBit (p.b0.getLsbD 5) p.b2

/-- A coordinate, moved onto the screen. -/
def onScreen (side : BitVec 32) (v : Int) : Int := min (max v 0) (side - 1).toInt

/-- The decoder after a packet. -/
def packetStep (scr : Screen) (s : Mouse) (p : MousePacket) : Mouse :=
  (p.bytes s.mouseHasWheel).foldl (handleMouse scr) s

/-- What a packet has to do: the decoder counts its bytes and is at a boundary again after the
last one, the position moves by the two deltas and stays on the screen, and the buttons are the
low bits of the first byte. -/
structure MotionLaw (scr : Screen) (s : Mouse) (p : MousePacket) : Prop where
  inside : ∀ n, n < (p.bytes s.mouseHasWheel).length →
    (((p.bytes s.mouseHasWheel).take n).foldl (handleMouse scr) s).mouseCycle = n
  boundary : (packetStep scr s p).mouseCycle = 0
  x : (packetStep scr s p).mouseX = onScreen scr.fbWidth (s.mouseX + p.deltaX)
  y : (packetStep scr s p).mouseY = onScreen scr.fbHeight (s.mouseY - p.deltaY)
  left : (packetStep scr s p).mouseBLeft ≠ 0 ↔ p.b0.getLsbD 0 = true
  right : (packetStep scr s p).mouseBRight ≠ 0 ↔ p.b0.getLsbD 1 = true

/-- The edges of the screen hide that a coordinate is 256 too small: both are clamped to the
same edge. -/
def Hidden (side : BitVec 32) (v : Int) : Prop :=
  (side - 1).toInt ≤ 0 ∨ v ≤ 0 ∨ (side - 1).toInt + 256 ≤ v

/-- Neither delta is one of 128 to 255, unless the edges hide it. -/
def Moderate (scr : Screen) (s : Mouse) (p : MousePacket) : Prop :=
  (p.b0.getLsbD 4 = true ∨ p.b1 < 128 ∨ Hidden scr.fbWidth (s.mouseX + p.deltaX)) ∧
    (p.b0.getLsbD 5 = true ∨ p.b2 < 128 ∨ Hidden scr.fbHeight (s.mouseY - p.deltaY + 256))

/-! ## The deltas -/

/-- The bits that the code masks out of the first byte. -/
theorem mask_ne_zero (b : BitVec 8) :
    (b &&& 0x01 ≠ 0 ↔ b.getLsbD 0 = true) ∧ (b &&& 0x02 ≠ 0 ↔ b.getLsbD 1 = true) ∧
      (b &&& 0x10 ≠ 0 ↔ b.getLsbD 4 = true) ∧ (b &&& 0x20 ≠ 0 ↔ b.getLsbD 5 = true) := by
  revert b
  decide +kernel

/-- What the code makes of a delta: the ninth bit is looked at only when it is set. -/
theorem signExtend_nineBit (sign : Bool) (low : BitVec 8) :
    (if sign then low.signExtend 32 ||| ~~~0xFF else low.signExtend 32).toInt =
      if sign = true ∨ low < 128 then nineBit sign low else nineBit sign low - 256 := by
  revert sign low
  decide +kernel

section
variable {scr : Screen} {s : Mouse} {p : MousePacket}

/-- A motion is read as nine bits, of which the sign is one, unless the sign is clear and the byte
is above 127: then it comes out 256 less. -/
theorem delta_toInt {i : Fin 4} {mask : BitVec 8} {sign : Bool}
    (hmask : s.mouseByte 0 &&& mask ≠ 0 ↔ sign = true) :
    (s.delta i mask).toInt =
      if sign = true ∨ s.mouseByte i < 128 then nineBit sign (s.mouseByte i)
      else nineBit sign (s.mouseByte i) - 256 := by
  rw [← signExtend_nineBit]
  unfold Mouse.delta
  simp only [hmask]

/-- The two tests of the source bring a coordinate onto the screen. -/
theorem clampTo_eq (side : BitVec 32) (v : Int) : clampTo side v = onScreen side v := by
  unfold clampTo onScreen
  generalize (side - 1).toInt = last
  dsimp only
  split <;> split <;> omega

/-- Where the clamped coordinates agree: the two positions are beyond the same edge. -/
theorem onScreen_sub_256 (side : BitVec 32) (v : Int) :
    onScreen side (v - 256) = onScreen side v ↔ Hidden side v := by
  unfold onScreen Hidden
  generalize (side - 1).toInt = last
  omega

/-! ## One packet -/

/-- A packet is stored byte by byte and then processed: its three or four interrupts, from a
boundary, are one step on the coordinates, the buttons and the wheel. -/
theorem packetStep_eq (scr : Screen) (h : s.mouseCycle = 0) (p : MousePacket) :
    ∃ t : Mouse, packetStep scr s p = t.process scr ∧ t.mouseX = s.mouseX ∧
      t.mouseY = s.mouseY ∧ t.mouseByte 0 = p.b0 ∧ t.mouseByte 1 = p.b1 ∧ t.mouseByte 2 = p.b2 ∧
      t.mouseHasWheel = s.mouseHasWheel ∧
      ∀ n, n < (p.bytes s.mouseHasWheel).length →
        (((p.bytes s.mouseHasWheel).take n).foldl (handleMouse scr) s).mouseCycle = n := by
  have h0 : handleMouse scr s p.b0 = { s.put 0 p.b0 with mouseCycle := 1 } := by
    unfold handleMouse
    rw [h]
    exact if_pos p.sync
  have h1 : handleMouse scr (handleMouse scr s p.b0) p.b1 =
      { (s.put 0 p.b0).put 1 p.b1 with mouseCycle := 2 } := by
    rw [h0]
    rfl
  have h2 : handleMouse scr (handleMouse scr (handleMouse scr s p.b0) p.b1) p.b2 =
      if s.mouseHasWheel then
        { ((s.put 0 p.b0).put 1 p.b1).put 2 p.b2 with mouseCycle := 3 }
      else
        Mouse.process { ((s.put 0 p.b0).put 1 p.b1).put 2 p.b2 with mouseCycle := 2 } scr := by
    rw [h1]
    rfl
  unfold packetStep MousePacket.bytes
  cases hw : s.mouseHasWheel with
  | false =>
      rw [hw, if_neg Bool.false_ne_true] at h2
      refine ⟨_, h2, rfl, rfl, rfl, rfl, rfl, hw, fun n hn => ?_⟩
      match n, hn with
      | 0, _ => exact h
      | 1, _ => exact congrArg Mouse.mouseCycle h0
      | 2, _ => exact congrArg Mouse.mouseCycle h1
  | true =>
      rw [hw, if_pos rfl] at h2
      have h3 : handleMouse scr (handleMouse scr (handleMouse scr (handleMouse scr s p.b0) p.b1)
          p.b2) p.b3 =
          Mouse.process { (((s.put 0 p.b0).put 1 p.b1).put 2 p.b2).put 3 p.b3 with
            mouseCycle := 3 } scr := by
        rw [h2]
        rfl
      refine ⟨_, h3, rfl, rfl, rfl, rfl, rfl, hw, fun n hn => ?_⟩
      match n, hn with
      | 0, _ => exact h
      | 1, _ => exact congrArg Mouse.mouseCycle h0
      | 2, _ => exact congrArg Mouse.mouseCycle h1
      | 3, _ => exact congrArg Mouse.mouseCycle h2

/-- After a whole packet the driver waits for a first byte again. -/
theorem packetStep_boundary (h : s.mouseCycle = 0) : (packetStep scr s p).mouseCycle = 0 := by
  obtain ⟨t, ht, -⟩ := packetStep_eq scr h p
  rw [ht]
  rfl

/-- A packet does what it has to do exactly when its deltas are moderate. -/
theorem motionLaw_iff (h : s.mouseCycle = 0) : MotionLaw scr s p ↔ Moderate scr s p := by
  obtain ⟨t, ht, htx, hty, h0, h1, h2, -, hinside⟩ := packetStep_eq scr h p
  obtain ⟨hleft, hright, hsignX, hsignY⟩ := mask_ne_zero p.b0
  rw [← h0] at hsignX hsignY
  have hdx := delta_toInt (i := 1) hsignX
  have hdy := delta_toInt (i := 2) hsignY
  rw [h0, h1] at hdx
  rw [h0, h2] at hdy
  have hx : (packetStep scr s p).mouseX = onScreen scr.fbWidth (s.mouseX + p.deltaX) ↔
      p.b0.getLsbD 4 = true ∨ p.b1 < 128 ∨ Hidden scr.fbWidth (s.mouseX + p.deltaX) := by
    have hmove : (packetStep scr s p).mouseX =
        onScreen scr.fbWidth (s.mouseX + (t.delta 1 0x10).toInt) := by
      rw [ht, ← htx, ← clampTo_eq]
      rfl
    rw [hmove, hdx, ← or_assoc]
    split
    · next hlow => exact iff_of_true rfl (.inl hlow)
    · next hlow =>
        rw [or_iff_right hlow, ← onScreen_sub_256, Int.add_sub_assoc]
        rfl
  have hy : (packetStep scr s p).mouseY = onScreen scr.fbHeight (s.mouseY - p.deltaY) ↔
      p.b0.getLsbD 5 = true ∨ p.b2 < 128 ∨ Hidden scr.fbHeight (s.mouseY - p.deltaY + 256) := by
    have hmove : (packetStep scr s p).mouseY =
        onScreen scr.fbHeight (s.mouseY - (t.delta 2 0x20).toInt) := by
      rw [ht, ← hty, ← clampTo_eq]
      rfl
    rw [hmove, hdy, ← or_assoc]
    split
    · next hlow => exact iff_of_true rfl (.inl hlow)
    · next hlow =>
        have hback : s.mouseY - (p.deltaY - 256) = s.mouseY - p.deltaY + 256 := by omega
        rw [or_iff_right hlow, ← onScreen_sub_256, Int.add_sub_cancel, ← hback]
        exact eq_comm
  constructor
  · exact fun law => ⟨hx.1 law.x, hy.1 law.y⟩
  · intro ⟨hmx, hmy⟩
    refine ⟨hinside, packetStep_boundary h, hx.2 hmx, hy.2 hmy, ?_, ?_⟩
    · rw [ht, ← hleft, ← h0]
      rfl
    · rw [ht, ← hright, ← h0]
      rfl

/-! ## Streams -/

/-- The stream of the packets' bytes, one interrupt each, is the stream of the packets. By
induction, from a boundary to the next. -/
theorem run_packets (scr : Screen) (ps : List MousePacket) (h : s.mouseCycle = 0) :
    run (handleMouse scr) s (ps.flatMap fun p => p.bytes s.mouseHasWheel) =
      run (packetStep scr) s ps := by
  induction ps generalizing s with
  | nil => rfl
  | cons p ps ih =>
      obtain ⟨t, ht, -, -, -, -, -, hw, -⟩ := packetStep_eq scr h p
      have hwheel : (packetStep scr s p).mouseHasWheel = s.mouseHasWheel := by
        rw [ht, ← hw]
        rfl
      rw [List.flatMap_cons, run_append, run_cons, ← ih (packetStep_boundary h), hwheel]
      rfl

/-- From a packet boundary, every packet of a stream does what it has to do exactly when the deltas
of every packet are moderate. A delta is cast to an `int8_t` and its ninth bit is looked at only
when it is set, so one of 128 to 255 comes out 256 less; only the edges of the screen can hide that.
-/
theorem mouse_packets_decode_iff (scr : Screen) (s : Mouse) (h : s.mouseCycle = 0)
    (ps : List MousePacket) :
    run (handleMouse scr) s (ps.flatMap fun p => p.bytes s.mouseHasWheel) =
        run (packetStep scr) s ps ∧
      (run (packetStep scr) s ps).mouseCycle = 0 ∧
      (RunOk (packetStep scr) (MotionLaw scr) s ps ↔
        RunOk (packetStep scr) (Moderate scr) s ps) := by
  have hstep : ∀ s p, s.mouseCycle = 0 → (packetStep scr s p).mouseCycle = 0 :=
    fun _ _ => packetStep_boundary
  refine ⟨run_packets scr ps h, run_invariant hstep ps h, ?_⟩
  exact RunOk_congr (fun s => s.mouseCycle = 0) hstep (fun _ _ => motionLaw_iff) ps h

/-- A packet that moves the mouse by `low` to the right. -/
def moveRight (low : BitVec 8) : MousePacket := ⟨0x08, low, 0, 0, by decide⟩

/-- A stream of the theorem: two slow movements, which add up to 127 columns. -/
theorem mouse_packets_decode_slow :
    RunOk (packetStep ⟨1280, 720⟩) (MotionLaw ⟨1280, 720⟩) (.static false)
      [moveRight 100, moveRight 27] := by
  refine (mouse_packets_decode_iff ⟨1280, 720⟩ (.static false) rfl
    [moveRight 100, moveRight 27]).2.2.2 ?_
  exact ⟨⟨.inr (.inl (by decide)), .inr (.inl (by decide))⟩,
    ⟨.inr (.inl (by decide)), .inr (.inl (by decide))⟩, trivial⟩

/-- A movement of 128 to the right goes 128 to the left: its byte is 0x80, which is negative as an
`int8_t`. -/
theorem mouse_fast_move_reversed :
    ¬ ∀ ps : List MousePacket,
      RunOk (packetStep ⟨1280, 720⟩) (MotionLaw ⟨1280, 720⟩) (.static false) ps := by
  intro h
  have hx := (h [moveRight 128]).1.x
  exact absurd hx (by decide)

end

end OnkenOS
