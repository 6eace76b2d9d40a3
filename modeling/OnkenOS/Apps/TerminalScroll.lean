import Mathlib.Algebra.Ring.Int.Defs
import OnkenOS.Apps.TerminalDraw
import OnkenOS.Drivers.MousePackets

/-!
# Scroll motion from the interrupt to the terminal

The mouse interrupt stores the wheel motion of a packet into `mouse_scroll_delta`; `terminal_draw`
tests it, adds it to the offset and clears it, and a byte of the mouse may arrive between any two
of these. A packet replaces what is still pending, and what it leaves between the addition and the
clear is cleared unread. `scroll_conserved_iff` says exactly when no motion is lost.
-/

namespace OnkenOS

open Machine

/-- How far `terminal_draw` is with the wheel motion. -/
inductive DrawPhase where
  /-- Outside, or before the test. -/
  | idle
  /-- Behind `mouse_scroll_delta != 0`. -/
  | tested
  /-- Behind `term_scroll_offset += mouse_scroll_delta * 3`. -/
  | added
  /-- Behind `mouse_scroll_delta = 0`, or behind the test that failed. -/
  | cleared
deriving DecidableEq

/-- The packets that a mouse with a wheel has still to send, with the number of bytes it has sent
of the first one; the driver; and the terminal, in the active window. The last two fields are not
in the source: the packets that have arrived, and the sum of the motions added to the offset. -/
structure ScrollSystem where
  packets : List MousePacket
  sent : Nat
  mouse : Mouse
  term : Terminal
  phase : DrawPhase
  received : List MousePacket
  consumed : Int

/-- A mouse that is going to send the packets, before the first interrupt. -/
def ScrollSystem.start (packets : List MousePacket) (t : Terminal) : ScrollSystem :=
  ⟨packets, 0, .static true, t, .idle, [], 0⟩

/-- The next byte of the mouse arrives, or `terminal_draw` makes its next access. -/
inductive ScrollEvent where
  | irq12
  | draw (h : BitVec 32)

/-- The wheel motion of a packet: the low four bits of its last byte, a signed number. -/
def MousePacket.wheel (p : MousePacket) : Int := (p.b3.setWidth 4).toInt

/-- The next byte goes to `irq12_handler`, with a status that says it is one of the mouse. -/
def irq12Next (scr : Screen) (s : ScrollSystem) : ScrollSystem :=
  match s.packets with
  | [] => s
  | p :: packets =>
      let s' := { s with mouse := irq12Handler scr s.mouse 0x21 ((p.bytes true).getD s.sent 0) }
      if s.sent < 3 then { s' with sent := s.sent + 1 }
      else { s' with packets := packets, sent := 0, received := s.received ++ [p] }

/-- The next access of `terminal_draw`, of a window of the height `h`. -/
def drawNext (s : ScrollSystem) (h : BitVec 32) : ScrollSystem :=
  match s.phase with
  | .idle =>
      if s.mouse.mouseScrollDelta ≠ 0 then { s with phase := .tested }
      else { s with phase := .cleared }
  | .tested =>
      { s with
        term := addScroll s.term s.mouse.mouseScrollDelta
        phase := .added
        consumed := s.consumed + s.mouse.mouseScrollDelta.toInt }
  | .added => { s with mouse := { s.mouse with mouseScrollDelta := 0 }, phase := .cleared }
  | .cleared => { s with term := clampScroll s.term h, phase := .idle }

/-- One event. -/
def scrollStep (scr : Screen) (s : ScrollSystem) : ScrollEvent → ScrollSystem
  | .irq12 => irq12Next scr s
  | .draw h => drawNext s h

/-- The motion that is still to be added: none once it is added, even before the clear. -/
def ScrollSystem.pending (s : ScrollSystem) : Int :=
  if s.phase = .added then 0 else s.mouse.mouseScrollDelta.toInt

/-- What is added and what is pending are the motions of all packets, turned around. -/
def Conserved (s : ScrollSystem) : Prop :=
  s.consumed + s.pending = (s.received.map fun p => -p.wheel).sum

instance (s : ScrollSystem) : Decidable (Conserved s) := inferInstanceAs (Decidable (_ = _))

/-- The byte does not complete a packet, or the motion before it is already added and cleared, or
it has none and comes between the addition and the clear. -/
def ScrollSafe (s : ScrollSystem) : ScrollEvent → Prop
  | .irq12 => ∀ p packets, s.packets = p :: packets → s.sent = 3 →
      if s.phase = .added then p.wheel = 0 else s.mouse.mouseScrollDelta = 0
  | .draw _ => True

/-- The driver has stored the bytes that the mouse has sent. -/
structure Aligned (s : ScrollSystem) : Prop where
  cycle : s.mouse.mouseCycle = s.sent
  sent_le : s.sent ≤ 3
  wheel : s.mouse.mouseHasWheel = true

section
variable {s : ScrollSystem} {m : Mouse} (scr : Screen) (p : MousePacket)

/-! ## The interrupt -/

/-- A byte before the last one is stored, and the wheel motion stays. -/
theorem handleMouse_inside (hwheel : m.mouseHasWheel = true) (hcycle : m.mouseCycle < 3) :
    (handleMouse scr m ((p.bytes true).getD m.mouseCycle 0)).mouseCycle = m.mouseCycle + 1 ∧
      (handleMouse scr m ((p.bytes true).getD m.mouseCycle 0)).mouseHasWheel = true ∧
      (handleMouse scr m ((p.bytes true).getD m.mouseCycle 0)).mouseScrollDelta =
        m.mouseScrollDelta := by
  unfold handleMouse
  match hn : m.mouseCycle, hcycle with
  | 0, _ =>
      rw [if_pos (show (p.bytes true).getD 0 0 &&& 0x08 ≠ 0 from p.sync)]
      exact ⟨rfl, hwheel, rfl⟩
  | 1, _ => exact ⟨rfl, hwheel, rfl⟩
  | 2, _ =>
      dsimp only
      rw [if_pos hwheel]
      exact ⟨rfl, hwheel, rfl⟩

/-- The last byte of a packet leaves its wheel motion, turned around. -/
theorem handleMouse_last (hwheel : m.mouseHasWheel = true) (hcycle : m.mouseCycle = 3) :
    (handleMouse scr m p.b3).mouseCycle = 0 ∧ (handleMouse scr m p.b3).mouseHasWheel = true ∧
      (handleMouse scr m p.b3).mouseScrollDelta.toInt = -p.wheel := by
  have hlast : handleMouse scr m p.b3 = (m.put 3 p.b3).process scr := by
    unfold handleMouse
    rw [hcycle]
    rfl
  have hdelta : ((m.put 3 p.b3).process scr).mouseScrollDelta = -(m.put 3 p.b3).wheelDelta :=
    if_pos ⟨hwheel, hcycle⟩
  have hneg : ∀ b : BitVec 8, (-(if b &&& 0x08 ≠ 0 then b &&& 0x0F ||| ~~~0x0F else
      b &&& 0x0F)).toInt = -(b.setWidth 4).toInt := by decide +kernel
  rw [hlast, hdelta]
  exact ⟨rfl, hwheel, hneg p.b3⟩

/-- What a byte of the mouse does: it is stored, or it completes a packet, whose motion replaces the
one that was pending. -/
theorem irq12Next_cases (h : Aligned s) :
    (s.packets = [] ∧ irq12Next scr s = s) ∨
    (∃ m : Mouse, s.sent < 3 ∧ m.mouseCycle = s.sent + 1 ∧ m.mouseHasWheel = true ∧
      m.mouseScrollDelta = s.mouse.mouseScrollDelta ∧
      irq12Next scr s = { s with mouse := m, sent := s.sent + 1 }) ∨
    ∃ (p : MousePacket) (packets : List MousePacket) (m : Mouse), s.packets = p :: packets ∧
      s.sent = 3 ∧ m.mouseCycle = 0 ∧ m.mouseHasWheel = true ∧
      m.mouseScrollDelta.toInt = -p.wheel ∧
      irq12Next scr s =
        { s with mouse := m, packets := packets, sent := 0, received := s.received ++ [p] } := by
  obtain ⟨hcycle, hle, hwheel⟩ := h
  unfold irq12Next
  cases hpackets : s.packets with
  | nil => exact .inl ⟨rfl, rfl⟩
  | cons p packets =>
      dsimp only
      have hbyte : irq12Handler scr s.mouse 0x21 ((p.bytes true).getD s.sent 0) =
          handleMouse scr s.mouse ((p.bytes true).getD s.sent 0) := rfl
      rw [hbyte]
      by_cases hsent : s.sent < 3
      · obtain ⟨hnext, hwheel', hdelta⟩ :=
          handleMouse_inside scr p hwheel (hcycle ▸ hsent)
        rw [hcycle] at hnext hwheel' hdelta
        rw [if_pos hsent]
        exact .inr (.inl ⟨_, hsent, hnext, hwheel', hdelta, rfl⟩)
      · have hlast : s.sent = 3 := by omega
        obtain ⟨hnext, hwheel', hdelta⟩ :=
          handleMouse_last scr p hwheel (hcycle.trans hlast)
        rw [if_neg hsent, hlast]
        exact .inr (.inr ⟨p, packets, _, rfl, rfl, hnext, hwheel', hdelta, rfl⟩)

/-! ## One event -/

/-- Every event keeps it: a packet that is complete starts the next one at its first byte. -/
theorem Aligned.step (h : Aligned s) (e : ScrollEvent) : Aligned (scrollStep scr s e) := by
  cases e with
  | irq12 =>
      rcases irq12Next_cases scr h with ⟨-, he⟩ | ⟨m, hsent, hcycle, hwheel, -, he⟩ |
        ⟨_, _, m, -, -, hcycle, hwheel, -, he⟩
      · rw [scrollStep, he]
        exact h
      · rw [scrollStep, he]
        exact ⟨hcycle, hsent, hwheel⟩
      · rw [scrollStep, he]
        exact ⟨hcycle, Nat.zero_le 3, hwheel⟩
  | draw height =>
      obtain ⟨hcycle, hle, hwheel⟩ := h
      change Aligned (drawNext s height)
      unfold drawNext
      cases s.phase with
      | idle => dsimp only; split <;> exact ⟨hcycle, hle, hwheel⟩
      | tested | added | cleared => exact ⟨hcycle, hle, hwheel⟩

/-- `terminal_draw` loses nothing by itself: what it clears it has added before. -/
theorem conserved_drawNext (s : ScrollSystem) (height : BitVec 32) :
    Conserved (drawNext s height) ↔ Conserved s := by
  unfold Conserved ScrollSystem.pending drawNext
  cases s.phase with
  | idle => dsimp only; split <;> simp
  | tested => simp
  | added => simp
  | cleared => simp

/-- A byte keeps the motion exactly when it is safe: no motion is pending when its packet is
completed, or none is in it. -/
theorem conserved_irq12_iff (ha : Aligned s) (h : Conserved s) :
    Conserved (irq12Next scr s) ↔ ScrollSafe s .irq12 := by
  rcases irq12Next_cases scr ha with ⟨hnil, he⟩ | ⟨m, hsent, -, -, hdelta, he⟩ |
    ⟨p, packets, m, hpackets, hsent, -, -, hdelta, he⟩
  · rw [he]
    refine iff_of_true h fun p packets hp => ?_
    rw [hnil] at hp
    cases hp
  · have hsame : Conserved { s with mouse := m, sent := s.sent + 1 } ↔ Conserved s := by
      unfold Conserved ScrollSystem.pending
      rw [hdelta]
    rw [he, hsame]
    refine iff_of_true h fun p packets _ h3 => ?_
    omega
  · have hsafe : ScrollSafe s .irq12 ↔
        if s.phase = .added then p.wheel = 0 else s.mouse.mouseScrollDelta = 0 := by
      refine ⟨fun hs => hs p packets hpackets hsent, fun hs p' packets' hp' _ => ?_⟩
      rw [hpackets] at hp'
      cases hp'
      exact hs
    rw [he, hsafe]
    unfold Conserved ScrollSystem.pending at h ⊢
    dsimp only
    rw [List.map_append, List.sum_append, List.map_singleton, List.sum_singleton, ← h]
    split
    · omega
    · rw [hdelta]
      have hzero : s.mouse.mouseScrollDelta.toInt = 0 ↔ s.mouse.mouseScrollDelta = 0 :=
        BitVec.toInt_inj (y := 0)
      rw [← hzero]
      omega

end

/-- For every stream of packets and every order of the mouse's bytes and the accesses of
`terminal_draw`: what is added and what is pending are, after every event, the motions of the
packets that have arrived, exactly if every packet is completed when no motion is pending, or
without a motion of its own between the addition and the clear. -/
theorem scroll_conserved_iff (scr : Screen) (packets : List MousePacket) (t : Terminal)
    (es : List ScrollEvent) :
    RunOk (scrollStep scr) (fun s e => Conserved (scrollStep scr s e)) (.start packets t) es ↔
      RunOk (scrollStep scr) ScrollSafe (.start packets t) es := by
  have hstart : Aligned (.start packets t) := ⟨rfl, Nat.zero_le 3, rfl⟩
  have hstep : ∀ s e, Aligned s ∧ Conserved s →
      (Aligned (scrollStep scr s e) ∧ Conserved (scrollStep scr s e) ↔ ScrollSafe s e) := by
    intro s e ⟨ha, hc⟩
    rw [and_iff_right (ha.step scr e)]
    cases e with
    | irq12 => exact conserved_irq12_iff scr ha hc
    | draw height => exact iff_of_true ((conserved_drawNext s height).2 hc) trivial
  refine Iff.trans ?_ (RunOk_keeps_iff hstep es ⟨hstart, rfl⟩)
  exact RunOk_congr Aligned (fun _ e h => h.step scr e)
    (fun s e h => (and_iff_right (h.step scr e)).symm) es hstart

/-- A packet that turns the wheel by `low`. -/
def turnWheel (low : BitVec 8) : MousePacket := { moveRight 0 with b3 := low }

/-- The second of two packets before a redraw replaces the motion of the first. -/
theorem scroll_lost :
    ¬ ∀ (scr : Screen) (packets : List MousePacket) (t : Terminal) (es : List ScrollEvent),
      RunOk (scrollStep scr) (fun s e => Conserved (scrollStep scr s e)) (.start packets t) es := by
  intro h
  have hrun := h ⟨1280, 720⟩ [turnWheel 1, turnWheel 1] Terminal.static
    (List.replicate 7 .irq12 ++ [.irq12])
  have hlast : Conserved (run (scrollStep ⟨1280, 720⟩)
      (.start [turnWheel 1, turnWheel 1] Terminal.static) (List.replicate 8 .irq12)) :=
    ((RunOk_append _ _).1 hrun).2.1
  exact absurd hlast (by decide)

/-! ## `terminal_draw` in one piece -/

/-- Without an interrupt in between, the accesses are those of `terminal_draw`: it adds the motion
and clears it, in two steps. -/
theorem drawNext_terminalDraw {τ δ : Type} (scr : Screen) (s : ScrollSystem)
    (hs : s.phase = .idle) (w : Window τ δ) :
    ∃ n, run (scrollStep scr) s (List.replicate n (.draw w.h)) =
      { s with
        mouse := { s.mouse with
          mouseScrollDelta :=
            (terminalDraw s.term s.mouse.mouseScrollDelta true w).mouseScrollDelta }
        term := (terminalDraw s.term s.mouse.mouseScrollDelta true w).term
        consumed := s.consumed + s.mouse.mouseScrollDelta.toInt } := by
  have hpos : s.mouse.mouseScrollDelta ≠ 0 → drawNext s w.h = { s with phase := .tested } := by
    intro hne
    rw [drawNext, hs]
    exact if_pos hne
  have hneg : s.mouse.mouseScrollDelta = 0 → drawNext s w.h = { s with phase := .cleared } := by
    intro hzero
    rw [drawNext, hs]
    exact if_neg (not_not.2 hzero)
  rw [terminalDraw]
  by_cases hzero : s.mouse.mouseScrollDelta = 0
  · refine ⟨2, ?_⟩
    change drawNext (drawNext s w.h) w.h = _
    rw [hneg hzero, if_neg (fun h => h.2 hzero)]
    obtain ⟨packets, sent, ⟨x, y, left, right, cycle, bytes, wheel, delta⟩, t, phase, received,
      consumed⟩ := s
    dsimp only at hs hzero
    subst hs hzero
    simp [drawNext]
  · refine ⟨4, ?_⟩
    change drawNext (drawNext (drawNext (drawNext s w.h) w.h) w.h) w.h = _
    rw [hpos hzero, if_pos ⟨rfl, hzero⟩]
    obtain ⟨packets, sent, m, t, phase, received, consumed⟩ := s
    cases hs
    rfl

end OnkenOS
