import OnkenOS.Lib.Run
import OnkenOS.Drivers.MousePackets
import OnkenOS.Gui.Fb
import OnkenOS.Gui.Pixels

/-!
# Where the cursor is drawn

`handle_mouse` moves the coordinates onto the screen whenever a packet is complete; before the
first one they are 512 and 384, on any screen. `fb_show_cursor` clips the rectangle it saves by
`fb_width` and `fb_height` and relies on coordinates that are on the screen.
`cursor_on_screen_iff` says exactly when the cursor is drawn where it may be.
-/

namespace OnkenOS

open Machine Words

/-! ## Drawing and the interrupt -/

/-- The driver, the framebuffer, and `mouse_x` once the call of `fb_show_cursor` has loaded it. The
flags are not in the source: whether a packet was complete at that moment, and whether one is
now. -/
structure CursorSystem where
  mouse : Mouse
  fb : Fb
  x : Option (Int × Bool)
  moved : Bool

/-- Before the first interrupt. -/
def CursorSystem.start (fb : Fb) : CursorSystem := ⟨.static false, fb, none, false⟩

/-- An interrupt, with the status and the data byte it reads; `ps2_init` finding a wheel; or the
next step of `shell_loop`: a redraw that leaves some contents in the back buffer, `fb_swap`, or one
of the two halves of `fb_show_cursor(mouse_x, mouse_y)`. -/
inductive CursorEvent where
  | irq12 (status data : BitVec 8)
  | foundWheel
  | redraw (backBuffer : Buf)
  | swap
  | loadX
  | showCursor

/-- The byte is the last one of a packet. -/
def Mouse.completes (m : Mouse) (status : BitVec 8) : Bool :=
  status &&& 1 ≠ 0 ∧ status &&& 0x20 ≠ 0 ∧
    (m.mouseCycle = 3 ∨ m.mouseCycle = 2 ∧ m.mouseHasWheel = false)

/-- One event. -/
def cursorStep (s : CursorSystem) : CursorEvent → CursorSystem
  | .irq12 status data =>
      { s with
        mouse := irq12Handler ⟨s.fb.fbWidth, s.fb.fbHeight⟩ s.mouse status data
        moved := s.moved || s.mouse.completes status }
  | .foundWheel => { s with mouse := { s.mouse with mouseHasWheel := true } }
  | .redraw backBuffer =>
      { s with fb := fbCommitDesktop { fbResetCursorBackup s.fb with backBuffer := backBuffer } }
  | .swap => { s with fb := fbSwap s.fb }
  | .loadX => { s with x := some (s.mouse.mouseX, s.moved) }
  | .showCursor =>
      match s.x with
      | none => s
      | some (x, _) => { s with fb := fbShowCursor s.fb x s.mouse.mouseY, x := none }

/-- The cursor is on the screen, and `fb_show_cursor` leaves a rectangle of 1 to 32 columns and rows
whose every pixel is visible. -/
structure CursorFits (s : Fb) (x y : Int) : Prop where
  onX : 0 ≤ x ∧ x < s.fbWidth.toNat
  onY : 0 ≤ y ∧ y < s.fbHeight.toNat
  width : 1 ≤ (fbShowCursor s x y).backupW.toNat ∧ (fbShowCursor s x y).backupW.toNat ≤ 32
  height : 1 ≤ (fbShowCursor s x y).backupH.toNat ∧ (fbShowCursor s x y).backupH.toNat ≤ 32
  visible : ∀ cx cy, cx < (fbShowCursor s x y).backupW.toNat →
    cy < (fbShowCursor s x y).backupH.toNat →
      s.Visible (BitVec.ofInt 32 (fbShowCursor s x y).backupX + BitVec.ofNat 32 cx).toNat
        (BitVec.ofInt 32 (fbShowCursor s x y).backupY + BitVec.ofNat 32 cy).toNat

/-- The cursor is drawn where it may be. -/
def ShowFits (s : CursorSystem) : CursorEvent → Prop
  | .showCursor => ∀ x moved, s.x = some (x, moved) → CursorFits s.fb x s.mouse.mouseY
  | _ => True

/-- A packet was complete before each of the coordinates was loaded, or the screen is large enough
for the first one; and no sum with 32 overflows. -/
def ShowSafe (s : CursorSystem) : CursorEvent → Prop
  | .showCursor => ∀ x moved, s.x = some (x, moved) →
      (moved = true ∨ 512 < s.fb.fbWidth.toNat) ∧ (s.moved = true ∨ 384 < s.fb.fbHeight.toNat) ∧
        x + 32 < 2 ^ 31 ∧ s.mouse.mouseY + 32 < 2 ^ 31
  | _ => True

/-! ## The saved rectangle -/

/-- `t` is `s` with other contents of the back buffer and the saved rectangle. -/
def SameFields (s t : Fb) : Prop := ∃ b c, t = { s with backBuffer := b, cursorBackup := c }

section
variable {s t u : Fb}

/-- No change at all is a change of the contents only. -/
theorem SameFields.refl (s : Fb) : SameFields s s := ⟨s.backBuffer, s.cursorBackup, rfl⟩

/-- Changes of the contents, one after the other, are one. -/
theorem SameFields.trans (h : SameFields s t) (h' : SameFields t u) : SameFields s u := by
  obtain ⟨_, _, rfl⟩ := h
  obtain ⟨b, c, rfl⟩ := h'
  exact ⟨b, c, rfl⟩

/-- A loop whose rounds write contents only does so as a whole. -/
theorem sameFields_forUp {n : Nat} {body : Nat → Fb → Fb}
    (h : ∀ i t, SameFields t (body i t)) (s : Fb) : SameFields s (forUp n body s) :=
  forUp_invariant (I := fun _ t => SameFields s t) (.refl s) fun i t _ ht => ht.trans (h i t)

/-- A plot writes the back buffer, or nothing. -/
theorem sameFields_fbPlot (s : Fb) (x y color : BitVec 32) : SameFields s (fbPlot s x y color) := by
  unfold fbPlot
  split
  · exact ⟨_, s.cursorBackup, rfl⟩
  · exact .refl s

/-- The triangle is plots. -/
theorem sameFields_drawArrow (s : Fb) (x y : Int) : SameFields s (drawArrow s x y) := by
  refine sameFields_forUp (fun cy t => sameFields_forUp (fun cx t => ?_) t) s
  split
  · split <;> exact sameFields_fbPlot _ _ _ _
  · exact .refl t

/-- The tail is plots, or nothing. -/
theorem sameFields_drawTail (s : Fb) (x y : Int) : SameFields s (drawTail s x y) := by
  unfold drawTail
  split
  · have hplots : ∀ (ps : List (Nat × Nat × BitVec 32)) (t : Fb),
        SameFields t (ps.foldl (fun s p => plotAt s x y p.1 p.2.1 p.2.2) t) := by
      intro ps
      induction ps with
      | nil => exact SameFields.refl
      | cons p ps ih => exact fun t => (sameFields_fbPlot _ _ _ _).trans (ih _)
    exact hplots tailPlots s
  · exact .refl s

/-- The loops that save the rectangle write `cursor_backup` only. -/
theorem sameFields_saveBackup (s : Fb) : SameFields s (saveBackup s) :=
  sameFields_forUp (fun _ t => sameFields_forUp (fun _ t => ⟨t.backBuffer, _, rfl⟩) t) s

/-- `fb_hide_cursor` may change `backup_x` too: minus one marks that no rectangle is saved. -/
theorem fbHideCursor_fields (s : Fb) :
    ∃ v, SameFields { s with backupX := v } (fbHideCursor s) := by
  unfold fbHideCursor
  split
  · exact ⟨s.backupX, .refl s⟩
  · have hrestore : SameFields s (restoreBackup s) :=
      sameFields_forUp (fun _ t => sameFields_forUp (fun _ t => ⟨_, t.cursorBackup, rfl⟩) t) s
    obtain ⟨b, c, he⟩ := hrestore
    exact ⟨-1, b, c, by rw [he]⟩

/-- Where `fb_show_cursor` leaves its rectangle: at the coordinates it was called with, clipped to
the screen. -/
theorem fbShowCursor_fields (s : Fb) (x y : Int) :
    SameFields (placeBackup s x y) (fbShowCursor s x y) := by
  obtain ⟨v, b, c, he⟩ := fbHideCursor_fields s
  have hplace : SameFields (placeBackup s x y) (placeBackup (fbHideCursor s) x y) := by
    rw [he]
    exact ⟨b, c, rfl⟩
  exact ((hplace.trans (sameFields_saveBackup _)).trans (sameFields_drawArrow _ x y)).trans
    (sameFields_drawTail _ x y)

end

/-! ## Along one side -/

section
variable {side : BitVec 32} {pos : Int}

/-- `backup_w`, and likewise `backup_h`. -/
def clipped (side : BitVec 32) (pos : Int) : BitVec 32 :=
  if intAdd pos 32 > side.toInt then side - BitVec.ofInt 32 pos else 32

/-- A side of the screen is an `int`. -/
theorem toInt_side (hside : side.toNat < 2 ^ 31) : side.toInt = side.toNat := by
  rw [BitVec.toInt_eq_toNat_cond, if_pos (by omega)]

/-- A coordinate on the screen is the same number as an `int` and as a `uint32_t`. -/
theorem toNat_ofInt_pos (h : 0 ≤ pos) (hlt : pos < side.toNat) :
    (BitVec.ofInt 32 pos).toNat = pos.toNat := by
  have hfit := side.isLt
  rw [BitVec.toNat_ofInt]
  omega

/-- Without an overflow the rectangle ends at the side or after 32 pixels. -/
theorem clipped_eq (hside : side.toNat < 2 ^ 31) (h : 0 ≤ pos) (hlt : pos < side.toNat)
    (hfit : pos + 32 < 2 ^ 31) : (clipped side pos).toNat = min 32 (side.toNat - pos.toNat) := by
  have hpos := toNat_ofInt_pos h hlt
  rw [clipped, intAdd_eq (by omega) hfit, toInt_side hside]
  split
  · bv_omega
  · change 32 = _
    omega

/-- With an overflow it is not clipped: the sum is negative, so the comparison with the side fails.
-/
theorem clipped_overflow (hside : side.toNat < 2 ^ 31) (hlt : pos < side.toNat)
    (hfit : 2 ^ 31 ≤ pos + 32) : clipped side pos = 32 := by
  have hadd : intAdd pos 32 = pos + 32 - 2 ^ 32 := by
    have hwrap : (pos + 32 - 2 ^ 32).bmod (2 ^ 32) = (pos + 32).bmod (2 ^ 32) :=
      Int.sub_mul_bmod_self_right (pos + 32) 1 (2 ^ 32)
    rw [intAdd, ← hwrap]
    refine Int.bmod_eq_of_le ?_ ?_ <;> omega
  rw [clipped, hadd, toInt_side hside, if_neg (by omega)]

/-- The rectangle has 1 to 32 pixels along the side, all of them visible, exactly when nothing
overflows. -/
theorem clipped_fits_iff (hside : side.toNat < 2 ^ 31) (h : 0 ≤ pos) (hlt : pos < side.toNat) :
    (1 ≤ (clipped side pos).toNat ∧ (clipped side pos).toNat ≤ 32 ∧
      ∀ c, c < (clipped side pos).toNat →
        (BitVec.ofInt 32 pos + BitVec.ofNat 32 c).toNat < side.toNat) ↔ pos + 32 < 2 ^ 31 := by
  have hpos := toNat_ofInt_pos h hlt
  constructor
  · intro ⟨_, _, hall⟩
    by_contra hover
    rw [clipped_overflow hside hlt (by omega)] at hall
    have hlast := hall 31 (by decide)
    rw [BitVec.toNat_add, hpos, BitVec.toNat_ofNat] at hlast
    omega
  · intro hfit
    rw [clipped_eq hside h hlt hfit]
    refine ⟨by omega, by omega, fun c hc => ?_⟩
    rw [BitVec.toNat_add, hpos, BitVec.toNat_ofNat]
    omega

end

/-! ## One call -/

section
variable {s : Fb} {x y : Int}

/-- On the screen the cursor fits exactly when no sum with 32 overflows. -/
theorem cursorFits_iff (hw : s.fbWidth.toNat < 2 ^ 31) (hh : s.fbHeight.toNat < 2 ^ 31) :
    CursorFits s x y ↔ (0 ≤ x ∧ x < s.fbWidth.toNat) ∧ (0 ≤ y ∧ y < s.fbHeight.toNat) ∧
      x + 32 < 2 ^ 31 ∧ y + 32 < 2 ^ 31 := by
  obtain ⟨b, c, he⟩ := fbShowCursor_fields s x y
  have hfields (hx : 0 ≤ x) (hy : 0 ≤ y) : (fbShowCursor s x y).backupX = x ∧
      (fbShowCursor s x y).backupY = y ∧ (fbShowCursor s x y).backupW = clipped s.fbWidth x ∧
      (fbShowCursor s x y).backupH = clipped s.fbHeight y := by
    have hx' : (if x < 0 then 0 else x) = x := if_neg (by omega)
    have hy' : (if y < 0 then 0 else y) = y := if_neg (by omega)
    rw [he]
    simp only [placeBackup, hx', hy', clipped, and_self]
  constructor
  · intro hfits
    obtain ⟨hX, hY, hW, hH⟩ := hfields hfits.onX.1 hfits.onY.1
    refine ⟨hfits.onX, hfits.onY, ?_, ?_⟩
    · refine (clipped_fits_iff hw hfits.onX.1 hfits.onX.2).1
        ⟨hW ▸ hfits.width.1, hW ▸ hfits.width.2, fun cx hcx => ?_⟩
      have hvis := (hfits.visible cx 0 (hW ▸ hcx) hfits.height.1).1
      rw [hX] at hvis
      exact hvis
    · refine (clipped_fits_iff hh hfits.onY.1 hfits.onY.2).1
        ⟨hH ▸ hfits.height.1, hH ▸ hfits.height.2, fun cy hcy => ?_⟩
      have hvis := (hfits.visible 0 cy hfits.width.1 (hH ▸ hcy)).2
      rw [hY] at hvis
      exact hvis
  · intro ⟨hx, hy, hfitx, hfity⟩
    obtain ⟨hX, hY, hW, hH⟩ := hfields hx.1 hy.1
    obtain ⟨hw1, hw32, hcols⟩ := (clipped_fits_iff hw hx.1 hx.2).2 hfitx
    obtain ⟨hh1, hh32, hrows⟩ := (clipped_fits_iff hh hy.1 hy.2).2 hfity
    refine ⟨hx, hy, ?_, ?_, fun cx cy hcx hcy => ?_⟩
    · rw [hW]
      exact ⟨hw1, hw32⟩
    · rw [hH]
      exact ⟨hh1, hh32⟩
    · rw [hW] at hcx
      rw [hH] at hcy
      rw [hX, hY]
      exact ⟨hcols cx hcx, hrows cy hcy⟩

end

/-! ## The interrupt -/

section
variable {m : Mouse} {scr : Screen}

/-- A coordinate that has been clamped is on the screen. -/
theorem clampTo_range {side : BitVec 32} (hpos : 1 ≤ side.toNat) (hside : side.toNat < 2 ^ 31)
    (v : Int) : 0 ≤ clampTo side v ∧ clampTo side v < side.toNat := by
  have hlast : (side - 1).toInt = side.toNat - 1 := by
    rw [toInt_side (by bv_omega)]
    bv_omega
  rw [clampTo_eq, onScreen, hlast]
  omega

/-- A byte that does not complete a packet leaves the coordinates; one that does moves them as
`process` says. -/
theorem handleMouse_cases (scr : Screen) (m : Mouse) (data : BitVec 8) :
    (¬ (m.mouseCycle = 3 ∨ m.mouseCycle = 2 ∧ m.mouseHasWheel = false) ∧
      (handleMouse scr m data).mouseX = m.mouseX ∧ (handleMouse scr m data).mouseY = m.mouseY) ∨
    ((m.mouseCycle = 3 ∨ m.mouseCycle = 2 ∧ m.mouseHasWheel = false) ∧
      ∃ t : Mouse, handleMouse scr m data = t.process scr) := by
  unfold handleMouse
  match m.mouseCycle with
  | 0 =>
      refine .inl ⟨by simp, ?_⟩
      change (if data &&& 0x08 ≠ 0 then { m.put 0 data with mouseCycle := 1 } else m).mouseX = _ ∧
        (if data &&& 0x08 ≠ 0 then { m.put 0 data with mouseCycle := 1 } else m).mouseY = _
      split <;> exact ⟨rfl, rfl⟩
  | 1 => exact .inl ⟨by simp, rfl, rfl⟩
  | 2 =>
      cases hwheel : m.mouseHasWheel with
      | true => exact .inl ⟨by simp, rfl, rfl⟩
      | false => exact .inr ⟨.inr ⟨rfl, rfl⟩, _, rfl⟩
  | 3 => exact .inr ⟨.inl rfl, _, rfl⟩
  | n + 4 => exact .inl ⟨by simp, rfl, rfl⟩

/-- The last byte of a packet moves the mouse, and no other byte does. -/
theorem irq12Handler_cases (scr : Screen) (m : Mouse) (status data : BitVec 8) :
    (m.completes status = false ∧ (irq12Handler scr m status data).mouseX = m.mouseX ∧
      (irq12Handler scr m status data).mouseY = m.mouseY) ∨
    (m.completes status = true ∧
      ∃ t : Mouse, irq12Handler scr m status data = t.process scr) := by
  unfold irq12Handler Mouse.completes
  rw [decide_eq_false_iff_not, decide_eq_true_iff]
  by_cases hfull : status &&& 1 ≠ 0
  · by_cases hmouse : status &&& 0x20 ≠ 0
    · rw [if_pos hfull, if_pos hmouse, and_iff_right hfull, and_iff_right hmouse]
      exact handleMouse_cases scr m data
    · rw [if_pos hfull, if_neg hmouse]
      exact .inl ⟨fun h => hmouse h.2.1, rfl, rfl⟩
  · rw [if_neg hfull]
    exact .inl ⟨fun h => hfull h.1, rfl, rfl⟩

end

/-! ## Runs -/

/-- Both coordinates are the first ones until a packet is complete, and on the screen after that;
and so was the one that is loaded. -/
structure CursorInv (s : CursorSystem) : Prop where
  width : 1 ≤ s.fb.fbWidth.toNat ∧ s.fb.fbWidth.toNat < 2 ^ 31
  height : 1 ≤ s.fb.fbHeight.toNat ∧ s.fb.fbHeight.toNat < 2 ^ 31
  first : s.moved = false → s.mouse.mouseX = 512 ∧ s.mouse.mouseY = 384
  onX : s.moved = true → 0 ≤ s.mouse.mouseX ∧ s.mouse.mouseX < s.fb.fbWidth.toNat
  onY : s.moved = true → 0 ≤ s.mouse.mouseY ∧ s.mouse.mouseY < s.fb.fbHeight.toNat
  loadedFirst : ∀ x, s.x = some (x, false) → x = 512
  loadedOn : ∀ x, s.x = some (x, true) → 0 ≤ x ∧ x < s.fb.fbWidth.toNat

section
variable {s : CursorSystem}

/-- `fb_swap` leaves the sizes of the screen. -/
theorem fbSwap_sameMode (s : Fb) : s.SameMode (fbSwap s) := by
  refine forUp_invariant (I := fun _ t => s.SameMode t) ⟨rfl, rfl, rfl⟩ fun y t _ h => ?_
  unfold fbSwapRow
  dsimp only
  split
  · exact ⟨h.width, h.height, h.pitch⟩
  · exact h

/-- `fb_show_cursor` leaves the sizes of the screen. -/
theorem fbShowCursor_sameMode (s : Fb) (x y : Int) : s.SameMode (fbShowCursor s x y) := by
  obtain ⟨b, c, he⟩ := fbShowCursor_fields s x y
  rw [he]
  exact ⟨rfl, rfl, rfl⟩

/-- Another framebuffer of the same size keeps the invariant, which reads nothing else of it. -/
theorem CursorInv.withFb (h : CursorInv s) {fb : Fb} (hmode : s.fb.SameMode fb) :
    CursorInv { s with fb := fb } where
  width := by rw [hmode.width]; exact h.width
  height := by rw [hmode.height]; exact h.height
  first := h.first
  onX := by rw [hmode.width]; exact h.onX
  onY := by rw [hmode.height]; exact h.onY
  loadedFirst := h.loadedFirst
  loadedOn := by rw [hmode.width]; exact h.loadedOn

/-- A byte of the mouse keeps the invariant: the coordinates move only with a complete packet, which
clamps them to the screen. -/
theorem CursorInv.irq12 (h : CursorInv s) (status data : BitVec 8) :
    CursorInv (cursorStep s (.irq12 status data)) := by
  rw [cursorStep]
  rcases irq12Handler_cases ⟨s.fb.fbWidth, s.fb.fbHeight⟩ s.mouse status data with
    ⟨hinside, hx, hy⟩ | ⟨hlast, t, he⟩
  · rw [hinside, Bool.or_false]
    exact ⟨h.width, h.height, fun hm => ⟨hx.trans (h.first hm).1, hy.trans (h.first hm).2⟩,
      fun hm => hx ▸ h.onX hm, fun hm => hy ▸ h.onY hm, h.loadedFirst, h.loadedOn⟩
  · rw [hlast, Bool.or_true, he]
    exact ⟨h.width, h.height, nofun,
      fun _ => clampTo_range h.width.1 h.width.2 _,
      fun _ => clampTo_range h.height.1 h.height.2 _, h.loadedFirst, h.loadedOn⟩

/-- Every event keeps the invariant. Only a byte of the mouse moves the coordinates, and only
`ps2_init` finds a wheel. -/
theorem CursorInv.step (h : CursorInv s) (e : CursorEvent) : CursorInv (cursorStep s e) := by
  cases e with
  | irq12 status data => exact h.irq12 status data
  | foundWheel => exact ⟨h.width, h.height, h.first, h.onX, h.onY, h.loadedFirst, h.loadedOn⟩
  | redraw backBuffer => exact h.withFb ⟨rfl, rfl, rfl⟩
  | swap => exact h.withFb (fbSwap_sameMode s.fb)
  | loadX =>
      refine ⟨h.width, h.height, h.first, h.onX, h.onY, fun x hx => ?_, fun x hx => ?_⟩
      · obtain ⟨rfl, hm⟩ := Prod.mk.inj (Option.some.inj hx)
        exact (h.first hm).1
      · obtain ⟨rfl, hm⟩ := Prod.mk.inj (Option.some.inj hx)
        exact h.onX hm
  | showCursor =>
      rw [cursorStep]
      cases s.x with
      | none => exact h
      | some p =>
          have hshow := h.withFb (fbShowCursor_sameMode s.fb p.1 s.mouse.mouseY)
          exact ⟨hshow.width, hshow.height, hshow.first, hshow.onX, hshow.onY, nofun, nofun⟩

/-- A coordinate that is the first one or on the screen. -/
theorem onScreen_iff {side first : Nat} {pos : Int} {moved : Bool}
    (hfirst : moved = false → pos = first) (hon : moved = true → 0 ≤ pos ∧ pos < side) :
    (0 ≤ pos ∧ pos < side) ↔ moved = true ∨ first < side := by
  cases moved with
  | true => exact iff_of_true (hon rfl) (.inl rfl)
  | false =>
      rw [hfirst rfl]
      simp

/-- In a state that is reached, showing the cursor is safe exactly under the condition: a packet
came before each load, or the screen is large enough for the start at 512, 384. -/
theorem showFits_iff (h : CursorInv s) (e : CursorEvent) : ShowFits s e ↔ ShowSafe s e := by
  cases e with
  | showCursor =>
      refine forall_congr' fun x => forall_congr' fun moved => forall_congr' fun hx => ?_
      have hfirst : moved = false → x = (512 : Nat) := fun hm => h.loadedFirst x (hm ▸ hx)
      have hon : moved = true → 0 ≤ x ∧ x < s.fb.fbWidth.toNat :=
        fun hm => h.loadedOn x (hm ▸ hx)
      have hfirst' : s.moved = false → s.mouse.mouseY = (384 : Nat) := fun hm => (h.first hm).2
      rw [cursorFits_iff h.width.2 h.height.2, onScreen_iff hfirst hon,
        onScreen_iff hfirst' h.onY]
  | irq12 | foundWheel | redraw | swap | loadX => exact Iff.rfl

end

/-- On every screen of sides from 1 to below `2 ^ 31`, for every stream of bytes and every order of
interrupts and redraws: the cursor is always drawn on the screen, with a saved rectangle of visible
pixels, exactly if each coordinate was loaded after a packet was complete or is that of the start
on a screen that is larger, and adding 32 to it does not overflow. -/
theorem cursor_on_screen_iff (fb : Fb) (hw : 1 ≤ fb.fbWidth.toNat ∧ fb.fbWidth.toNat < 2 ^ 31)
    (hh : 1 ≤ fb.fbHeight.toNat ∧ fb.fbHeight.toNat < 2 ^ 31) (es : List CursorEvent) :
    RunOk cursorStep ShowFits (.start fb) es ↔ RunOk cursorStep ShowSafe (.start fb) es := by
  have hstart : CursorInv (.start fb) :=
    ⟨hw, hh, fun _ => ⟨rfl, rfl⟩, nofun, nofun, nofun, nofun⟩
  exact RunOk_congr CursorInv (fun _ e h => h.step e) (fun _ e h => showFits_iff h e) es hstart

/-- A packet moves the cursor onto a screen of 320 by 200 before it is drawn there. -/
theorem cursor_on_screen_iff_packet :
    RunOk cursorStep ShowFits (.start (screenOf 320 200))
      [.irq12 0x21 0x08, .irq12 0x21 0x00, .irq12 0x21 0x00, .loadX, .showCursor] := by
  refine (cursor_on_screen_iff (screenOf 320 200) ⟨by decide, by decide⟩ ⟨by decide, by decide⟩
    [.irq12 0x21 0x08, .irq12 0x21 0x00, .irq12 0x21 0x00, .loadX, .showCursor]).2
    ⟨trivial, trivial, trivial, trivial, fun x moved hx => ?_, trivial⟩
  obtain ⟨rfl, rfl⟩ := Prod.mk.inj (Option.some.inj hx)
  exact ⟨.inl (by decide), .inl (by decide), by decide, by decide⟩

/-- Before the first packet the cursor is outside a screen of 320 by 200. -/
theorem cursor_off_screen :
    ¬ ∀ (fb : Fb) (es : List CursorEvent), 1 ≤ fb.fbWidth.toNat ∧ fb.fbWidth.toNat < 2 ^ 31 →
      1 ≤ fb.fbHeight.toNat ∧ fb.fbHeight.toNat < 2 ^ 31 →
        RunOk cursorStep ShowFits (.start fb) es := by
  intro h
  have hrun := h (screenOf 320 200) [.loadX, .showCursor] ⟨by decide, by decide⟩
    ⟨by decide, by decide⟩
  have hfits := hrun.2.1 512 false rfl
  exact absurd hfits.onX.2 (by decide)

end OnkenOS
