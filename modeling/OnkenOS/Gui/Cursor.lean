import OnkenOS.Lib.Run
import OnkenOS.Gui.Pixels

/-!
# Cursor compositing

`fb_show_cursor` saves a rectangle of the back buffer, clipped to the screen, and draws the
cursor over it; `fb_hide_cursor` puts the rectangle back. `Shown` ties the back buffer, the
saved rectangle and the committed desktop together while the cursor is on the screen, `Clean`
says that the back buffer is the desktop. Both kinds of frame of `shell_loop` lead from one to
the other, so the back buffer is always the desktop with one cursor on it
(`cursor_leaves_no_trails`).
-/

namespace OnkenOS

open Words

/-! ## The sprite -/

/-- The colour of the triangle, by column and row: black along the left, the diagonal and the
last row, white inside. -/
def arrowColor (dx dy : Nat) : Option (BitVec 32) :=
  if dy < 12 ∧ dx ≤ dy then
    some (if dx = 0 ∨ dy = 11 ∨ dx = dy then 0x000000 else 0xFFFFFF)
  else none

/-- The colour of the tail, by column and row. -/
def tailColor (dx dy : Nat) : Option (BitVec 32) :=
  (tailPlots.find? fun p => p.1 == dx && p.2.1 == dy).map fun p => p.2.2

/-- The colour of the sprite at a pixel, for a cursor at `x`, `y`. The triangle is clipped by
the screen; the tail is there only if all of it is on the screen. -/
def Fb.spriteColor (s : Fb) (x y px py : Nat) : Option (BitVec 32) :=
  if x ≤ px ∧ y ≤ py then
    if py - y < 12 then arrowColor (px - x) (py - y)
    else if x + 10 < s.fbWidth.toNat ∧ y + 15 < s.fbHeight.toNat then
      tailColor (px - x) (py - y)
    else none
  else none

/-- The desktop `d` with the sprite drawn at `x`, `y`. -/
def Fb.withCursor (s : Fb) (d : Buf) (x y px py : Nat) : BitVec 32 :=
  (s.spriteColor x y px py).getD (d (s.pixel px py))

/-! ## Frames -/

/-- A frame of `shell_loop`: a full redraw, with the pixels plotted between
`fb_clear_to_wallpaper` and `fb_commit_desktop`, or a motion of the cursor. -/
inductive Frame where
  | full (plots : List (BitVec 32 × BitVec 32 × BitVec 32)) (x y : Int)
  | motion (x y : Int)

/-- Where the frame shows the cursor. -/
def Frame.pos : Frame → Int × Int
  | .full _ x y => (x, y)
  | .motion x y => (x, y)

/-- `fb_plot` for each of the pixels. -/
def plotAll (s : Fb) (plots : List (BitVec 32 × BitVec 32 × BitVec 32)) : Fb :=
  plots.foldl (fun s p => fbPlot s p.1 p.2.1 p.2.2) s

/-- A full redraw up to `fb_commit_desktop`. -/
def redraw (s : Fb) (plots : List (BitVec 32 × BitVec 32 × BitVec 32)) : Fb :=
  plotAll (fbClearToWallpaper (fbResetCursorBackup s)) plots

/-- One frame. -/
def frameStep (s : Fb) : Frame → Fb
  | .full plots x y => fbShowCursor (fbCommitDesktop (redraw s plots)) x y
  | .motion x y => fbShowCursor s x y

/-- The desktop surface that the last `fb_commit_desktop` of the frames saves, `d` if there is
none: the back buffer at that moment. -/
def lastCommitted : Fb → Buf → List Frame → Buf
  | _, d, [] => d
  | s, d, f :: fs =>
    lastCommitted (frameStep s f)
      (match f with
        | .full plots _ _ => (redraw s plots).backBuffer
        | .motion _ _ => d) fs

/-- A full redraw commits its surface; a motion of the cursor leaves the last one. -/
theorem lastCommitted_cons (s : Fb) (d : Buf) (f : Frame) (fs : List Frame) :
    lastCommitted s d (f :: fs) = lastCommitted (frameStep s f)
      (match f with
        | .full plots _ _ => (redraw s plots).backBuffer
        | .motion _ _ => d) fs := rfl

/-- Where the last of the frames shows the cursor, `p` if there is none. -/
def lastPos : Int × Int → List Frame → Int × Int
  | p, [] => p
  | _, f :: fs => lastPos f.pos fs

/-- The cursor is on the screen. -/
def Frame.OnScreen (s : Fb) (f : Frame) : Prop :=
  0 ≤ f.pos.1 ∧ f.pos.1 < s.fbWidth.toNat ∧ 0 ≤ f.pos.2 ∧ f.pos.2 < s.fbHeight.toNat

/-- Rows without padding, and a frame of fewer than `2 ^ 32` bytes. -/
structure Fb.Unpadded (s : Fb) : Prop where
  pitch : s.fbPitch.toNat = 4 * s.fbWidth.toNat
  width_pos : 1 ≤ s.fbWidth.toNat
  height_pos : 1 ≤ s.fbHeight.toNat
  fits : s.fbWidth.toNat * s.fbHeight.toNat * 4 < 2 ^ 32

section
variable {s t : Fb} {x y px py : Nat}

/-- The sprite depends on the screen mode only. -/
theorem Fb.SameMode.spriteColor (h : s.SameMode t) (x y px py : Nat) :
    t.spriteColor x y px py = s.spriteColor x y px py := by
  unfold Fb.spriteColor
  rw [h.width, h.height]

/-! ## Coordinates -/

/-- Without padding a row has as many words as pixels. -/
theorem Fb.Unpadded.stride (h : s.Unpadded) : s.fbPitch.toNat / 4 = s.fbWidth.toNat := by
  rw [h.pitch, Nat.mul_div_cancel_left _ (by decide)]

/-- Without padding the words of the visible pixels are distinct and within the back buffer. -/
theorem Fb.Unpadded.geometry (h : s.Unpadded) : s.Geometry := by
  refine ⟨Nat.le_of_eq h.stride.symm, ?_⟩
  rw [h.stride, Nat.mul_comm]
  exact Nat.lt_of_le_of_lt (Nat.le_mul_of_pos_right _ (by decide)) h.fits

/-- Both sides of the screen are far from the sign bit. -/
theorem Fb.Unpadded.sides (h : s.Unpadded) :
    s.fbWidth.toNat < 2 ^ 30 ∧ s.fbHeight.toNat < 2 ^ 30 := by
  have hw : s.fbWidth.toNat * 1 ≤ s.fbWidth.toNat * s.fbHeight.toNat :=
    Nat.mul_le_mul_left _ h.height_pos
  have hh : 1 * s.fbHeight.toNat ≤ s.fbWidth.toNat * s.fbHeight.toNat :=
    Nat.mul_le_mul_right _ h.width_pos
  have hfits := h.fits
  omega

/-- A small coordinate is the same number with a sign and without. -/
theorem toInt_of_lt {b : BitVec 32} (h : b.toNat < 2 ^ 30) : b.toInt = b.toNat := by
  rw [BitVec.toInt_eq_toNat_cond, if_pos (by omega)]

/-- The comparisons of the source are on `int`s, and the width is one. -/
theorem Fb.Unpadded.width_toInt (h : s.Unpadded) : s.fbWidth.toInt = s.fbWidth.toNat :=
  toInt_of_lt h.sides.1

/-- The height is one too. -/
theorem Fb.Unpadded.height_toInt (h : s.Unpadded) : s.fbHeight.toInt = s.fbHeight.toNat :=
  toInt_of_lt h.sides.2

/-- Near a visible pixel no sum wraps. -/
theorem intAdd_visible {side : BitVec 32} {pos d : Nat} (hside : side.toNat < 2 ^ 30)
    (hpos : pos < side.toNat) (hd : d ≤ 32) : intAdd pos d = pos + d :=
  intAdd_eq (by omega) (by omega)

/-- The index of a visible pixel is below the number of pixels. -/
theorem pixel_lt (h : s.Unpadded) (hv : s.Visible px py) :
    s.pixel px py < s.fbWidth.toNat * s.fbHeight.toNat := by
  rw [pixel_eq h.geometry hv, h.stride]
  have hrow : (py + 1) * s.fbWidth.toNat ≤ s.fbHeight.toNat * s.fbWidth.toNat :=
    Nat.mul_le_mul_right _ hv.2
  rw [Nat.add_mul, Nat.one_mul, Nat.mul_comm s.fbHeight.toNat] at hrow
  have := hv.1
  omega

/-- A whole-frame copy copies every visible pixel. -/
theorem memcpy32_frame (h : s.Unpadded) (hv : s.Visible px py) (d b : Buf) :
    memcpy32 d b 0 0 (s.fbWidth * s.fbHeight * 4) (s.pixel px py) = b (s.pixel px py) := by
  have hlt := pixel_lt h hv
  have hfits := h.fits
  have hsize : (s.fbWidth * s.fbHeight * 4).toNat / 4 = s.fbWidth.toNat * s.fbHeight.toNat := by
    rw [BitVec.toNat_mul, BitVec.toNat_mul]
    change s.fbWidth.toNat * s.fbHeight.toNat % 2 ^ 32 * 4 % 2 ^ 32 / 4 = _
    rw [Nat.mod_eq_of_lt (show s.fbWidth.toNat * s.fbHeight.toNat < 2 ^ 32 by omega),
      Nat.mod_eq_of_lt hfits, Nat.mul_div_cancel _ (by decide)]
  unfold memcpy32
  rw [copyWords_apply, toNat_div_four, hsize, if_pos ⟨Nat.zero_le _, by omega⟩]

/-! ## Drawing the sprite -/

/-- The write of one plot, if the pixel is on the screen. -/
def Fb.plotWrite (s : Fb) (px py : Nat) (c : BitVec 32) : List (Nat × BitVec 32) :=
  if px < s.fbWidth.toNat ∧ py < s.fbHeight.toNat then [(s.pixel px py, c)] else []

/-- The sum of two small coordinates does not wrap around. -/
theorem ofInt_add (x dx : Nat) :
    BitVec.ofInt 32 ((x : Int) + (dx : Int)) = BitVec.ofNat 32 (x + dx) := by
  rw [← BitVec.ofInt_natCast, Int.natCast_add]

/-- A plot near a visible pixel, as a write: the sums of small coordinates do not wrap, so the plot
is tested against the screen as a pair of numbers. -/
theorem plotAt_eq (h : s.Unpadded) (hv : s.Visible x y) {dx dy : Nat} (hdx : dx < 16)
    (hdy : dy < 16) (c : BitVec 32) (b : Buf) :
    plotAt (s.withBack b) x y dx dy c =
      s.withBack (writes (s.plotWrite (x + dx) (y + dy) c) b) := by
  have hsides := h.sides
  obtain ⟨hx, hy⟩ := hv
  unfold plotAt fbPlot Fb.plotWrite
  rw [ofInt_add, ofInt_add]
  have hcond : (BitVec.ofNat 32 (x + dx) < (s.withBack b).fbWidth ∧
      BitVec.ofNat 32 (y + dy) < (s.withBack b).fbHeight) ↔
      (x + dx < s.fbWidth.toNat ∧ y + dy < s.fbHeight.toNat) := by
    rw [BitVec.lt_def, BitVec.lt_def, BitVec.toNat_ofNat, BitVec.toNat_ofNat,
      Nat.mod_eq_of_lt (by omega), Nat.mod_eq_of_lt (by omega)]
    rfl
  by_cases hon : x + dx < s.fbWidth.toNat ∧ y + dy < s.fbHeight.toNat
  · rw [if_pos hon, if_pos (hcond.2 hon)]
    rfl
  · rw [if_neg hon, if_neg (mt hcond.1 hon)]
    rfl

/-- The writes of the triangle. -/
def Fb.arrowWrites (s : Fb) (x y : Nat) : List (Nat × BitVec 32) :=
  (List.range 12).flatMap fun cy => (List.range (cy + 1)).flatMap fun cx =>
    s.plotWrite (x + cx) (y + cy) (if cx = 0 ∨ cy = 11 ∨ cx = cy then 0x000000 else 0xFFFFFF)

/-- The loops of the triangle are its writes: those of the pixels that are on the screen, row by
row. -/
theorem drawArrow_eq (h : s.Unpadded) (hv : s.Visible x y) (b : Buf) :
    drawArrow (s.withBack b) x y = s.withBack (writes (s.arrowWrites x y) b) := by
  unfold drawArrow Fb.arrowWrites
  rw [← forUp_writes]
  refine forUp_component s.withBack _ ?_ b
  intro cy b hcy
  rw [← forUp_writes]
  refine forUp_component s.withBack _ ?_ b
  intro cx b hcx
  have hcond : (intAdd x cx < (s.withBack b).fbWidth.toInt ∧
      intAdd y cy < (s.withBack b).fbHeight.toInt) ↔
      (x + cx < s.fbWidth.toNat ∧ y + cy < s.fbHeight.toNat) := by
    change (intAdd x cx < s.fbWidth.toInt ∧ intAdd y cy < s.fbHeight.toInt) ↔ _
    rw [intAdd_visible h.sides.1 hv.1 (by omega), intAdd_visible h.sides.2 hv.2 (by omega),
      h.width_toInt, h.height_toInt]
    omega
  by_cases hon : x + cx < s.fbWidth.toNat ∧ y + cy < s.fbHeight.toNat
  · rw [if_pos (hcond.2 hon)]
    split
    · exact plotAt_eq h hv (by omega) (by omega) _ b
    · exact plotAt_eq h hv (by omega) (by omega) _ b
  · rw [if_neg (mt hcond.1 hon), Fb.plotWrite, if_neg hon, writes_nil]

/-- The writes of the tail. -/
def Fb.tailWrites (s : Fb) (x y : Nat) : List (Nat × BitVec 32) :=
  if x + 10 < s.fbWidth.toNat ∧ y + 15 < s.fbHeight.toNat then
    tailPlots.flatMap fun p => s.plotWrite (x + p.1) (y + p.2.1) p.2.2
  else []

/-- Where the plots of the tail are, from the corner of the cursor on: below the triangle, in at
most eleven columns. -/
theorem tailPlots_lt : ∀ p ∈ tailPlots, p.1 ≤ 10 ∧ 12 ≤ p.2.1 ∧ p.2.1 ≤ 15 := by decide

/-- The plots of the tail are its writes, all of them or none: the source tests the last corner
first. -/
theorem drawTail_eq (h : s.Unpadded) (hv : s.Visible x y) (b : Buf) :
    drawTail (s.withBack b) x y = s.withBack (writes (s.tailWrites x y) b) := by
  have hcond : (intAdd x 10 < (s.withBack b).fbWidth.toInt ∧
      intAdd y 15 < (s.withBack b).fbHeight.toInt) ↔
      (x + 10 < s.fbWidth.toNat ∧ y + 15 < s.fbHeight.toNat) := by
    change (intAdd x (10 : Nat) < s.fbWidth.toInt ∧ intAdd y (15 : Nat) < s.fbHeight.toInt) ↔ _
    rw [intAdd_visible h.sides.1 hv.1 (by decide), intAdd_visible h.sides.2 hv.2 (by decide),
      h.width_toInt, h.height_toInt]
    omega
  have hplots : ∀ (ps : List (Nat × Nat × BitVec 32)) (b : Buf),
      (∀ p ∈ ps, p.1 ≤ 10 ∧ 12 ≤ p.2.1 ∧ p.2.1 ≤ 15) →
      ps.foldl (fun s p => plotAt s x y p.1 p.2.1 p.2.2) (s.withBack b) =
        s.withBack (writes (ps.flatMap fun p => s.plotWrite (x + p.1) (y + p.2.1) p.2.2) b) := by
    intro ps
    induction ps with
    | nil => intro b _; rfl
    | cons p ps ih =>
        intro b hps
        obtain ⟨hp1, -, hp2⟩ := hps p List.mem_cons_self
        rw [List.foldl_cons, plotAt_eq h hv (by omega) (by omega),
          ih _ fun q hq => hps q (List.mem_cons_of_mem _ hq), List.flatMap_cons, writes_append]
  unfold drawTail Fb.tailWrites
  by_cases hon : x + 10 < s.fbWidth.toNat ∧ y + 15 < s.fbHeight.toNat
  · rw [if_pos (hcond.2 hon), if_pos hon]
    exact hplots tailPlots b tailPlots_lt
  · rw [if_neg (mt hcond.1 hon), if_neg hon, writes_nil]

/-- The write of a visible pixel, found among the writes of a plot. -/
theorem mem_plotWrite (h : s.Unpadded) (hp : s.Visible px py) {qx qy : Nat} {c c' : BitVec 32} :
    (s.pixel px py, c) ∈ s.plotWrite qx qy c' ↔ px = qx ∧ py = qy ∧ c = c' := by
  unfold Fb.plotWrite
  constructor
  · intro hmem
    by_cases hq : qx < s.fbWidth.toNat ∧ qy < s.fbHeight.toNat
    · rw [if_pos hq, List.mem_singleton, Prod.mk.injEq] at hmem
      obtain ⟨rfl, rfl⟩ := pixel_inj h.geometry hp hq hmem.1
      exact ⟨rfl, rfl, hmem.2⟩
    · rw [if_neg hq] at hmem
      cases hmem
  · rintro ⟨rfl, rfl, rfl⟩
    rw [if_pos ⟨hp.1, hp.2⟩]
    exact List.mem_singleton_self _

/-- The triangle covers the pixels on and below the diagonal of its twelve rows, with a black edge.
-/
theorem arrowColor_eq_some {dx dy : Nat} {c : BitVec 32} :
    arrowColor dx dy = some c ↔ dy < 12 ∧ dx ≤ dy ∧
      c = if dx = 0 ∨ dy = 11 ∨ dx = dy then 0x000000 else 0xFFFFFF := by
  unfold arrowColor
  by_cases h : dy < 12 ∧ dx ≤ dy
  · rw [if_pos h, Option.some.injEq, eq_comm]
    exact ⟨fun hc => ⟨h.1, h.2, hc⟩, fun hc => hc.2.2⟩
  · rw [if_neg h]
    exact ⟨nofun, fun hc => absurd ⟨hc.1, hc.2.1⟩ h⟩

/-- The tail has a colour where one of its plots is. -/
theorem tailColor_eq_some {dx dy : Nat} {c : BitVec 32} :
    tailColor dx dy = some c ↔ (dx, dy, c) ∈ tailPlots := by
  have hfind : ∀ p ∈ tailPlots, tailColor p.1 p.2.1 = some p.2.2 := by decide
  constructor
  · intro h
    obtain ⟨p, hp, hc⟩ := Option.map_eq_some_iff.1 h
    have hmem := List.mem_of_find?_eq_some hp
    have hkey := List.find?_some hp
    rw [Bool.and_eq_true, beq_iff_eq, beq_iff_eq] at hkey
    obtain ⟨rfl, rfl⟩ := hkey
    exact hc ▸ hmem
  · exact hfind (dx, dy, c)

/-- A write of the triangle reaches a visible pixel exactly where the triangle covers it: its own
loops skip what is off the screen. -/
theorem mem_arrowWrites (h : s.Unpadded) (hp : s.Visible px py) {c : BitVec 32} :
    (s.pixel px py, c) ∈ s.arrowWrites x y ↔
      x ≤ px ∧ y ≤ py ∧ arrowColor (px - x) (py - y) = some c := by
  simp only [Fb.arrowWrites, List.mem_flatMap, List.mem_range, mem_plotWrite h hp,
    arrowColor_eq_some]
  constructor
  · rintro ⟨cy, hcy, cx, hcx, rfl, rfl, hc⟩
    rw [Nat.add_sub_cancel_left, Nat.add_sub_cancel_left]
    exact ⟨by omega, by omega, hcy, by omega, hc⟩
  · rintro ⟨hx, hy, hcy, hcx, hc⟩
    exact ⟨py - y, hcy, px - x, by omega, by omega, by omega, hc⟩

/-- The tail is written only if all of it fits, as the source tests its last corner and not the
single pixels. -/
theorem mem_tailWrites (h : s.Unpadded) (hp : s.Visible px py) {c : BitVec 32} :
    (s.pixel px py, c) ∈ s.tailWrites x y ↔ x ≤ px ∧ y ≤ py ∧
      (x + 10 < s.fbWidth.toNat ∧ y + 15 < s.fbHeight.toNat) ∧
      tailColor (px - x) (py - y) = some c := by
  unfold Fb.tailWrites
  by_cases hon : x + 10 < s.fbWidth.toNat ∧ y + 15 < s.fbHeight.toNat
  · simp only [if_pos hon, List.mem_flatMap, mem_plotWrite h hp, tailColor_eq_some]
    constructor
    · rintro ⟨⟨dx, dy, c'⟩, hmem, rfl, rfl, rfl⟩
      rw [Nat.add_sub_cancel_left, Nat.add_sub_cancel_left]
      exact ⟨by omega, by omega, hon, hmem⟩
    · rintro ⟨hx, hy, -, hmem⟩
      exact ⟨(px - x, py - y, c), hmem, (Nat.add_sub_of_le hx).symm, (Nat.add_sub_of_le hy).symm,
        rfl⟩
  · rw [if_neg hon]
    exact ⟨nofun, fun hc => absurd hc.2.2.1 hon⟩

/-- **The writes of the sprite are its colours**: at a visible pixel there is a write exactly if the
triangle or the tail has a colour there, and all writes there agree. -/
theorem mem_spriteWrites (h : s.Unpadded) (hp : s.Visible px py) (c : BitVec 32) :
    (s.pixel px py, c) ∈ s.arrowWrites x y ++ s.tailWrites x y ↔
      s.spriteColor x y px py = some c := by
  rw [List.mem_append, mem_arrowWrites h hp, mem_tailWrites h hp]
  unfold Fb.spriteColor
  by_cases hxy : x ≤ px ∧ y ≤ py
  · rw [if_pos hxy]
    by_cases hrow : py - y < 12
    · -- no row of the tail is this high
      rw [if_pos hrow]
      constructor
      · rintro (⟨-, -, hc⟩ | ⟨-, -, -, hc⟩)
        · exact hc
        · have hlow : 12 ≤ py - y := (tailPlots_lt _ (tailColor_eq_some.1 hc)).2.1
          exact absurd hrow (Nat.not_lt.2 hlow)
      · intro hc
        exact .inl ⟨hxy.1, hxy.2, hc⟩
    · rw [if_neg hrow]
      constructor
      · rintro (⟨-, -, hc⟩ | ⟨-, -, hon, hc⟩)
        · exact absurd (arrowColor_eq_some.1 hc).1 hrow
        · rw [if_pos hon, hc]
      · intro hc
        split at hc
        · next hon => exact .inr ⟨hxy.1, hxy.2, hon, hc⟩
        · cases hc
  · rw [if_neg hxy]
    constructor
    · rintro (⟨hx, hy, -⟩ | ⟨hx, hy, -⟩)
      · exact absurd ⟨hx, hy⟩ hxy
      · exact absurd ⟨hx, hy⟩ hxy
    · exact nofun

/-- A pixel of the sprite is less than 32 columns right of and below the cursor. -/
theorem spriteColor_bounds {c : BitVec 32} (hc : s.spriteColor x y px py = some c) :
    x ≤ px ∧ px < x + 32 ∧ y ≤ py ∧ py < y + 32 := by
  unfold Fb.spriteColor at hc
  split at hc
  · next hxy =>
      split at hc
      · obtain ⟨hdy, hdx, -⟩ := arrowColor_eq_some.1 hc
        omega
      · split at hc
        · obtain ⟨hdx, -, hdy⟩ := tailPlots_lt _ (tailColor_eq_some.1 hc)
          have hdx : px - x ≤ 10 := hdx
          have hdy : py - y ≤ 15 := hdy
          omega
        · cases hc
  · cases hc

/-- What drawing the sprite leaves at a visible pixel: the colour of the sprite there, or what was
there before. -/
theorem drawSprite_eq (h : s.Unpadded) (hv : s.Visible x y) (b : Buf) :
    ∃ b' : Buf, drawTail (drawArrow (s.withBack b) x y) x y = s.withBack b' ∧
      ∀ px py, s.Visible px py →
        b' (s.pixel px py) = (s.spriteColor x y px py).getD (b (s.pixel px py)) := by
  refine ⟨writes (s.arrowWrites x y ++ s.tailWrites x y) b, ?_, fun px py hp => ?_⟩
  · rw [drawArrow_eq h hv, drawTail_eq h hv, writes_append]
  · exact writes_eq_getD (mem_spriteWrites h hp) b

/-! ## Saving and restoring -/

/-- The size of the saved rectangle along a side. -/
def savedSize (side pos : Nat) : Nat := min 32 (side - pos)

/-- Where the saved rectangle is and what it holds: the desktop under the cursor. -/
structure Shown (s : Fb) (x y : Nat) : Prop where
  unpadded : s.Unpadded
  onScreen : s.Visible x y
  backupX : s.backupX = x
  backupY : s.backupY = y
  backupW : s.backupW.toNat = savedSize s.fbWidth.toNat x
  backupH : s.backupH.toNat = savedSize s.fbHeight.toNat y
  saved : ∀ cx cy, cx < s.backupW.toNat → cy < s.backupH.toNat →
    s.cursorBackup (cy * 32 + cx) = s.desktopBuffer (s.pixel (x + cx) (y + cy))
  back : ∀ px py, s.Visible px py →
    s.backBuffer (s.pixel px py) = s.withCursor s.desktopBuffer x y px py

/-- No cursor is shown: the back buffer is the desktop. -/
structure Clean (s : Fb) : Prop where
  unpadded : s.Unpadded
  hidden : s.backupX = -1
  back : ∀ px py, s.Visible px py →
    s.backBuffer (s.pixel px py) = s.desktopBuffer (s.pixel px py)

/-- In 32 bits the word of a pixel of the sprite is that of the sum of the coordinates. -/
theorem pixel_ofInt (s : Fb) (x cx y cy : Nat) :
    wordIndex s.fbPitch (BitVec.ofInt 32 (x : Int) + BitVec.ofNat 32 cx)
      (BitVec.ofInt 32 (y : Int) + BitVec.ofNat 32 cy) = s.pixel (x + cx) (y + cy) := by
  unfold Fb.pixel
  rw [BitVec.ofInt_natCast, BitVec.ofInt_natCast, BitVec.ofNat_add, BitVec.ofNat_add]

/-- The loops of `fb_hide_cursor`, as writes to the back buffer. -/
theorem restoreBackup_eq (hx : s.backupX = x) (hy : s.backupY = y) :
    restoreBackup s = s.withBack (fillGrid s.backupW.toNat s.backupH.toNat
      (fun cx cy => s.pixel (x + cx) (y + cy)) (fun cx cy => s.cursorBackup (cy * 32 + cx))
      s.backBuffer) := by
  unfold restoreBackup fillGrid
  refine forUp_component s.withBack _ ?_ s.backBuffer
  intro cy b _
  refine forUp_component s.withBack _ ?_ b
  intro cx b _
  change s.withBack (Function.update b (wordIndex s.fbPitch
    (BitVec.ofInt 32 s.backupX + BitVec.ofNat 32 cx)
    (BitVec.ofInt 32 s.backupY + BitVec.ofNat 32 cy)) (s.cursorBackup (cy * 32 + cx))) = _
  rw [hx, hy, pixel_ofInt]

/-- The state `s` with another saved rectangle. -/
def Fb.withBackup (s : Fb) (b : Buf) : Fb := { s with cursorBackup := b }

/-- The loops of `fb_show_cursor` that save the rectangle, as writes to the backup. -/
theorem saveBackup_eq (hx : s.backupX = x) (hy : s.backupY = y) :
    saveBackup s = s.withBackup (fillGrid s.backupW.toNat s.backupH.toNat
      (fun cx cy => cy * 32 + cx) (fun cx cy => s.backBuffer (s.pixel (x + cx) (y + cy)))
      s.cursorBackup) := by
  unfold saveBackup fillGrid
  refine forUp_component s.withBackup _ ?_ s.cursorBackup
  intro cy b _
  refine forUp_component s.withBackup _ ?_ b
  intro cx b _
  change s.withBackup (Function.update b (cy * 32 + cx) (s.backBuffer (wordIndex s.fbPitch
    (BitVec.ofInt 32 s.backupX + BitVec.ofNat 32 cx)
    (BitVec.ofInt 32 s.backupY + BitVec.ofNat 32 cy)))) = _
  rw [hx, hy, pixel_ofInt]

/-- The clipped size of the saved rectangle along a side. -/
theorem clip_size {side : BitVec 32} {pos : Nat} (hside : side.toNat < 2 ^ 30)
    (hpos : pos < side.toNat) :
    (if intAdd pos 32 > side.toInt then side - BitVec.ofInt 32 pos else 32).toNat =
      savedSize side.toNat pos := by
  have hadd : intAdd pos 32 = pos + 32 := intAdd_visible hside hpos (Nat.le_refl 32)
  unfold savedSize
  rw [hadd, toInt_of_lt hside, BitVec.ofInt_natCast]
  split
  · bv_omega
  · change 32 = _
    omega

/-- `t` has the screen and the desktop of `s`. -/
structure SameDesktop (s t : Fb) : Prop extends s.SameMode t where
  desktop : t.desktopBuffer = s.desktopBuffer

/-- What is visible depends on the size of the screen only. -/
theorem SameDesktop.visible (h : SameDesktop s t) (hv : s.Visible px py) : t.Visible px py :=
  ⟨h.width ▸ hv.1, h.height ▸ hv.2⟩

/-- `fb_hide_cursor` leaves the desktop: every pixel of the sprite lies in the saved rectangle,
whose words it writes back. -/
theorem Shown.hide (h : Shown s x y) :
    Clean (fbHideCursor s) ∧ SameDesktop s (fbHideCursor s) := by
  have hshown : s.backupX ≠ -1 := by
    rw [h.backupX]
    omega
  unfold fbHideCursor
  rw [if_neg hshown, restoreBackup_eq h.backupX h.backupY]
  refine ⟨⟨⟨h.unpadded.pitch, h.unpadded.width_pos, h.unpadded.height_pos, h.unpadded.fits⟩,
    rfl, fun px py hp => ?_⟩, ⟨rfl, rfl, rfl⟩, rfl⟩
  have hp : s.Visible px py := hp
  have hW := h.backupW
  have hH := h.backupH
  unfold savedSize at hW hH
  change fillGrid s.backupW.toNat s.backupH.toNat
      (fun cx cy => s.pixel (x + cx) (y + cy)) (fun cx cy => s.cursorBackup (cy * 32 + cx))
      s.backBuffer (s.pixel px py) = s.desktopBuffer (s.pixel px py)
  by_cases hin : x ≤ px ∧ px < x + s.backupW.toNat ∧ y ≤ py ∧ py < y + s.backupH.toNat
  · -- inside the saved rectangle
    obtain ⟨cx, rfl⟩ := Nat.exists_eq_add_of_le hin.1
    obtain ⟨cy, rfl⟩ := Nat.exists_eq_add_of_le hin.2.2.1
    have hcx : cx < s.backupW.toNat := by omega
    have hcy : cy < s.backupH.toNat := by omega
    rw [fillGrid_at (k := fun cx cy => s.pixel (x + cx) (y + cy)) hcx hcy, h.saved cx cy hcx hcy]
    intro cx' cy' hcx' hcy' hpix
    have hp' : s.Visible (x + cx') (y + cy') := ⟨by omega, by omega⟩
    obtain ⟨hxe, hye⟩ := pixel_inj h.unpadded.geometry hp' hp hpix
    rw [show cx' = cx by omega, show cy' = cy by omega]
  · -- outside it there is no pixel of the sprite
    have hnone : s.spriteColor x y px py = none := by
      cases hc : s.spriteColor x y px py with
      | none => rfl
      | some c =>
          have := spriteColor_bounds hc
          obtain ⟨hpx, hpy⟩ := hp
          omega
    rw [fillGrid_of_ne, h.back px py hp, Fb.withCursor, hnone, Option.getD_none]
    intro cx cy hcx hcy hpix
    have hp' : s.Visible (x + cx) (y + cy) := by
      have := h.onScreen
      exact ⟨by omega, by omega⟩
    obtain ⟨rfl, rfl⟩ := pixel_inj h.unpadded.geometry hp hp' hpix
    exact hin ⟨by omega, by omega, by omega, by omega⟩

/-- `fb_show_cursor`, once nothing is hidden any more. -/
theorem fbShowCursor_eq (s : Fb) (x y : Int) : fbShowCursor s x y =
    drawTail (drawArrow (saveBackup (placeBackup (fbHideCursor s) x y)) x y) x y := rfl

/-- Where `fb_show_cursor` puts the rectangle for a cursor on the screen. -/
theorem placeBackup_eq (h : s.Unpadded) (hv : s.Visible x y) : ∃ w hh : BitVec 32,
    placeBackup s x y = { s with backupX := x, backupY := y, backupW := w, backupH := hh } ∧
      w.toNat = savedSize s.fbWidth.toNat x ∧ hh.toNat = savedSize s.fbHeight.toNat y := by
  have hx : (if (x : Int) < 0 then 0 else (x : Int)) = x := if_neg (by omega)
  have hy : (if (y : Int) < 0 then 0 else (y : Int)) = y := if_neg (by omega)
  refine ⟨_, _, ?_, clip_size h.sides.1 hv.1, clip_size h.sides.2 hv.2⟩
  unfold placeBackup
  simp only [hx, hy]

/-- Saving on a clean back buffer saves the desktop: the rectangle is on the screen. -/
theorem Clean.save (h : Clean s) (hv : s.Visible x y) : ∃ (w hh : BitVec 32) (saved : Buf),
    saveBackup (placeBackup s x y) = { s with
      backupX := x, backupY := y, backupW := w, backupH := hh, cursorBackup := saved } ∧
    w.toNat = savedSize s.fbWidth.toNat x ∧ hh.toNat = savedSize s.fbHeight.toNat y ∧
    ∀ cx cy, cx < w.toNat → cy < hh.toNat →
      saved (cy * 32 + cx) = s.desktopBuffer (s.pixel (x + cx) (y + cy)) := by
  obtain ⟨w, hh, hplace, hw, hhh⟩ := placeBackup_eq h.unpadded hv
  refine ⟨w, hh, _, by rw [hplace, saveBackup_eq rfl rfl]; rfl, hw, hhh,
    fun cx cy hcx hcy => ?_⟩
  obtain ⟨hx, hy⟩ := hv
  unfold savedSize at hw hhh
  have hp : s.Visible (x + cx) (y + cy) := ⟨by omega, by omega⟩
  refine (fillGrid_at (k := fun cx cy => cy * 32 + cx) hcx hcy ?_ s.cursorBackup).trans
    (h.back _ _ hp)
  intro cx' cy' hcx' hcy' hk
  rw [show cx' = cx by omega, show cy' = cy by omega]

/-- `fb_show_cursor` on the desktop saves the rectangle first, so what it shows is the cursor over
the desktop, and what it saves is the desktop. -/
theorem Clean.show (h : Clean s) (hv : s.Visible x y) :
    Shown (drawTail (drawArrow (saveBackup (placeBackup s x y)) x y) x y) x y ∧
      SameDesktop s (drawTail (drawArrow (saveBackup (placeBackup s x y)) x y) x y) := by
  obtain ⟨w, hh, saved, hsave, hw, hhh, hsaved⟩ := h.save hv
  have hu := h.unpadded
  obtain ⟨b', hdraw, hb'⟩ := drawSprite_eq (s := { s with
      backupX := x, backupY := y, backupW := w, backupH := hh, cursorBackup := saved })
    ⟨hu.pitch, hu.width_pos, hu.height_pos, hu.fits⟩ hv s.backBuffer
  rw [hsave]
  refine (congrArg (fun t => Shown t x y ∧ SameDesktop s t) hdraw).mpr
    ⟨⟨⟨hu.pitch, hu.width_pos, hu.height_pos, hu.fits⟩, hv, rfl, rfl, hw, hhh, hsaved,
      fun px py hp => ?_⟩, ⟨rfl, rfl, rfl⟩, rfl⟩
  exact (hb' px py hp).trans (congrArg _ (h.back px py hp))

/-- `fb_show_cursor` when no cursor is shown: hiding does nothing, as there is no saved rectangle.
-/
theorem Clean.showCursor (h : Clean s) (hv : s.Visible x y) :
    Shown (fbShowCursor s x y) x y ∧ SameDesktop s (fbShowCursor s x y) := by
  have hhide : fbHideCursor s = s := by
    unfold fbHideCursor
    rw [if_pos h.hidden]
  rw [fbShowCursor_eq, hhide]
  exact h.show hv

/-- `fb_show_cursor` when a cursor is shown: hide it, and show the new one. -/
theorem Shown.showCursor (h : Shown s px py) (hv : s.Visible x y) :
    Shown (fbShowCursor s x y) x y ∧ SameDesktop s (fbShowCursor s x y) := by
  obtain ⟨hclean, hsame⟩ := h.hide
  rw [fbShowCursor_eq]
  obtain ⟨hshown, hsame'⟩ := hclean.show (hsame.visible hv)
  exact ⟨hshown, ⟨hsame'.width.trans hsame.width, hsame'.height.trans hsame.height,
    hsame'.pitch.trans hsame.pitch⟩, hsame'.desktop.trans hsame.desktop⟩

/-! ## Frames -/

/-- Plots change the back buffer only. -/
theorem plotAll_eq (plots : List (BitVec 32 × BitVec 32 × BitVec 32)) (s : Fb) :
    ∃ b, plotAll s plots = s.withBack b := by
  unfold plotAll
  induction plots generalizing s with
  | nil => exact ⟨s.backBuffer, rfl⟩
  | cons p plots ih =>
      obtain ⟨b, hb⟩ := ih (fbPlot s p.1 p.2.1 p.2.2)
      rw [List.foldl_cons, hb]
      refine ⟨b, ?_⟩
      unfold fbPlot
      split <;> rfl

/-- A redraw changes the back buffer, and forgets the saved rectangle. -/
theorem redraw_eq (s : Fb) (plots : List (BitVec 32 × BitVec 32 × BitVec 32)) :
    ∃ b, redraw s plots = { s with backBuffer := b, backupX := -1 } := by
  obtain ⟨b, hb⟩ := plotAll_eq plots (fbClearToWallpaper (fbResetCursorBackup s))
  exact ⟨b, hb⟩

/-- A full redraw saves the back buffer as the desktop before it shows the cursor. -/
theorem commit_clean (h : s.Unpadded) (hidden : s.backupX = -1) : Clean (fbCommitDesktop s) :=
  ⟨⟨h.pitch, h.width_pos, h.height_pos, h.fits⟩, hidden, fun _ _ hp =>
    (memcpy32_frame h hp s.desktopBuffer s.backBuffer).symm⟩

/-- What a frame leaves: one cursor over the desktop, which is the surface `d` wherever that
is visible. -/
structure FrameDone (s₀ : Fb) (d : Buf) (p : Int × Int) (s : Fb) : Prop where
  mode : s₀.SameMode s
  shown : Shown s p.1.toNat p.2.toNat
  desktop : ∀ px py, s₀.Visible px py → s.desktopBuffer (s₀.pixel px py) = d (s₀.pixel px py)

/-- The corner of a cursor on the screen is a visible pixel. -/
theorem Frame.OnScreen.visible {f : Frame} (hf : f.OnScreen s) :
    s.Visible f.pos.1.toNat f.pos.2.toNat := by
  obtain ⟨hx, hxw, hy, hyh⟩ := hf
  exact ⟨by omega, by omega⟩

/-- A full redraw needs no cursor to hide: it starts from the wallpaper, and the sprite is drawn
over what was committed. -/
theorem frameDone_full {s₀ : Fb} (hm : s₀.SameMode s) (hu : s.Unpadded)
    (plots : List (BitVec 32 × BitVec 32 × BitVec 32)) {x y : Int}
    (hf : (Frame.full plots x y).OnScreen s₀) :
    FrameDone s₀ (redraw s plots).backBuffer (x, y) (frameStep s (.full plots x y)) := by
  obtain ⟨b, hb⟩ := redraw_eq s plots
  have hv : s.Visible x.toNat y.toNat := ⟨hm.width ▸ hf.visible.1, hm.height ▸ hf.visible.2⟩
  have hub : Fb.Unpadded { s with backBuffer := b, backupX := -1 } :=
    ⟨hu.pitch, hu.width_pos, hu.height_pos, hu.fits⟩
  obtain ⟨hshown, hsame⟩ := (commit_clean hub rfl).showCursor (x := x.toNat) (y := y.toNat) hv
  have hx : (x.toNat : Int) = x := Int.toNat_of_nonneg hf.1
  have hy : (y.toNat : Int) = y := Int.toNat_of_nonneg hf.2.2.1
  rw [hx, hy] at hshown hsame
  rw [frameStep, hb]
  refine ⟨⟨hsame.width.trans hm.width, hsame.height.trans hm.height,
    hsame.pitch.trans hm.pitch⟩, hshown, fun px py hp => ?_⟩
  have hp' : s.Visible px py := ⟨hm.width ▸ hp.1, hm.height ▸ hp.2⟩
  rw [hsame.desktop, ← hm.pixel]
  exact memcpy32_frame hub hp' s.desktopBuffer b

/-- A motion frame shows the cursor somewhere else over the same desktop. -/
theorem FrameDone.motion {s₀ : Fb} {d : Buf} {p : Int × Int} (h : FrameDone s₀ d p s) {x y : Int}
    (hf : (Frame.motion x y).OnScreen s₀) :
    FrameDone s₀ d (x, y) (frameStep s (.motion x y)) := by
  have hv : s.Visible x.toNat y.toNat :=
    ⟨h.mode.width ▸ hf.visible.1, h.mode.height ▸ hf.visible.2⟩
  obtain ⟨hshown, hsame⟩ := h.shown.showCursor hv
  have hx : (x.toNat : Int) = x := Int.toNat_of_nonneg hf.1
  have hy : (y.toNat : Int) = y := Int.toNat_of_nonneg hf.2.2.1
  rw [hx, hy] at hshown hsame
  refine ⟨⟨hsame.width.trans h.mode.width, hsame.height.trans h.mode.height,
    hsame.pitch.trans h.mode.pitch⟩, hshown, fun px py hp => ?_⟩
  rw [frameStep, hsame.desktop]
  exact h.desktop px py hp

/-- Every further frame leaves one cursor over the last committed desktop. -/
theorem FrameDone.run {s₀ : Fb} {d : Buf} {p : Int × Int} {fs : List Frame}
    (h : FrameDone s₀ d p s) (hfs : ∀ f ∈ fs, f.OnScreen s₀) :
    FrameDone s₀ (lastCommitted s d fs) (lastPos p fs) (Machine.run frameStep s fs) := by
  induction fs generalizing s d p with
  | nil => exact h
  | cons f fs ih =>
      have hf := hfs f List.mem_cons_self
      refine ih ?_ fun g hg => hfs g (List.mem_cons_of_mem _ hg)
      cases f with
      | full plots x y => exact frameDone_full h.mode h.shown.unpadded plots hf
      | motion x y => exact h.motion hf

/-- What a finished frame shows at a visible pixel: the sprite, or the committed desktop. -/
theorem FrameDone.back {s₀ : Fb} {d : Buf} {p : Int × Int} (h : FrameDone s₀ d p s)
    (hp : s₀.Visible px py) :
    s.backBuffer (s₀.pixel px py) = s₀.withCursor d p.1.toNat p.2.toNat px py := by
  have hback := h.shown.back px py ⟨h.mode.width ▸ hp.1, h.mode.height ▸ hp.2⟩
  rw [h.mode.pixel] at hback
  rw [hback, Fb.withCursor, Fb.withCursor, h.mode.pixel, h.mode.spriteColor,
    h.desktop px py hp]

/-- **Cursor compositing leaves no trails.** After any frames that begin with a full redraw, each
visible pixel of the back buffer is that of the last committed desktop with the sprite drawn at the
last position. `fb_hide_cursor` puts back the saved rectangle before every move, and a full redraw
starts from the wallpaper, so no sprite is ever drawn over another one. -/
theorem cursor_leaves_no_trails (s : Fb) (hu : s.Unpadded)
    (plots : List (BitVec 32 × BitVec 32 × BitVec 32)) (x y : Int) (fs : List Frame)
    (hfs : ∀ f ∈ Frame.full plots x y :: fs, f.OnScreen s) (px py : Nat)
    (hp : s.Visible px py) :
    (Machine.run frameStep s (.full plots x y :: fs)).backBuffer (s.pixel px py) =
        s.withCursor (lastCommitted s s.desktopBuffer (.full plots x y :: fs))
          (lastPos (x, y) fs).1.toNat (lastPos (x, y) fs).2.toNat px py ∧
      (Machine.run frameStep s (.full plots x y :: fs)).desktopBuffer (s.pixel px py) =
        lastCommitted s s.desktopBuffer (.full plots x y :: fs) (s.pixel px py) := by
  have hfull := frameDone_full ⟨rfl, rfl, rfl⟩ hu plots (hfs _ List.mem_cons_self)
  have hdone := hfull.run fun f hf => hfs f (List.mem_cons_of_mem _ hf)
  rw [Machine.run_cons, lastCommitted_cons]
  exact ⟨hdone.back hp, hdone.desktop px py hp⟩

/-- A screen of two by two pixels. -/
def smallScreen : Fb := { Fb.static with fbWidth := 2, fbHeight := 2, fbPitch := 8 }

/-- A redraw with the cursor in the corner of the small screen, and a motion to the opposite
corner: the first corner shows the desktop again. -/
theorem cursor_leaves_no_trails_small :
    (Machine.run frameStep smallScreen
      [.full [(0, 0, 7), (1, 1, 9)] 0 0, .motion 1 1]).backBuffer (smallScreen.pixel 0 0) = 7 := by
  have htrail := cursor_leaves_no_trails smallScreen
    ⟨by decide, by decide, by decide, by decide⟩ [(0, 0, 7), (1, 1, 9)] 0 0 [.motion 1 1] ?_ 0 0
    ⟨by decide, by decide⟩
  · rw [htrail.1]
    decide +kernel
  · intro f hf
    rcases List.mem_cons.1 hf with rfl | hf
    · exact ⟨by decide, by decide, by decide, by decide⟩
    · rw [List.mem_singleton.1 hf]
      exact ⟨by decide, by decide, by decide, by decide⟩

end

end OnkenOS
