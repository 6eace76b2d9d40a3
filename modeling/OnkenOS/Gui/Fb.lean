import Mathlib.Algebra.Ring.Int.Defs
import OnkenOS.Lib.Words

/-!
# The framebuffer

`gui/fb.c`. A buffer is an array of 32-bit words, and each of the pointers `fb_ptr`,
`back_buffer`, `wallpaper_cache`, `desktop_buffer` and `front_buffer_copy` is taken with the
array it points to, so that the five do not overlap. Whether the blocks `fb_alloc_buffers`
obtains from the heap bear that out is the subject of `OnkenOS.Gui.FbHeap`.

Index arithmetic is `uint32_t` arithmetic, hence `BitVec 32`, and a pointer plus an index is
the index as a number. A loop counter that runs to a `uint32_t` bound is a number too.
-/

namespace OnkenOS

open Words

/-- The words behind a `uint32_t*`. -/
abbrev Buf := Nat → BitVec 32

/-- The static variables of `fb.c`, with the contents of the buffers. -/
structure Fb where
  fbPtr : Buf
  fbWidth : BitVec 32
  fbHeight : BitVec 32
  fbPitch : BitVec 32
  backBuffer : Buf
  wallpaperCache : Buf
  desktopBuffer : Buf
  frontBufferCopy : Buf
  cursorBackup : Buf
  backupX : Int
  backupY : Int
  backupW : BitVec 32
  backupH : BitVec 32

/-- `buf[i] = c`. -/
def Buf.set (b : Buf) (i : Nat) (c : BitVec 32) : Buf := Function.update b i c

/-- `memcpy32(d + dOff, s + sOff, size)`. -/
def memcpy32 (d s : Buf) (dOff sOff : Nat) (size : BitVec 32) : Buf :=
  copyWords d s dOff sOff (size / 4).toNat

/-- `memset(b, 0, size)`, for a size that is a multiple of four. -/
def memsetZero (b : Buf) (size : BitVec 32) : Buf :=
  fun i => if i < (size / 4).toNat then 0 else b i

/-- `y * (fb_pitch / 4) + x`. -/
def wordIndex (fbPitch x y : BitVec 32) : Nat := (y * (fbPitch / 4) + x).toNat

/-- The word of a pixel, by its column and row. -/
def Fb.pixel (s : Fb) (px py : Nat) : Nat :=
  wordIndex s.fbPitch (BitVec.ofNat 32 px) (BitVec.ofNat 32 py)

/-! ## Bring-up -/

/-- The static initialisers; the pointers do not point to anything yet. -/
def Fb.static : Fb where
  fbPtr := fun _ => 0
  fbWidth := 0
  fbHeight := 0
  fbPitch := 0
  backBuffer := fun _ => 0
  wallpaperCache := fun _ => 0
  desktopBuffer := fun _ => 0
  frontBufferCopy := fun _ => 0
  cursorBackup := fun _ => 0
  backupX := -1
  backupY := -1
  backupW := 0
  backupH := 0

/-- `fb_init_raw`, with what the screen memory holds. -/
def fbInitRaw (s : Fb) (vram : Buf) (w h pitch : BitVec 32) : Fb :=
  { s with fbPtr := vram, fbWidth := w, fbHeight := h, fbPitch := pitch }

/-- `fb_alloc_buffers`, with what the four blocks hold that `kmalloc` returns. -/
def fbAllocBuffers (s : Fb) (back wallpaper desktop front : Buf) : Fb :=
  let size := s.fbWidth * s.fbHeight * 4
  { s with
    backBuffer := back
    wallpaperCache := wallpaper
    desktopBuffer := desktop
    frontBufferCopy := memsetZero front size }

/-! ## Copies and plots -/

/-- One row of the loop of `fb_swap`. -/
def fbSwapRow (y : Nat) (s : Fb) : Fb :=
  let rowOffset := BitVec.ofNat 32 y * (s.fbPitch / 4)
  let diff := scanSpan
    (fun x => s.backBuffer (rowOffset + BitVec.ofNat 32 x).toNat !=
      s.frontBufferCopy (rowOffset + BitVec.ofNat 32 x).toNat)
    s.fbWidth.toNat s.fbWidth.toNat
  let firstDiff := BitVec.ofNat 32 diff.1
  let lastDiff := BitVec.ofNat 32 diff.2
  if firstDiff < s.fbWidth then
    let count := lastDiff - firstDiff + 1
    let startIdx := (rowOffset + firstDiff).toNat
    { s with
      fbPtr := memcpy32 s.fbPtr s.backBuffer startIdx startIdx (count * 4)
      frontBufferCopy :=
        memcpy32 s.frontBufferCopy s.backBuffer startIdx startIdx (count * 4) }
  else s

/-- `fb_swap`. -/
def fbSwap (s : Fb) : Fb := forUp s.fbHeight.toNat fbSwapRow s

/-- `fb_commit_desktop`. -/
def fbCommitDesktop (s : Fb) : Fb :=
  { s with
    desktopBuffer := memcpy32 s.desktopBuffer s.backBuffer 0 0 (s.fbWidth * s.fbHeight * 4) }

/-- `fb_clear_to_wallpaper`. -/
def fbClearToWallpaper (s : Fb) : Fb :=
  { s with
    backBuffer := memcpy32 s.backBuffer s.wallpaperCache 0 0 (s.fbWidth * s.fbHeight * 4) }

/-- `fb_plot`. -/
def fbPlot (s : Fb) (x y color : BitVec 32) : Fb :=
  if x < s.fbWidth ∧ y < s.fbHeight then
    { s with backBuffer := s.backBuffer.set (wordIndex s.fbPitch x y) color }
  else s

/-- `fb_rect`. -/
def fbRect (s : Fb) (x y w h color : BitVec 32) : Fb :=
  if s.fbWidth ≤ x ∨ s.fbHeight ≤ y then s
  else
    let w := if s.fbWidth < x + w then s.fbWidth - x else w
    let h := if s.fbHeight < y + h then s.fbHeight - y else h
    -- `iy` runs from `y` to `y + h`, not at all if that sum wraps
    forUp ((y + h).toNat - y.toNat) (fun i s =>
      let offset := (y + BitVec.ofNat 32 i) * (s.fbPitch / 4) + x
      forUp w.toNat (fun ix s =>
        { s with
          backBuffer := s.backBuffer.set (offset + BitVec.ofNat 32 ix).toNat color }) s) s

/-! ## The cursor -/

/-- `fb_reset_cursor_backup`. -/
def fbResetCursorBackup (s : Fb) : Fb := { s with backupX := -1 }

/-- The loops of `fb_hide_cursor` over the saved rectangle. -/
def restoreBackup (s : Fb) : Fb :=
  forUp s.backupH.toNat (fun y s =>
    let destY := BitVec.ofInt 32 s.backupY + BitVec.ofNat 32 y
    forUp s.backupW.toNat (fun x s =>
      let destX := BitVec.ofInt 32 s.backupX + BitVec.ofNat 32 x
      { s with
        backBuffer := s.backBuffer.set (wordIndex s.fbPitch destX destY)
          (s.cursorBackup (y * 32 + x)) }) s) s

/-- `fb_hide_cursor`. -/
def fbHideCursor (s : Fb) : Fb :=
  if s.backupX = -1 then s else { restoreBackup s with backupX := -1 }

/-- `a + b`, of two `int`s: a sum that does not fit wraps around. -/
def intAdd (a b : Int) : Int := (a + b).bmod (2 ^ 32)

/-- A sum that is an `int` does not overflow. -/
theorem intAdd_eq {a b : Int} (hlo : -2 ^ 31 ≤ a + b) (hhi : a + b < 2 ^ 31) :
    intAdd a b = a + b := by
  refine Int.bmod_eq_of_le ?_ ?_ <;> omega

/-- The clipping of the saved rectangle in `fb_show_cursor`. -/
def placeBackup (s : Fb) (x y : Int) : Fb :=
  let backupX := if x < 0 then 0 else x
  let backupY := if y < 0 then 0 else y
  { s with
    backupX := backupX
    backupY := backupY
    backupW :=
      if intAdd backupX 32 > s.fbWidth.toInt then s.fbWidth - BitVec.ofInt 32 backupX else 32
    backupH :=
      if intAdd backupY 32 > s.fbHeight.toInt then s.fbHeight - BitVec.ofInt 32 backupY else 32 }

/-- The loops of `fb_show_cursor` that save the rectangle. -/
def saveBackup (s : Fb) : Fb :=
  forUp s.backupH.toNat (fun cy s =>
    let srcY := BitVec.ofInt 32 s.backupY + BitVec.ofNat 32 cy
    forUp s.backupW.toNat (fun cx s =>
      let srcX := BitVec.ofInt 32 s.backupX + BitVec.ofNat 32 cx
      { s with
        cursorBackup := s.cursorBackup.set (cy * 32 + cx)
          (s.backBuffer (wordIndex s.fbPitch srcX srcY)) }) s) s

/-- `fb_plot(x + dx, y + dy, color)` for `int` coordinates. -/
def plotAt (s : Fb) (x y : Int) (dx dy : Nat) (color : BitVec 32) : Fb :=
  fbPlot s (BitVec.ofInt 32 (x + dx)) (BitVec.ofInt 32 (y + dy)) color

/-- The triangle of the cursor. -/
def drawArrow (s : Fb) (x y : Int) : Fb :=
  forUp 12 (fun cy s =>
    forUp (cy + 1) (fun cx s =>
      if intAdd x cx < s.fbWidth.toInt ∧ intAdd y cy < s.fbHeight.toInt then
        if cx = 0 ∨ cy = 11 ∨ cx = cy then plotAt s x y cx cy 0x000000
        else plotAt s x y cx cy 0xFFFFFF
      else s) s) s

/-- The twelve plots below the triangle. -/
def tailPlots : List (Nat × Nat × BitVec 32) :=
  [(5, 12, 0x000000), (6, 12, 0x000000), (7, 12, 0x000000),
   (6, 13, 0xFFFFFF), (7, 13, 0xFFFFFF), (8, 13, 0x000000),
   (7, 14, 0xFFFFFF), (8, 14, 0xFFFFFF), (9, 14, 0x000000),
   (8, 15, 0x000000), (9, 15, 0x000000), (10, 15, 0x000000)]

/-- The tail of the cursor. -/
def drawTail (s : Fb) (x y : Int) : Fb :=
  if intAdd x 10 < s.fbWidth.toInt ∧ intAdd y 15 < s.fbHeight.toInt then
    tailPlots.foldl (fun s p => plotAt s x y p.1 p.2.1 p.2.2) s
  else s

/-- `fb_show_cursor`. -/
def fbShowCursor (s : Fb) (x y : Int) : Fb :=
  let s := saveBackup (placeBackup (fbHideCursor s) x y)
  drawTail (drawArrow s x y) x y

end OnkenOS
