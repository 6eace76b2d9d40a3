import Mathlib.Data.Bool.AllAny
import Mathlib.Data.Nat.Bitwise
import OnkenOS.Gui.Drawing
import OnkenOS.Kernel.CString
import OnkenOS.Lib.TextGrid

/-!
# Text

`fb_putc` and `fb_print` of `gui/fb.c`, with the font of `gui/font.h`. A character is a cell of
eight by eight pixels, and a line is ten pixels high. `fbPrint_draws` says which colour every pixel
gets from a string, wherever it is printed, and `printed_text_reads` that a line of printable
characters can be read back from the screen.
-/

namespace OnkenOS

open Words Layers TextGrid

/-! ## The font -/

/-- `font8x8`. -/
def font8x8 : List (List UInt8) :=
  List.replicate 33 (List.replicate 8 0) ++
   [[0x18, 0x3C, 0x3C, 0x18, 0x18, 0, 0x18, 0], [0x66, 0x66, 0x24, 0, 0, 0, 0, 0],
    [0x6C, 0x6C, 0xFE, 0x6C, 0xFE, 0x6C, 0x6C, 0], [0x18, 0x3E, 0x60, 0x3C, 0x06, 0x7C, 0x18, 0],
    [0, 0xC6, 0xCC, 0x18, 0x30, 0x66, 0xC6, 0], [0x38, 0x6C, 0x6C, 0x38, 0x6D, 0x66, 0x3B, 0],
    [0x18, 0x18, 0x30, 0, 0, 0, 0, 0], [0x0C, 0x18, 0x30, 0x30, 0x30, 0x18, 0x0C, 0],
    [0x30, 0x18, 0x0C, 0x0C, 0x0C, 0x18, 0x30, 0], [0, 0x66, 0x3C, 0xFF, 0x3C, 0x66, 0, 0],
    [0, 0x18, 0x18, 0x7E, 0x18, 0x18, 0, 0], [0, 0, 0, 0, 0, 0x18, 0x18, 0x30],
    [0, 0, 0, 0x7E, 0, 0, 0, 0], [0, 0, 0, 0, 0, 0x18, 0x18, 0],
    [0x06, 0x0C, 0x18, 0x30, 0x60, 0xC0, 0x80, 0], [0x3C, 0x66, 0x6E, 0x76, 0x66, 0x66, 0x3C, 0],
    [0x18, 0x38, 0x18, 0x18, 0x18, 0x18, 0x7E, 0], [0x3C, 0x66, 0x06, 0x1C, 0x30, 0x66, 0x7E, 0],
    [0x3C, 0x66, 0x06, 0x1C, 0x06, 0x66, 0x3C, 0], [0x1C, 0x3C, 0x6C, 0xCC, 0xFE, 0x0C, 0x1E, 0],
    [0x7E, 0x60, 0x7C, 0x06, 0x06, 0x66, 0x3C, 0], [0x1C, 0x30, 0x60, 0x7C, 0x66, 0x66, 0x3C, 0],
    [0x7E, 0x66, 0x06, 0x0C, 0x18, 0x18, 0x18, 0], [0x3C, 0x66, 0x66, 0x3C, 0x66, 0x66, 0x3C, 0],
    [0x3C, 0x66, 0x66, 0x3E, 0x06, 0x0C, 0x38, 0], [0, 0x18, 0x18, 0, 0, 0x18, 0x18, 0],
    [0, 0x18, 0x18, 0, 0, 0x18, 0x18, 0x30], [0x0C, 0x18, 0x30, 0x60, 0x30, 0x18, 0x0C, 0],
    [0, 0, 0x7E, 0, 0x7E, 0, 0, 0], [0x30, 0x18, 0x0C, 0x06, 0x0C, 0x18, 0x30, 0],
    [0x3C, 0x66, 0x0C, 0x18, 0x18, 0, 0x18, 0], [0x3C, 0x66, 0x6E, 0x6E, 0x60, 0x66, 0x3C, 0],
    [0x18, 0x3C, 0x66, 0x66, 0x7E, 0x66, 0x66, 0], [0x7C, 0x66, 0x66, 0x7C, 0x66, 0x66, 0x7C, 0],
    [0x3C, 0x66, 0x60, 0x60, 0x60, 0x66, 0x3C, 0], [0x78, 0x6C, 0x66, 0x66, 0x66, 0x6C, 0x78, 0],
    [0x7E, 0x60, 0x60, 0x7C, 0x60, 0x60, 0x7E, 0], [0x7E, 0x60, 0x60, 0x7C, 0x60, 0x60, 0x60, 0],
    [0x3C, 0x66, 0x60, 0x6E, 0x66, 0x66, 0x3E, 0], [0x66, 0x66, 0x66, 0x7E, 0x66, 0x66, 0x66, 0],
    [0x3C, 0x18, 0x18, 0x18, 0x18, 0x18, 0x3C, 0], [0x0E, 0x06, 0x06, 0x06, 0x06, 0x66, 0x3C, 0],
    [0x66, 0x6C, 0x78, 0x70, 0x78, 0x6C, 0x66, 0], [0x60, 0x60, 0x60, 0x60, 0x60, 0x60, 0x7E, 0],
    [0x63, 0x77, 0x7F, 0x6B, 0x63, 0x63, 0x63, 0], [0x66, 0x76, 0x7E, 0x7E, 0x6E, 0x66, 0x66, 0],
    [0x3C, 0x66, 0x66, 0x66, 0x66, 0x66, 0x3C, 0], [0x7C, 0x66, 0x66, 0x7C, 0x60, 0x60, 0x60, 0],
    [0x3C, 0x66, 0x66, 0x66, 0x6A, 0x6C, 0x36, 0], [0x7C, 0x66, 0x66, 0x7C, 0x6C, 0x66, 0x66, 0],
    [0x3C, 0x66, 0x60, 0x3C, 0x06, 0x66, 0x3C, 0], [0x7E, 0x18, 0x18, 0x18, 0x18, 0x18, 0x18, 0],
    [0x66, 0x66, 0x66, 0x66, 0x66, 0x66, 0x3C, 0], [0x66, 0x66, 0x66, 0x66, 0x66, 0x3C, 0x18, 0],
    [0x63, 0x63, 0x63, 0x6B, 0x7F, 0x77, 0x63, 0], [0x66, 0x66, 0x3C, 0x18, 0x3C, 0x66, 0x66, 0],
    [0x66, 0x66, 0x66, 0x3C, 0x18, 0x18, 0x18, 0], [0x7E, 0x06, 0x0C, 0x18, 0x30, 0x60, 0x7E, 0],
    [0x3C, 0x30, 0x30, 0x30, 0x30, 0x30, 0x3C, 0], [0x80, 0xC0, 0x60, 0x30, 0x18, 0x0C, 0x06, 0],
    [0x3C, 0x0C, 0x0C, 0x0C, 0x0C, 0x0C, 0x3C, 0], [0x18, 0x3C, 0x66, 0, 0, 0, 0, 0],
    [0, 0, 0, 0, 0, 0, 0, 0xFF], [0x30, 0x18, 0, 0, 0, 0, 0, 0],
    [0, 0, 0x3C, 0x06, 0x3E, 0x66, 0x3E, 0], [0x60, 0x60, 0x7C, 0x66, 0x66, 0x66, 0x7C, 0],
    [0, 0, 0x3C, 0x60, 0x60, 0x60, 0x3C, 0], [0x06, 0x06, 0x3E, 0x66, 0x66, 0x66, 0x3E, 0],
    [0, 0, 0x3C, 0x66, 0x7E, 0x60, 0x3C, 0], [0x1C, 0x30, 0x7C, 0x30, 0x30, 0x30, 0x30, 0],
    [0, 0, 0x3E, 0x66, 0x66, 0x3E, 0x06, 0x3C], [0x60, 0x60, 0x7C, 0x66, 0x66, 0x66, 0x66, 0],
    [0x18, 0, 0x38, 0x18, 0x18, 0x18, 0x3C, 0], [0x18, 0, 0x38, 0x18, 0x18, 0x18, 0x18, 0x70],
    [0x60, 0x60, 0x66, 0x6C, 0x78, 0x6C, 0x66, 0], [0x38, 0x18, 0x18, 0x18, 0x18, 0x18, 0x3C, 0],
    [0, 0, 0x66, 0x7F, 0x7F, 0x6B, 0x63, 0], [0, 0, 0x7C, 0x66, 0x66, 0x66, 0x66, 0],
    [0, 0, 0x3C, 0x66, 0x66, 0x66, 0x3C, 0], [0, 0, 0x7C, 0x66, 0x66, 0x7C, 0x60, 0x60],
    [0, 0, 0x3E, 0x66, 0x66, 0x3E, 0x06, 0x06], [0, 0, 0x7C, 0x60, 0x60, 0x60, 0x60, 0],
    [0, 0, 0x3E, 0x60, 0x3C, 0x06, 0x3C, 0], [0x30, 0x30, 0x7C, 0x30, 0x30, 0x30, 0x1C, 0],
    [0, 0, 0x66, 0x66, 0x66, 0x66, 0x3E, 0], [0, 0, 0x66, 0x66, 0x66, 0x3C, 0x18, 0],
    [0, 0, 0x63, 0x6B, 0x7F, 0x3E, 0x36, 0], [0, 0, 0x66, 0x3C, 0x18, 0x3C, 0x66, 0],
    [0, 0, 0x66, 0x66, 0x66, 0x3E, 0x06, 0x3C], [0, 0, 0x7E, 0x0C, 0x18, 0x30, 0x7E, 0],
    [0x0E, 0x18, 0x18, 0x70, 0x18, 0x18, 0x0E, 0],
    [0x18, 0x18, 0x18, 0x18, 0x18, 0x18, 0x18, 0x18],
    [0x70, 0x18, 0x18, 0x0E, 0x18, 0x18, 0x70, 0], [0x76, 0xDC, 0, 0, 0, 0, 0, 0],
    [0, 0x10, 0x38, 0x6C, 0xC6, 0xC6, 0xFE, 0]]

/-- `glyph`: a byte that is not ASCII is shown as a question mark. -/
def glyphOf (c : UInt8) : List UInt8 :=
  let u := if 128 ≤ c then 63 else c
  font8x8.getD u.toNat []

/-- `glyph[row] & (1 << (7 - col))`. -/
def glyphBit (c : UInt8) (row col : Nat) : Bool :=
  ((glyphOf c).getD row 0).toNat &&& 1 <<< (7 - col) != 0

/-! ## Printing -/

/-- `fb_putc`. -/
def fbPutc (s : Fb) (c : UInt8) (x y fg bg : BitVec 32) : Fb :=
  forUp 8 (fun row s =>
    forUp 8 (fun col s =>
      if glyphBit c row col then fbPlot s (x + BitVec.ofNat 32 col) (y + BitVec.ofNat 32 row) fg
      else fbPlot s (x + BitVec.ofNat 32 col) (y + BitVec.ofNat 32 row) bg) s) s

/-- The loop of `fb_print`, at `cx` and `cy`. -/
def printLoop (x fg bg : BitVec 32) : List UInt8 → BitVec 32 → BitVec 32 → Fb → Fb
  | [], _, _, s => s
  | c :: str, cx, cy, s =>
      if c = 10 then printLoop x fg bg str x (cy + 10) s
      else printLoop x fg bg str (cx + 8) cy (fbPutc s c cx cy fg bg)

/-- `fb_print`. -/
def fbPrint (s : Fb) (str : List UInt8) (x y fg bg : BitVec 32) : Fb :=
  printLoop x fg bg (cstr str) x y s

section
variable {s : Fb} {x y fg bg : BitVec 32} {px py : Nat} {c d : UInt8} {text : List UInt8}

/-! ## Cells -/

/-- The colours of a character. -/
def glyphLayer (x y fg bg : BitVec 32) (c : UInt8) : Layer Point (BitVec 32) :=
  gridLayer x y 8 8 fun col row => if glyphBit c row col then fg else bg

/-- `fb_putc` draws a glyph of eight by eight pixels: each in its colour, or left as it is. -/
theorem fbPutc_draws (hg : s.Geometry) (c : UInt8) (x y fg bg : BitVec 32) :
    s.Draws (glyphLayer x y fg bg c) fun t => fbPutc t c x y fg bg := by
  have hplots : (fun t => fbPutc t c x y fg bg) = fun t => forUp 8 (fun row t =>
      forUp 8 (fun col t => fbPlot t (x + BitVec.ofNat 32 col) (y + BitVec.ofNat 32 row)
        (if glyphBit c row col then fg else bg)) t) t := by
    funext t
    refine forUp_congr fun row t _ => forUp_congr fun col t _ => ?_
    split
    · rfl
    · rfl
  rw [hplots]
  exact plotGrid_draws hg x y (by decide) (by decide) fun col row =>
    if glyphBit c row col then fg else bg

/-- The colours of a character in its cell, with `q` pixels from one line to the next. -/
def cellLayer (q : Nat) (x y fg bg : BitVec 32) (cell : Nat × Nat × UInt8) :
    Layer Point (BitVec 32) :=
  glyphLayer (x + BitVec.ofNat 32 (8 * cell.1)) (y + BitVec.ofNat 32 (q * cell.2.1)) fg bg
    cell.2.2

/-- The loop of `fb_print` draws a character in each cell, and goes to the next line at a newline.
By induction on the text. -/
theorem printLoop_draws (hg : s.Geometry) (x y fg bg : BitVec 32) (text : List UInt8) (k l : Nat) :
    s.Draws (stack ((cells 10 0 k l text).map (cellLayer 10 x y fg bg)))
      (printLoop x fg bg text (x + BitVec.ofNat 32 (8 * k)) (y + BitVec.ofNat 32 (10 * l))) := by
  induction text generalizing k l with
  | nil => exact .id s
  | cons c text ih =>
      unfold cells
      by_cases hc : c = 10
      · have hloop : ∀ cx cy, printLoop x fg bg (c :: text) cx cy =
            printLoop x fg bg text x (cy + 10) := fun _ _ => funext fun _ => if_pos hc
        have hx : x = x + BitVec.ofNat 32 (8 * 0) := (BitVec.add_zero x).symm
        have hy : y + BitVec.ofNat 32 (10 * l) + 10 = y + BitVec.ofNat 32 (10 * (l + 1)) := by
          rw [Nat.mul_add, BitVec.ofNat_add, BitVec.add_assoc]
          rfl
        have hnext := ih 0 (l + 1)
        rw [← hx] at hnext
        rw [hloop, hy, if_pos hc]
        exact hnext
      · have hloop : ∀ cx cy, printLoop x fg bg (c :: text) cx cy = fun t =>
            printLoop x fg bg text (cx + 8) cy (fbPutc t c cx cy fg bg) :=
          fun _ _ => funext fun _ => if_neg hc
        have hx : x + BitVec.ofNat 32 (8 * k) + 8 = x + BitVec.ofNat 32 (8 * (k + 1)) := by
          rw [Nat.mul_add, BitVec.ofNat_add, BitVec.add_assoc]
          rfl
        rw [hloop, hx, if_neg hc, if_neg (Nat.succ_ne_zero k), List.map_cons, stack_cons]
        exact (fbPutc_draws hg c _ _ fg bg).comp (ih (k + 1) l)

/-! ## Strings -/

/-- The colours of lines of text: each pixel belongs to the character of its cell, and the rows
between two lines to none. -/
def linesLayer (q : Nat) (lines : List (List UInt8)) (x y fg bg : BitVec 32) :
    Layer Point (BitVec 32) := fun p =>
  let col := (p.1 - x).toNat
  let row := (p.2 - y).toNat
  if row % q < 8 then
    ((lines.getD (row / q) [])[col / 8]?).map fun c =>
      if glyphBit c (row % q) (col % 8) then fg else bg
  else none

/-- The colours of a string. -/
def textLayer (text : List UInt8) (x y fg bg : BitVec 32) : Layer Point (BitVec 32) :=
  linesLayer 10 (text.splitOn 10) x y fg bg

/-- A pixel of a cell has the colour of its character there, or none if the line is shorter. -/
theorem linesLayer_cell {q : Nat} (hq : 8 ≤ q) (lines : List (List UInt8)) {p : Point}
    (fg bg : BitVec 32) {k l row col : Nat} (hx : (p.1 - x).toNat = 8 * k + col)
    (hy : (p.2 - y).toNat = q * l + row) (hrow : row < 8) (hcol : col < 8) :
    linesLayer q lines x y fg bg p =
      ((lines.getD l [])[k]?).map fun c => if glyphBit c row col then fg else bg := by
  have hpos : 0 < q := Nat.lt_of_lt_of_le (by decide) hq
  have hline : (q * l + row) / q = l := by
    rw [Nat.mul_add_div hpos, Nat.div_eq_of_lt (hrow.trans_le hq), Nat.add_zero]
  have hchar : (8 * k + col) / 8 = k := by omega
  unfold linesLayer
  dsimp only
  rw [hx, hy, hline, hchar, Nat.mul_add_mod, Nat.mul_add_mod, Nat.mod_eq_of_lt (hrow.trans_le hq),
    Nat.mod_eq_of_lt hcol, if_pos hrow]

/-- Cells that hold the characters of lines: no two of them share a pixel, so each shows its own. -/
theorem stack_lines {q : Nat} (hq : 8 ≤ q) {lines : List (List UInt8)}
    {cells : List (Nat × Nat × UInt8)}
    (hmem : ∀ k l c, (k, l, c) ∈ cells ↔ (lines.getD l [])[k]? = some c)
    (hbounds : ∀ k l c, (k, l, c) ∈ cells → k < 2 ^ 28 ∧ q * l + q ≤ 2 ^ 32)
    (x y fg bg : BitVec 32) :
    stack (cells.map (cellLayer q x y fg bg)) = linesLayer q lines x y fg bg := by
  refine stack_eq (fun a ha p d hp => ?_) fun p hp => ?_
  · obtain ⟨⟨k, l, c⟩, hcell, rfl⟩ := List.mem_map.1 ha
    obtain ⟨hk, hl⟩ := hbounds k l c hcell
    unfold cellLayer glyphLayer at hp
    obtain ⟨⟨hx, hy⟩, hd⟩ := gridLayer_eq_some.1 hp
    dsimp only at hx hy hd
    have hcol : (p.1 - x).toNat = 8 * k + (p.1 - (x + BitVec.ofNat 32 (8 * k))).toNat := by
      bv_omega
    have hrow : (p.2 - y).toNat = q * l + (p.2 - (y + BitVec.ofNat 32 (q * l))).toNat := by
      generalize q * l = b at *
      bv_omega
    rw [linesLayer_cell hq lines fg bg hcol hrow hy hx, (hmem k l c).1 hcell, Option.map_some, hd]
  · unfold linesLayer at hp
    dsimp only at hp
    split at hp
    · next hy =>
        rw [Option.isSome_map] at hp
        obtain ⟨c, hc⟩ := Option.isSome_iff_exists.1 hp
        have hcell := (hmem _ _ c).2 hc
        obtain ⟨hk, hl⟩ := hbounds _ _ c hcell
        refine ⟨_, List.mem_map_of_mem hcell, ?_⟩
        unfold cellLayer glyphLayer
        refine Option.isSome_iff_exists.2 ⟨_, gridLayer_eq_some.2 ⟨⟨?_, ?_⟩, rfl⟩⟩
        · dsimp only
          generalize hcol : (p.1 - x).toNat = col at hk
          bv_omega
        · dsimp only
          have hrow := Nat.div_add_mod (p.2 - y).toNat q
          generalize q * ((p.2 - y).toNat / q) = b at *
          generalize (p.2 - y).toNat % q = r at *
          bv_omega
    · cases hp

/-- The cells do not overlap, so one above the other they show what each of them shows. -/
theorem stack_cells (hlen : text.length < 2 ^ 28) (x y fg bg : BitVec 32) :
    stack ((cells 10 0 0 0 text).map (cellLayer 10 x y fg bg)) = textLayer text x y fg bg := by
  refine stack_lines (by decide) (fun k l c => ?_) (fun k l c hcell => ?_) x y fg bg
  · rw [mem_cells, rows_zero, charAt]
    simp
  · obtain ⟨hk, hl⟩ := cells_bounds hcell
    constructor
    · omega
    · omega

/-- Every visible pixel of a string gets the colour of its character there, and nothing else
changes. -/
theorem fbPrint_draws (hg : s.Geometry) (hlen : strlen text < 2 ^ 28) (x y fg bg : BitVec 32) :
    s.Draws (textLayer (cstr text) x y fg bg) fun t => fbPrint t text x y fg bg := by
  have hdraws := printLoop_draws hg x y fg bg (cstr text) 0 0
  have hx : x + BitVec.ofNat 32 (8 * 0) = x := BitVec.add_zero x
  have hy : y + BitVec.ofNat 32 (10 * 0) = y := BitVec.add_zero y
  rw [stack_cells hlen, hx, hy] at hdraws
  exact hdraws

/-! ## Reading -/

/-- The characters from the blank to the tilde. -/
def printable : List UInt8 := (List.range 95).map fun n => (n + 32).toUInt8

/-- The character whose glyph is seen in the cell that begins at a pixel. -/
def readCell (s : Fb) (px py : Nat) (bg : BitVec 32) : Option UInt8 :=
  printable.find? fun c => (List.range 8).all fun row => (List.range 8).all fun col =>
    (s.colour (px + col) (py + row) != bg) == glyphBit c row col

/-- The characters in `n` cells next to each other. -/
def readRow (s : Fb) (px py : Nat) (bg : BitVec 32) (n : Nat) : List (Option UInt8) :=
  (List.range n).map fun k => readCell s (px + 8 * k) py bg

/-- A column of a glyph is a bit of its row, the leftmost one the highest. -/
theorem glyphBit_eq_testBit (c : UInt8) (row col : Nat) :
    glyphBit c row col = ((glyphOf c).getD row 0).toNat.testBit (7 - col) := by
  rw [glyphBit, Nat.one_shiftLeft, Nat.and_two_pow]
  cases ((glyphOf c).getD row 0).toNat.testBit (7 - col) with
  | false => simp
  | true => simp

/-- A glyph has eight rows. -/
theorem length_glyphOf : ∀ c ∈ printable, (glyphOf c).length = 8 := by
  decide +kernel

/-- No two printable characters look the same, which is what makes the screen readable. -/
theorem nodup_glyphs : (printable.map glyphOf).Nodup := by
  decide +kernel

/-- Printable characters that look the same are the same, as their glyphs differ in some row. -/
theorem glyph_inj (hc : c ∈ printable) (hd : d ∈ printable)
    (h : ∀ row < 8, ∀ col < 8, glyphBit c row col = glyphBit d row col) : c = d := by
  have hrow : ∀ row < 8, (glyphOf c).getD row 0 = (glyphOf d).getD row 0 := by
    intro row hlt
    refine UInt8.toNat_inj.1 (Nat.eq_of_testBit_eq fun i => ?_)
    rcases Nat.lt_or_ge i 8 with hi | hi
    · have hbit := h row hlt (7 - i) (by omega)
      rwa [glyphBit_eq_testBit, glyphBit_eq_testBit, show 7 - (7 - i) = i by omega] at hbit
    · have hbig : ∀ u : UInt8, u.toNat.testBit i = false := fun u =>
        Nat.testBit_lt_two_pow (u.toNat_lt.trans_le (Nat.pow_le_pow_right (by decide) hi))
      rw [hbig, hbig]
  have hglyph : glyphOf c = glyphOf d := by
    refine List.ext_getElem ((length_glyphOf c hc).trans (length_glyphOf d hd).symm)
      fun row hcrow hdrow => ?_
    have heq := hrow row (hcrow.trans_eq (length_glyphOf c hc))
    rwa [List.getD_eq_getElem _ _ hcrow, List.getD_eq_getElem _ _ hdrow] at heq
  exact List.inj_on_of_nodup_map nodup_glyphs hc hd hglyph

/-- A cell whose pixels differ from the background where the glyph of a printable character has its
bits is read as that character: no other glyph has the same bits. -/
theorem readCell_eq (hc : c ∈ printable) (h : ∀ row < 8, ∀ col < 8,
    s.colour (px + col) (py + row) ≠ bg ↔ glyphBit c row col = true) :
    readCell s px py bg = some c := by
  have hseen : ∀ d, ((List.range 8).all fun row => (List.range 8).all fun col =>
      (s.colour (px + col) (py + row) != bg) == glyphBit d row col) = true ↔
      ∀ row < 8, ∀ col < 8, glyphBit c row col = glyphBit d row col := by
    intro d
    simp only [List.all_eq_true, List.mem_range, beq_iff_eq]
    refine forall₄_congr fun row hrow col hcol => ?_
    have hbit : (s.colour (px + col) (py + row) != bg) = glyphBit c row col := by
      rw [Bool.eq_iff_iff, bne_iff_ne]
      exact h row hrow col hcol
    rw [hbit]
  unfold readCell
  cases hfind : printable.find? _ with
  | none => exact absurd ((hseen c).2 fun _ _ _ _ => rfl) (List.find?_eq_none.1 hfind c hc)
  | some d =>
      have hlooks := List.find?_some hfind
      rw [glyph_inj hc (List.mem_of_find?_eq_some hfind) ((hseen d).1 hlooks)]

/-- A text on one line is that line. -/
theorem splitOn_line (h : 10 ∉ text) : text.splitOn 10 = [text] :=
  List.splitOnP_eq_singleton fun c hc => by
    rw [beq_eq_false_iff_ne]
    rintro rfl
    exact h hc

/-- What is drawn of a line lies in its cells. -/
theorem textLayer_isSome {p : Point} (hline : 10 ∉ text)
    (h : (textLayer text x y fg bg p).isSome) :
    (p.1 - x).toNat < 8 * text.length ∧ (p.2 - y).toNat < 8 := by
  unfold textLayer linesLayer at h
  dsimp only at h
  rw [splitOn_line hline] at h
  split at h
  · next hrow =>
      rw [Option.isSome_map] at h
      cases hl : (p.2 - y).toNat / 10 with
      | zero =>
          rw [hl, List.getD_cons_zero] at h
          obtain ⟨c, hc⟩ := Option.isSome_iff_exists.1 h
          have hlt := (List.getElem?_eq_some_iff.1 hc).1
          omega
      | succ l =>
          rw [hl] at h
          cases h
  · cases h

/-- Cells that show the characters of a text are read as that text, each by itself. -/
theorem readRow_eq {n : Nat} (hlen : text.length = n) (htext : ∀ c ∈ text, c ∈ printable)
    (h : ∀ k (hk : k < text.length), ∀ row < 8, ∀ col < 8,
      s.colour (px + 8 * k + col) (py + row) ≠ bg ↔ glyphBit text[k] row col = true) :
    readRow s px py bg n = text.map some := by
  subst hlen
  refine List.ext_getElem (by simp [readRow]) fun k hk hk' => ?_
  rw [List.length_map] at hk'
  simp only [readRow, List.getElem_map, List.getElem_range]
  exact readCell_eq (htext _ (List.getElem_mem hk')) (h k hk')

/-! ## Strings next to each other -/

/-- Strings with their colours, printed one behind the other. -/
def rowLayers (y bg : BitVec 32) :
    BitVec 32 → List (List UInt8 × BitVec 32) → List (Layer Point (BitVec 32))
  | _, [] => []
  | x, (text, fg) :: pieces =>
      textLayer text x y fg bg :: rowLayers y bg (x + BitVec.ofNat 32 (8 * text.length)) pieces

/-- What they say together. -/
def rowText (pieces : List (List UInt8 × BitVec 32)) : List UInt8 := pieces.flatMap Prod.fst

/-- None of the strings of a row is longer than the row. -/
theorem length_le_rowText {pieces : List (List UInt8 × BitVec 32)} :
    ∀ piece ∈ pieces, piece.1.length ≤ (rowText pieces).length :=
  fun _ hpiece => (List.sublist_flatten_of_mem (List.mem_map_of_mem hpiece)).length_le

/-- A line in its row of cells: a pixel of the cell `k` has the colour of the `k`-th character
there. -/
theorem textLayer_line {p : Point} (fg bg : BitVec 32) (hline : 10 ∉ text) {k row col : Nat}
    (hx : (p.1 - x).toNat = 8 * k + col) (hy : (p.2 - y).toNat = row) (hrow : row < 8)
    (hcol : col < 8) : textLayer text x y fg bg p =
      (text[k]?).map fun c => if glyphBit c row col then fg else bg := by
  have hcell := linesLayer_cell (by decide) (text.splitOn 10) fg bg hx
    (hy.trans (Nat.zero_add row).symm : _ = 10 * 0 + row) hrow hcol
  rwa [splitOn_line hline, List.getD_cons_zero, ← splitOn_line hline] at hcell

/-- In their row of cells the strings show what they say, each in its colour, and nothing behind
it. -/
theorem rowLayers_cell (bg : BitVec 32) {pieces : List (List UInt8 × BitVec 32)} {p : Point}
    {k row col : Nat} (hlines : ∀ piece ∈ pieces, 10 ∉ piece.1)
    (hx : (p.1 - x).toNat = 8 * k + col) (hy : (p.2 - y).toNat = row) (hrow : row < 8)
    (hcol : col < 8) (hlen : x.toNat + 8 * (rowText pieces).length < 2 ^ 32) :
    (∀ hk : k < (rowText pieces).length, ∃ piece ∈ pieces, stack (rowLayers y bg x pieces) p =
        some (if glyphBit (rowText pieces)[k] row col then piece.2 else bg)) ∧
      ((rowText pieces).length ≤ k → stack (rowLayers y bg x pieces) p = none) := by
  induction pieces generalizing x k with
  | nil => exact ⟨fun hk => absurd hk (Nat.not_lt_zero k), fun _ => rfl⟩
  | cons piece pieces ih =>
      obtain ⟨text, fg⟩ := piece
      have htext : (rowText ((text, fg) :: pieces)) = text ++ rowText pieces := List.flatMap_cons
      have hfirst : textLayer text x y fg bg p =
          (text[k]?).map fun c => if glyphBit c row col then fg else bg :=
        textLayer_line fg bg (hlines _ List.mem_cons_self) hx hy hrow hcol
      rw [htext, List.length_append] at hlen
      have hrest := fun {k' : Nat} hx' => ih (x := x + BitVec.ofNat 32 (8 * text.length)) (k := k')
        (fun piece hpiece => hlines piece (List.mem_cons_of_mem _ hpiece)) hx' (by bv_omega)
      simp only [htext, rowLayers, stack_cons, overlay, List.length_append]
      rcases Nat.lt_or_ge k text.length with hk | hk
      · -- the cells of the other strings begin further right, a way round the whole plane off
        have hx' : (p.1 - (x + BitVec.ofNat 32 (8 * text.length))).toNat =
            8 * (2 ^ 29 + k - text.length) + col := by
          bv_omega
        have hnone := (hrest hx').2 (by omega)
        rw [List.getElem?_eq_getElem hk, Option.map_some] at hfirst
        refine ⟨fun _ => ⟨_, List.mem_cons_self, ?_⟩, fun hle => by omega⟩
        rw [hnone, hfirst, List.getElem_append_left hk]
        rfl
      · have hx' : (p.1 - (x + BitVec.ofNat 32 (8 * text.length))).toNat =
            8 * (k - text.length) + col := by
          bv_omega
        rw [List.getElem?_eq_none hk, Option.map_none] at hfirst
        obtain ⟨hcell, hbehind⟩ := hrest hx'
        refine ⟨fun hlt => ?_, fun hle => ?_⟩
        · obtain ⟨piece, hpiece, hsome⟩ := hcell (by omega)
          refine ⟨piece, List.mem_cons_of_mem _ hpiece, ?_⟩
          rw [hsome, List.getElem_append_right hk]
          rfl
        · rw [hbehind (by omega), hfirst]
          rfl

/-- What is drawn of the strings of a row lies in their cells, one behind the other. -/
theorem rowLayers_isSome {pieces : List (List UInt8 × BitVec 32)} {p : Point}
    (hlines : ∀ piece ∈ pieces, 10 ∉ piece.1) (hlen : 8 * (rowText pieces).length < 2 ^ 32)
    (h : (stack (rowLayers y bg x pieces) p).isSome) :
    (p.1 - x).toNat < 8 * (rowText pieces).length ∧ (p.2 - y).toNat < 8 := by
  induction pieces generalizing x with
  | nil => cases h
  | cons piece pieces ih =>
      obtain ⟨text, fg⟩ := piece
      have htext : rowText ((text, fg) :: pieces) = text ++ rowText pieces := List.flatMap_cons
      rw [htext, List.length_append] at hlen ⊢
      rw [rowLayers, stack_cons, overlay_isSome] at h
      rcases h with h | h
      · have hline : 10 ∉ text := hlines _ List.mem_cons_self
        obtain ⟨hx, hy⟩ := textLayer_isSome hline h
        exact ⟨by omega, hy⟩
      · obtain ⟨hx, hy⟩ := ih (fun piece hpiece => hlines piece (List.mem_cons_of_mem _ hpiece))
          (by omega) h
        exact ⟨by bv_omega, hy⟩

/-- The strings are printable, in colours of their own, and fit into `n` cells. -/
structure RowFits (bg : BitVec 32) (n : Nat) (pieces : List (List UInt8 × BitVec 32)) : Prop where
  chars : ∀ piece ∈ pieces, ∀ c ∈ piece.1, c ∈ printable
  colours : ∀ piece ∈ pieces, piece.2 ≠ bg
  length_le : (rowText pieces).length ≤ n

/-- A printable text holds nothing else. -/
theorem not_mem_of_printable (h : ∀ c ∈ text, c ∈ printable) (hc : c ∉ printable) : c ∉ text :=
  fun hmem => hc (h c hmem)

/-- The strings of a row that fits have no line breaks. -/
theorem RowFits.newline_not_mem {n : Nat} {pieces : List (List UInt8 × BitVec 32)}
    (h : RowFits bg n pieces) : ∀ piece ∈ pieces, 10 ∉ piece.1 :=
  fun piece hpiece => not_mem_of_printable (h.chars piece hpiece) (by decide)

/-- A row of cells that shows the strings and is blank behind them. -/
theorem RowFits.readRow_eq {n : Nat} {pieces : List (List UInt8 × BitVec 32)}
    (hfits : RowFits bg n pieces) (hright : x.toNat + 8 * n < 2 ^ 32)
    (hbottom : y.toNat + 8 < 2 ^ 32) (h : ∀ k < n, ∀ row < 8, ∀ col < 8,
      s.colour (x.toNat + 8 * k + col) (y.toNat + row) = (stack (rowLayers y bg x pieces)
        (pointOf (x.toNat + 8 * k + col) (y.toNat + row))).getD bg) :
    readRow s x.toNat y.toNat bg n =
      (rowText pieces ++ List.replicate (n - (rowText pieces).length) 32).map some := by
  have hlen := hfits.length_le
  have hall : (rowText pieces ++ List.replicate (n - (rowText pieces).length) 32).length = n := by
    rw [List.length_append, List.length_replicate]
    omega
  have hprintable : ∀ c ∈ rowText pieces ++ List.replicate (n - (rowText pieces).length) 32,
      c ∈ printable := by
    intro c hc
    rcases List.mem_append.1 hc with hc | hc
    · obtain ⟨piece, hpiece, hmem⟩ := List.mem_flatMap.1 hc
      exact hfits.chars piece hpiece c hmem
    · rw [List.eq_of_mem_replicate hc]
      decide
  refine OnkenOS.readRow_eq hall hprintable fun k hk row hrow col hcol => ?_
  rw [hall] at hk
  have hx : ((pointOf (x.toNat + 8 * k + col) (y.toNat + row)).1 - x).toNat = 8 * k + col := by
    unfold pointOf
    bv_omega
  have hy : ((pointOf (x.toNat + 8 * k + col) (y.toNat + row)).2 - y).toNat = row := by
    unfold pointOf
    bv_omega
  obtain ⟨hcell, hbehind⟩ :=
    rowLayers_cell bg hfits.newline_not_mem hx hy hrow hcol (by omega)
  rw [h k hk row hrow col hcol]
  rcases Nat.lt_or_ge k (rowText pieces).length with hin | hout
  · obtain ⟨piece, hpiece, hsome⟩ := hcell hin
    rw [hsome, List.getElem_append_left hin, Option.getD_some]
    split
    · next hbit => exact iff_of_true (hfits.colours piece hpiece) hbit
    · next hbit => exact iff_of_false (fun h => h rfl) hbit
  · have hblank : ∀ row < 8, ∀ col < 8, ¬glyphBit 32 row col = true := by decide
    rw [hbehind hout, List.getElem_append_right hout, List.getElem_replicate, Option.getD_none]
    exact iff_of_false (fun h => h rfl) (hblank row hrow col hcol)

end

/-- Wherever a string is printed, a visible pixel gets the colour of the character whose cell it
lies in, and nothing else changes; and a line of printable characters that is all on the screen can
be read back from it. -/
theorem printed_text_reads {s : Fb} (hg : s.Geometry) (x y fg bg : BitVec 32) {text : List UInt8}
    (hlen : strlen text < 2 ^ 28) :
    s.Draws (textLayer (cstr text) x y fg bg) (fun t => fbPrint t text x y fg bg) ∧
      ((∀ c ∈ text, c ∈ printable) → fg ≠ bg → x.toNat + 8 * text.length ≤ s.fbWidth.toNat →
        y.toNat + 8 ≤ s.fbHeight.toNat →
        readRow (fbPrint s text x y fg bg) x.toNat y.toNat bg text.length = text.map some) := by
  have hdraws := fbPrint_draws hg hlen x y fg bg
  refine ⟨hdraws, fun htext hne hright hbottom => ?_⟩
  have hzero : 0 ∉ text := fun h => absurd (htext 0 h) (by decide)
  have hwidth := s.fbWidth.isLt
  have hheight := s.fbHeight.isLt
  rw [cstr_of_zero_not_mem hzero] at hdraws
  have hline : 10 ∉ text := fun h => absurd (htext 10 h) (by decide)
  refine readRow_eq rfl htext fun k hk row hrow col hcol => ?_
  have hx : ((pointOf (x.toNat + 8 * k + col) (y.toNat + row)).1 - x).toNat = 8 * k + col := by
    unfold pointOf
    bv_omega
  have hy : ((pointOf (x.toNat + 8 * k + col) (y.toNat + row)).2 - y).toNat = row := by
    unfold pointOf
    bv_omega
  have hlayer := textLayer_line fg bg hline hx hy hrow hcol
  rw [List.getElem?_eq_getElem hk, Option.map_some] at hlayer
  rw [hdraws.colour ⟨by omega, by omega⟩, hlayer, Option.getD_some]
  split
  · next hbit => exact iff_of_true hne hbit
  · next hbit => exact iff_of_false (fun h => h rfl) hbit

/-- A title on a screen of 640 by 480 is read back from its thirteen cells. -/
theorem printed_text_reads_title :
    readRow (fbPrint (screenOf 640 480) (str "File Explorer") 226 159 0xFFFFFF 0x0055AA) 226 159
      0x0055AA 13 = (str "File Explorer").map some :=
  have hlen : strlen (str "File Explorer") < 2 ^ 28 := by decide
  (printed_text_reads (s := screenOf 640 480) ⟨by decide, by decide⟩ 226 159 0xFFFFFF 0x0055AA
    hlen).2 (List.all_iff_forall_prop.1 (by decide)) (by decide) (by decide) (by decide)

end OnkenOS
