import Mathlib.Algebra.Order.Ring.Int
import OnkenOS.Gui.Bmp
import OnkenOS.Gui.Pixels
import OnkenOS.Kernel.FsStore

/-!
# A picture written and drawn

`create_demo_bmp` ends every row with the padding of the format, and `draw_bmp_to_fb` reads the
rows without any. The reader puts the colour at offset `3 * (w * y + x)` at column `x` and row `y`
(`drawBmpRows_drawn`), the writer's is at `(3 * w + padding) * y + 3 * x`
(`bmpColorAt_bmpBytes`): the two agree exactly if rows need no padding or there is one row
(`drawBmpToFb_createDemoBmp_iff`).
-/

namespace OnkenOS

open While

/-! ## The reader -/

/-- The place of a whole picture. -/
def wholeAt (sx sy w h : Nat) : BmpPlace where
  screenX := sx
  screenY := sy
  maxW := w
  maxH := h

/-- `t` is the screen `s` with the first `k` pixels of a picture with `w` columns, drawn row by row
at `(sx, sy)`. -/
structure BmpDrawn (s : Fb) (data : List UInt8) (offset sx sy w k : Nat) (t : Fb) : Prop where
  mode : s.SameMode t
  pixel : ∀ x y, x < w → w * y + x < k →
    t.backBuffer (s.pixel (sx + x) (sy + y)) = bmpColorAt data (offset + 3 * (w * y + x))

section
variable {s t : Fb} {data : List UInt8} {offset sx sy w h x row : Nat}

/-- The coordinates of a place are those of its pixel. -/
theorem index_inj {x' y' y : Nat} (hx : x < w) (hx' : x' < w)
    (h : w * y + x = w * y' + x') : x = x' ∧ y = y' := by
  have hw : 0 < w := by omega
  have hrow : (w * y + x) / w = (w * y' + x') / w := by rw [h]
  rw [Nat.mul_add_div hw, Nat.mul_add_div hw, Nat.div_eq_of_lt hx, Nat.div_eq_of_lt hx'] at hrow
  have hy : y = y' := by omega
  subst hy
  exact ⟨by omega, rfl⟩

/-- The next pixel is plotted: at its place the screen shows its colour, and the pixels before it
stay. -/
theorem BmpDrawn.plot (hd : BmpDrawn s data offset sx sy w (w * row + x) t) (hg : s.Geometry)
    (hx : x < w) (hv : s.Visible (sx + x) (sy + row)) (hwidth : sx + w ≤ s.fbWidth.toNat) :
    BmpDrawn s data offset sx sy w (w * row + x + 1)
      (fbPlot t (BitVec.ofInt 32 ((sx : Int) + x)) (BitVec.ofInt 32 ((sy : Int) + row))
        (bmpColorAt data (offset + 3 * (w * row + x)))) := by
  have hX : BitVec.ofInt 32 ((sx : Int) + x) = BitVec.ofNat 32 (sx + x) :=
    BitVec.ofInt_natCast 32 (sx + x)
  have hY : BitVec.ofInt 32 ((sy : Int) + row) = BitVec.ofNat 32 (sy + row) :=
    BitVec.ofInt_natCast 32 (sy + row)
  have hon : BitVec.ofNat 32 (sx + x) < t.fbWidth ∧ BitVec.ofNat 32 (sy + row) < t.fbHeight := by
    rw [hd.mode.width, hd.mode.height, BitVec.lt_def, BitVec.lt_def, BitVec.toNat_ofNat,
      BitVec.toNat_ofNat]
    exact ⟨Nat.lt_of_le_of_lt (Nat.mod_le _ _) hv.1, Nat.lt_of_le_of_lt (Nat.mod_le _ _) hv.2⟩
  rw [hX, hY, fbPlot, if_pos hon]
  refine ⟨⟨hd.mode.width, hd.mode.height, hd.mode.pitch⟩, fun x' y' hx' hlt => ?_⟩
  have hword : wordIndex t.fbPitch (BitVec.ofNat 32 (sx + x)) (BitVec.ofNat 32 (sy + row)) =
      s.pixel (sx + x) (sy + row) := hd.mode.pixel _ _
  change Buf.set _ _ _ _ = _
  rw [hword, Buf.set]
  rcases eq_or_ne (w * y' + x') (w * row + x) with heq | hne
  · obtain ⟨rfl, rfl⟩ := index_inj hx' hx heq
    rw [Function.update_self]
  · rw [Function.update_of_ne, hd.pixel x' y' hx' (by omega)]
    intro hsame
    have hrow : y' ≤ row := by
      by_contra hbelow
      have hmul : w * (row + 1) ≤ w * y' := Nat.mul_le_mul_left w (by omega)
      rw [Nat.mul_add, Nat.mul_one] at hmul
      omega
    obtain ⟨h1, h2⟩ := pixel_inj hg ⟨by omega, Nat.lt_of_le_of_lt (by omega) hv.2⟩ hv hsame
    exact hne (by rw [show x' = x by omega, show y' = row by omega])

/-- A row of a picture whose bytes are all there: the index goes on by three bytes with every pixel,
and by nothing at the end of the row. -/
theorem loop_drawBmpColumn_drawn (hp : (wholeAt sx sy w h).InRange) (hg : s.Geometry)
    (hw : w < 2 ^ 31) (hh : h < 2 ^ 31) (hrow : row < h) (hwidth : sx + w ≤ s.fbWidth.toNat)
    (hheight : sy + h ≤ s.fbHeight.toNat) (hbytes : offset + 3 * (w * h) ≤ data.length)
    (hd : BmpDrawn s data offset sx sy w (w * row) t) :
    ∃ t', loop .timeout (drawBmpColumn data (wholeAt sx sy w h) w h (h - 1 - row : Int)) (2 ^ 31)
        { x := 0, dataIdx := offset + 3 * (w * row), fb := t } =
          .ok { x := w, dataIdx := offset + 3 * (w * (row + 1)), fb := t' } ∧
      BmpDrawn s data offset sx sy w (w * (row + 1)) t' := by
  have hlast : w * (row + 1) ≤ w * h := Nat.mul_le_mul_left w hrow
  rw [Nat.mul_add, Nat.mul_one] at hlast ⊢
  have hloop : ∃ c, loop .timeout
      (drawBmpColumn data (wholeAt sx sy w h) w h (h - 1 - row : Int)) (2 ^ 31)
      { x := 0, dataIdx := offset + 3 * (w * row), fb := t } = .ok c ∧
        c.x = w ∧ c.dataIdx = offset + 3 * (w * row + w) ∧
          BmpDrawn s data offset sx sy w (w * row + w) c.fb := by
    refine loop_spec
      (fun c : BmpColumns => ∃ x : Nat, x ≤ w ∧ c.x = x ∧ c.dataIdx = offset + 3 * (w * row + x) ∧
        BmpDrawn s data offset sx sy w (w * row + x) c.fb)
      (fun c => ((w : Int) - c.x).toNat) _ ?_ ⟨0, Nat.zero_le w, rfl, rfl, hd⟩ ?_
    · rintro ⟨_, _, t⟩ ⟨x, hxw, rfl, rfl, hd⟩
      rcases Nat.lt_or_eq_of_le hxw with hlt | rfl
      · refine .inl ⟨_, drawBmpColumn_ok hp (by omega) (by omega) (by omega) (by omega)
          (by omega) (by omega) (by omega), ⟨x + 1, hlt, rfl, ?_, ?_⟩, ?_⟩
        · change offset + 3 * (w * row + x) + 3 = offset + 3 * (w * row + (x + 1))
          omega
        · have hin : (x : Int) < (wholeAt sx sy w h).maxW ∧
              (h : Int) - 1 - (h - 1 - row) < (wholeAt sx sy w h).maxH := by
            change (x : Int) < w ∧ (h : Int) - 1 - (h - 1 - row) < h
            omega
          have hcount : (h : Int) - 1 - (h - 1 - row) = row := by omega
          dsimp only
          rw [if_pos hin, hcount]
          exact hd.plot hg hlt ⟨by omega, by omega⟩ hwidth
        · change ((w : Int) - (x + 1)).toNat < ((w : Int) - x).toNat
          omega
      · exact .inr ⟨_, drawBmpColumn_done (Int.le_refl _), rfl, rfl, hd⟩
    · change ((w : Int) - 0).toNat < 2 ^ 31
      omega
  obtain ⟨⟨_, _, t'⟩, hrun, rfl, rfl, hd'⟩ := hloop
  exact ⟨t', hrun, hd'⟩

/-- All rows, one behind the other: the reader takes pixel `y * w + x` from the place `3 * (y * w +
x)`, whatever padding there is. -/
theorem drawBmpRows_drawn (hp : (wholeAt sx sy w h).InRange) (hg : s.Geometry)
    (hw : w < 2 ^ 31) (hh : h < 2 ^ 31) (hwidth : sx + w ≤ s.fbWidth.toNat)
    (hheight : sy + h ≤ s.fbHeight.toNat) (hbytes : offset + 3 * (w * h) ≤ data.length) :
    ∃ t, drawBmpRows (2 ^ 31) data (wholeAt sx sy w h) w h offset s = .ok t ∧
      BmpDrawn s data offset sx sy w (w * h) t := by
  have hloop : ∃ rows, loop .timeout (drawBmpRow (2 ^ 31) data (wholeAt sx sy w h) w h) (2 ^ 31)
      { y := (h : Int) - 1, dataIdx := offset, fb := s } = .ok rows ∧
        BmpDrawn s data offset sx sy w (w * h) rows.fb := by
    refine loop_spec
      (fun rows : BmpRows => ∃ row : Nat, row ≤ h ∧ rows.y = (h : Int) - 1 - row ∧
        rows.dataIdx = offset + 3 * (w * row) ∧
        BmpDrawn s data offset sx sy w (w * row) rows.fb)
      (fun rows => (rows.y + 1).toNat) _ ?_ ⟨0, Nat.zero_le h, ?_, rfl, ⟨⟨rfl, rfl, rfl⟩, ?_⟩⟩ ?_
    · rintro ⟨_, _, t⟩ ⟨row, hrow, rfl, rfl, hd⟩
      rcases Nat.lt_or_eq_of_le hrow with hlt | rfl
      · obtain ⟨t', hrun, hd'⟩ :=
          loop_drawBmpColumn_drawn hp hg hw hh hlt hwidth hheight hbytes hd
        refine .inl ⟨⟨(h : Int) - 1 - row - 1, offset + 3 * (w * (row + 1)), t'⟩, ?_,
          ⟨row + 1, hlt, ?_, rfl, hd'⟩, ?_⟩
        · unfold drawBmpRow
          simp only [bind]
          rw [if_pos (by omega), hrun, ok_bind, intResult_ok (by omega) (by omega), ok_bind]
          rfl
        · change (h : Int) - 1 - row - 1 = h - 1 - (row + 1 : Nat)
          omega
        · change ((h : Int) - 1 - row - 1 + 1).toNat < ((h : Int) - 1 - row + 1).toNat
          omega
      · refine .inr ⟨_, if_neg ?_, hd⟩
        change ¬ ((row : Int) - 1 - row ≥ 0)
        omega
    · change (h : Int) - 1 = h - 1 - (0 : Nat)
      omega
    · intro x y _ hlt
      omega
    · change ((h : Int) - 1 + 1).toNat < 2 ^ 31
      omega
  obtain ⟨rows, hrun, hd⟩ := hloop
  refine ⟨rows.fb, ?_, hd⟩
  unfold drawBmpRows
  simp only [bind]
  rw [intResult_ok (by omega) (by omega), ok_bind, hrun, ok_bind]
  rfl

end

/-! ## The writer -/

/-- The colour that `create_demo_bmp` computes for a pixel. -/
def demoColor (w h x y : Nat) : BitVec 32 :=
  bmpColor ((bmpPixel w h x y).getD 2 0).toNat ((bmpPixel w h x y).getD 1 0).toNat
    ((bmpPixel w h x y).getD 0 0).toNat

section
variable {w h x y n k i : Nat}

/-- The lowest byte comes first, and then those of the rest. -/
theorem littleEndian_succ (n v : Nat) :
    littleEndian (n + 1) v = v.toUInt8 :: littleEndian n (v / 256) := by
  unfold littleEndian
  rw [List.range_succ_eq_map, List.map_cons, List.map_map, Nat.pow_zero, Nat.div_one]
  refine congrArg _ (List.map_congr_left fun i _ => ?_)
  rw [Function.comp, Nat.pow_succ', ← Nat.div_div_eq_div_mul]

/-- A field takes as many bytes as it is wide. -/
@[simp] theorem length_littleEndian (n v : Nat) : (littleEndian n v).length = n := by
  unfold littleEndian
  rw [List.length_map, List.length_range]

/-- A number is read back from the bytes that were copied from it. -/
theorem leValue_littleEndian (n v : Nat) : leValue (littleEndian n v) = v % 256 ^ n := by
  induction n generalizing v with
  | zero => rw [Nat.pow_zero, Nat.mod_one]; rfl
  | succ n ih =>
      have hbyte : v.toUInt8.toNat = v % 256 := rfl
      rw [littleEndian_succ, leValue, ih, hbyte, Nat.pow_succ', Nat.mod_mul]

/-- Rows of one length make up a block of that many bytes each. -/
theorem length_flatMap_range {f : Nat → List UInt8} (hf : ∀ y, (f y).length = n) (k : Nat) :
    ((List.range k).flatMap f).length = n * k := by
  induction k with
  | zero => rfl
  | succ k ih =>
      rw [List.range_succ, List.flatMap_append, List.length_append, ih, List.flatMap_singleton,
        hf, Nat.mul_succ]

/-- The entries of lists of one length, put one after the other. -/
theorem getElem?_flatMap_range {f : Nat → List UInt8} (hf : ∀ y, (f y).length = n) (hy : y < k)
    (hi : i < n) : ((List.range k).flatMap f)[n * y + i]? = (f y)[i]? := by
  have hlen := length_flatMap_range hf
  induction k with
  | zero => exact absurd hy (Nat.not_lt_zero y)
  | succ k ih =>
      rw [List.range_succ, List.flatMap_append, List.flatMap_singleton]
      rcases Nat.lt_or_eq_of_le (Nat.le_of_lt_succ hy) with hlt | rfl
      · have hmul : n * (y + 1) ≤ n * k := Nat.mul_le_mul_left n hlt
        rw [Nat.mul_succ] at hmul
        rw [List.getElem?_append_left (by rw [hlen]; omega), ih hlt]
      · rw [List.getElem?_append_right (by rw [hlen]; omega), hlen, Nat.add_sub_cancel_left]

/-- A pixel takes three bytes. -/
theorem length_bmpPixel (w h x y : Nat) : (bmpPixel w h x y).length = 3 := by
  unfold bmpPixel
  dsimp only
  split
  · split <;> rfl
  · split <;> rfl

/-- A row of the file. -/
def bmpRow (w h y : Nat) : List UInt8 :=
  ((List.range w).flatMap fun x => bmpPixel w h x y) ++ List.replicate (rowPadding w) 0

/-- The file is its header and its rows, one after the other. -/
theorem bmpBytes_eq (w h : Nat) :
    bmpBytes w h = bmpHeader w h ++ (List.range h).flatMap (bmpRow w h) := rfl

/-- The header has 54 bytes, which is the offset that it names. -/
theorem length_bmpHeader (w h : Nat) : (bmpHeader w h).length = 54 := by
  have hmagic : (str "BM").length = 2 := rfl
  unfold bmpHeader
  simp [hmagic]

/-- A row has three bytes for each pixel, and its padding. -/
theorem length_bmpRow (w h y : Nat) : (bmpRow w h y).length = 3 * w + rowPadding w := by
  unfold bmpRow
  rw [List.length_append, List.length_replicate,
    length_flatMap_range (fun x => length_bmpPixel w h x y)]

/-- The size that `create_demo_bmp` computes is that of the file. -/
theorem length_bmpBytes (w h : Nat) : (bmpBytes w h).length = 54 + totalPixelBytes w h := by
  rw [bmpBytes_eq, List.length_append, length_bmpHeader, length_flatMap_range (length_bmpRow w h)]
  unfold totalPixelBytes
  rw [Nat.mul_comm 3 w]

/-- A byte of a row in the file: the rows have one length, so row `y` begins that many times `y`
behind the header. -/
theorem getElem?_bmpBytes (hy : y < h) (hi : i < 3 * w + rowPadding w) :
    (bmpBytes w h)[54 + ((3 * w + rowPadding w) * y + i)]? = (bmpRow w h y)[i]? := by
  rw [bmpBytes_eq, List.getElem?_append_right (by rw [length_bmpHeader]; omega),
    length_bmpHeader, Nat.add_sub_cancel_left, getElem?_flatMap_range (length_bmpRow w h) hy hi]

/-- A byte of a pixel in its row: the pixels stand side by side, with three bytes each. -/
theorem getElem?_bmpRow (hx : x < w) (hi : i < 3) (y : Nat) :
    (bmpRow w h y)[3 * x + i]? = (bmpPixel w h x y)[i]? := by
  have hlen := length_flatMap_range (fun x => length_bmpPixel w h x y)
  unfold bmpRow
  rw [List.getElem?_append_left (by rw [hlen]; omega),
    getElem?_flatMap_range (fun x => length_bmpPixel w h x y) hx hi]

/-- The bytes behind the pixels of a row are zeros. -/
theorem getElem?_bmpRow_padding (hi : i < rowPadding w) (y : Nat) :
    (bmpRow w h y)[3 * w + i]? = some 0 := by
  have hlen := length_flatMap_range (fun x => length_bmpPixel w h x y)
  unfold bmpRow
  rw [List.getElem?_append_right (by rw [hlen]; omega), hlen, Nat.add_sub_cancel_left,
    List.getElem?_replicate, if_pos hi]

/-- A field of one byte is that byte, and zero behind the end. -/
theorem leValue_take_one (data : List UInt8) (i : Nat) :
    leValue ((data.drop i).take 1) = (data[i]?.getD 0).toNat := by
  rw [List.take_one, List.head?_drop]
  cases data[i]? with
  | none => rfl
  | some b => exact Nat.add_zero _

/-- The writer's pixel `(x, y)` stands where a reader that skips the padding looks for it. -/
theorem bmpColorAt_bmpBytes (hx : x < w) (hy : y < h) :
    bmpColorAt (bmpBytes w h) (54 + ((3 * w + rowPadding w) * y + 3 * x)) = demoColor w h x y := by
  have hbyte (i : Nat) (hi : i < 3) :
      (bmpBytes w h)[54 + ((3 * w + rowPadding w) * y + 3 * x) + i]? =
        (bmpPixel w h x y)[i]? := by
    rw [Nat.add_assoc, Nat.add_assoc, getElem?_bmpBytes hy (by omega), getElem?_bmpRow hx hi]
  unfold bmpColorAt demoColor
  rw [leValue_take_one, leValue_take_one, leValue_take_one, hbyte 2 (by omega),
    hbyte 1 (by omega), ← Nat.add_zero (54 + _), hbyte 0 (by omega)]
  simp only [List.getD_eq_getElem?_getD]

/-- The low byte of a colour is its blue, which tells apart what the reader takes from a pixel and
from the padding. -/
theorem bmpColor_blue (r g : Nat) {b : Nat} (hb : b < 256) : (bmpColor r g b).toNat % 256 = b := by
  have hshift (v k : Nat) (hk : 8 ≤ k) (hk' : k ≤ 32) :
      (BitVec.ofNat 32 v <<< k).toNat % 2 ^ 8 = 0 := by
    have hdvd : 2 ^ 8 ∣ 2 ^ k := Nat.pow_dvd_pow 2 hk
    rw [BitVec.toNat_shiftLeft, Nat.mod_mod_of_dvd _ (by decide), Nat.shiftLeft_eq]
    exact Nat.mod_eq_zero_of_dvd (Nat.dvd_mul_left_of_dvd hdvd _)
  have hlow : (BitVec.ofNat 32 b).toNat % 2 ^ 8 = b := by
    rw [BitVec.toNat_ofNat]
    omega
  unfold bmpColor
  change _ % 2 ^ 8 = b
  rw [BitVec.toNat_or, BitVec.toNat_or, Nat.or_mod_two_pow, Nat.or_mod_two_pow,
    hshift r 16 (by omega) (by omega), hshift g 8 (by omega) (by omega), hlow, Nat.zero_or,
    Nat.zero_or]

/-- The left column is outside the sun and its aura. -/
theorem bmpPixel_left (w h y : Nat) : bmpPixel w h 0 y =
    [(0x60 - y * 0x40 / h).toUInt8, (0x08 + y * 0x30 / h).toUInt8,
      (0x20 + y * 0x80 / h).toUInt8] := by
  have hsun : ((w / 3 : Nat) : Int) * (w / 3 : Nat) ≤ (w / 2 : Nat) * (w / 2 : Nat) := by
    have hthird : w / 3 ≤ w / 2 := by omega
    exact_mod_cast Nat.mul_le_mul hthird hthird
  have hdist : ((w / 2 : Nat) : Int) * (w / 2 : Nat) ≤
      ((0 : Nat) - (w / 2 : Nat) : Int) * ((0 : Nat) - (w / 2 : Nat)) +
        (y - (h / 2 : Nat)) * (y - (h / 2 : Nat)) := by
    have hdy := mul_self_nonneg ((y : Int) - (h / 2 : Nat))
    rw [Int.natCast_zero, Int.zero_sub, Int.neg_mul_neg]
    omega
  unfold bmpPixel
  dsimp only
  rw [if_neg (not_lt.2 (le_trans hsun hdist)), if_neg (not_lt.2 hdist)]

/-- In the second row its blue is not zero, so the padding cannot be taken for it. -/
theorem demoColor_blue (hh : 2 ≤ h) : (demoColor w h 0 1).toNat % 256 ≠ 0 := by
  have hstep : 1 * 0x40 / h ≤ 32 := Nat.div_le_of_le_mul (by omega)
  unfold demoColor
  rw [bmpColor_blue _ _ (UInt8.toNat_lt _), bmpPixel_left]
  change (0x60 - 1 * 0x40 / h) % 256 ≠ 0
  generalize 1 * 0x40 / h = step at hstep ⊢
  omega

/-- The reader takes the padding of the first row for the blue there. -/
theorem bmpColorAt_padding (hh : 0 < h) (hpad : 0 < rowPadding w) :
    (bmpColorAt (bmpBytes w h) (54 + 3 * w)).toNat % 256 = 0 := by
  have hbyte : (bmpBytes w h)[54 + 3 * w]? = some 0 := by
    have hrow := getElem?_bmpBytes (w := w) (i := 3 * w) hh (by omega)
    rw [Nat.mul_zero, Nat.zero_add] at hrow
    rw [hrow, ← Nat.add_zero (3 * w), getElem?_bmpRow_padding hpad]
  unfold bmpColorAt
  rw [bmpColor_blue, leValue_take_one, hbyte]
  · rfl
  · rw [leValue_take_one]
    exact UInt8.toNat_lt _

/-- The reader's colours are the writer's exactly if no row but the last has padding. -/
theorem bmpColorAt_eq_demoColor_iff (hw : 1 ≤ w) (hh : 1 ≤ h) :
    (∀ x y, x < w → y < h →
      bmpColorAt (bmpBytes w h) (54 + 3 * (w * y + x)) = demoColor w h x y) ↔
      w % 4 = 0 ∨ h = 1 := by
  constructor
  · intro hall
    by_contra hnot
    have hpad : 0 < rowPadding w := by
      unfold rowPadding
      omega
    have hcolor := hall 0 1 hw (by omega)
    rw [Nat.mul_one, Nat.add_zero] at hcolor
    refine demoColor_blue (w := w) (h := h) (by omega) ?_
    rw [← hcolor, bmpColorAt_padding hh hpad]
  · intro hok x y hx hy
    rw [← bmpColorAt_bmpBytes hx hy]
    congr 2
    rcases hok with hw4 | hone
    · have hpad : rowPadding w = 0 := by
        unfold rowPadding
        omega
      rw [hpad, Nat.add_zero, Nat.mul_add, Nat.mul_assoc]
    · have hy0 : y = 0 := by omega
      rw [hy0, Nat.mul_zero, Nat.mul_zero, Nat.zero_add, Nat.zero_add]

/-! ## The round trip -/

/-- What the reader looks at in the header: the two letters, the offset, the sizes, the bits of a
pixel and the compression. -/
theorem bmpBytes_fields (w h : Nat) :
    leValue (((bmpBytes w h).drop 0).take 1) = 66 ∧
      leValue (((bmpBytes w h).drop 1).take 1) = 77 ∧
      ((bmpBytes w h).drop 10).take 4 = littleEndian 4 54 ∧
      ((bmpBytes w h).drop 18).take 4 = littleEndian 4 w ∧
      ((bmpBytes w h).drop 22).take 4 = littleEndian 4 h ∧
      ((bmpBytes w h).drop 28).take 2 = littleEndian 2 24 := by
  have hmagic : str "BM" = [66, 77] := rfl
  unfold bmpBytes bmpHeader
  rw [hmagic]
  refine ⟨?_, ?_, ?_, ?_, ?_, ?_⟩
  · simp [leValue]
  · simp [leValue]
  · simp [List.drop_append, List.drop_of_length_le]
  · simp [List.drop_append, List.drop_of_length_le]
  · simp [List.drop_append, List.drop_of_length_le]
  · simp [List.drop_append, List.drop_of_length_le]

/-- The reader finds in the header what the writer stored there. -/
theorem drawBmpToFb_bmpBytes (hw : w < 2 ^ 31) (hh : h < 2 ^ 31) (fuel : Nat) (p : BmpPlace)
    (s : Fb) :
    drawBmpToFb fuel (bmpBytes w h) p s = drawBmpRows fuel (bmpBytes w h) p w h 54 s := by
  have hsize : 54 ≤ (bmpBytes w h).length := by
    rw [length_bmpBytes]
    omega
  have hint (v : Nat) (hv : v < 2 ^ 31) :
      (BitVec.ofNat 32 (leValue (littleEndian 4 v))).toInt = v := by
    rw [leValue_littleEndian, BitVec.toInt_eq_toNat_cond, BitVec.toNat_ofNat, if_pos (by omega)]
    omega
  obtain ⟨hb, hm, hoffset, hwidth, hheight, hbpp⟩ := bmpBytes_fields w h
  unfold drawBmpToFb
  simp only [bind]
  rw [if_neg (by omega), readBytes_ok (by omega), ok_bind, if_neg (not_not.2 hb),
    readBytes_ok (by omega), ok_bind, if_neg (not_not.2 hm), readInt32_ok (by omega), ok_bind,
    readInt32_ok (by omega), ok_bind, readBytes_ok (by omega), ok_bind, readBytes_ok (by omega),
    ok_bind, hwidth, hheight, hbpp, hoffset, hint w hw, hint h hh, leValue_littleEndian,
    leValue_littleEndian]
  exact if_neg (by decide)

/-- The picture fits in a file, and so do its dimensions in an `int`. -/
theorem lt_of_fits (hw : 1 ≤ w) (hh : 1 ≤ h) (hfits : 54 + totalPixelBytes w h ≤ maxFileSize) :
    w < 2 ^ 31 ∧ h < 2 ^ 31 := by
  have hfits' : 54 + (w * 3 + rowPadding w) * h ≤ 16384 := hfits
  have hrow : w * 3 + rowPadding w ≤ (w * 3 + rowPadding w) * h := Nat.le_mul_of_pos_right _ hh
  have hcol : h ≤ (w * 3 + rowPadding w) * h := Nat.le_mul_of_pos_left _ (by omega)
  omega

/-- On a table with room the file holds all the bytes. -/
theorem stored_createDemoBmp {files : Files} {name : List UInt8} (hroom : Storable files name)
    (hfits : 54 + totalPixelBytes w h ≤ maxFileSize) :
    Stored files (createDemoBmp files name w h) name (bmpBytes w h) := by
  have hstored := (stored_create_write_iff files name (bytesOf (bmpBytes w h))
    (bmpBytes w h).length).2 hroom
  rw [Nat.min_eq_left (by rw [length_bmpBytes]; exact hfits)] at hstored
  rw [createDemoBmp_eq_write files name hfits]
  have hall : (bytesOf (bmpBytes w h)).take (bmpBytes w h).length = bmpBytes w h :=
    take_getD _ _ rfl
  rwa [hall] at hstored

end

/-- Drawing the bytes shows at every pixel the colour the writer computed for it. -/
def ShowsDemo (data : List UInt8) (sx sy w h : Nat) (s : Fb) : Prop :=
  ∃ t, drawBmpToFb (2 ^ 31) data (wholeAt sx sy w h) s = .ok t ∧
    ∀ x y, x < w → y < h → t.backBuffer (s.pixel (sx + x) (sy + y)) = demoColor w h x y

section
variable {s : Fb} {sx sy w h : Nat}

/-- A picture on the screen is drawn back exactly if its rows have no padding or there is only one:
otherwise the second row begins with the padding of the first. -/
theorem showsDemo_bmpBytes_iff (hw : 1 ≤ w) (hh : 1 ≤ h)
    (hfits : 54 + totalPixelBytes w h ≤ maxFileSize) (hg : s.Geometry)
    (hp : (wholeAt sx sy w h).InRange) (hwidth : sx + w ≤ s.fbWidth.toNat)
    (hheight : sy + h ≤ s.fbHeight.toNat) :
    ShowsDemo (bmpBytes w h) sx sy w h s ↔ w % 4 = 0 ∨ h = 1 := by
  obtain ⟨hw31, hh31⟩ := lt_of_fits hw hh hfits
  have hbytes : 54 + 3 * (w * h) ≤ (bmpBytes w h).length := by
    rw [length_bmpBytes]
    unfold totalPixelBytes
    rw [Nat.add_mul, ← Nat.mul_assoc, Nat.mul_comm 3 w]
    omega
  obtain ⟨t, hrun, hdrawn⟩ := drawBmpRows_drawn hp hg hw31 hh31 hwidth hheight hbytes
  have hpixel (x y : Nat) (hx : x < w) (hy : y < h) :
      t.backBuffer (s.pixel (sx + x) (sy + y)) =
        bmpColorAt (bmpBytes w h) (54 + 3 * (w * y + x)) := by
    have hlast : w * (y + 1) ≤ w * h := Nat.mul_le_mul_left w hy
    rw [Nat.mul_succ] at hlast
    exact hdrawn.pixel x y hx (by omega)
  rw [← bmpColorAt_eq_demoColor_iff hw hh, ShowsDemo, drawBmpToFb_bmpBytes hw31 hh31, hrun]
  constructor
  · rintro ⟨t', ht', hshows⟩ x y hx hy
    cases ht'
    rw [← hpixel x y hx hy, hshows x y hx hy]
  · intro hcolors
    refine ⟨t, rfl, fun x y hx hy => ?_⟩
    rw [hpixel x y hx hy, hcolors x y hx hy]

/-- Writer and reader agree on the picture exactly if its rows have no padding or there is only
one: on a table with room the file is created, and drawing it shows every pixel in the colour
computed for it exactly then. -/
theorem drawBmpToFb_createDemoBmp_iff {files : Files} {name : List UInt8}
    (hroom : Storable files name) (hw : 1 ≤ w) (hh : 1 ≤ h)
    (hfits : 54 + totalPixelBytes w h ≤ maxFileSize) (hg : s.Geometry)
    (hp : (wholeAt sx sy w h).InRange) (hwidth : sx + w ≤ s.fbWidth.toNat)
    (hheight : sy + h ≤ s.fbHeight.toNat) :
    ∃ i, vfsOpen (createDemoBmp files name w h) name = some i ∧
      (ShowsDemo (createDemoBmp files name w h i).bytes sx sy w h s ↔ w % 4 = 0 ∨ h = 1) := by
  obtain ⟨i, hopen, hbytes, -⟩ := stored_createDemoBmp hroom hfits
  refine ⟨i, hopen, ?_⟩
  rw [hbytes]
  exact showsDemo_bmpBytes_iff hw hh hfits hg hp hwidth hheight

end

/-! ## On the first table -/

/-- In the empty table every name that fits in a slot can be stored. -/
theorem storable_zero {name : List UInt8} (hname : strlen name ≤ 31) : Storable Files.zero name :=
  ⟨hname, ⟨0, by decide⟩, .inr rfl⟩

/-- A screen of 1280 by 720 pixels is one. -/
theorem geometry_screenOf : (screenOf 1280 720).Geometry where
  stride := by decide
  fits := by decide

/-- A picture that ends before `2 ^ 31` is drawn with `int`s only. -/
theorem wholeAt_inRange {sx sy w h : Nat} (hx : sx + w ≤ 2 ^ 31) (hy : sy + h ≤ 2 ^ 31) :
    (wholeAt sx sy w h).InRange := by
  constructor <;> simp only [wholeAt] <;> omega

/-- The picture of `vfs_init`: its width is a multiple of four, so its rows have no padding. -/
theorem drawBmpToFb_createDemoBmp_iff_sunset :
    Storable Files.zero (str "sunset.bmp") ∧
      ∃ i, vfsOpen (createDemoBmp Files.zero (str "sunset.bmp") 48 48) (str "sunset.bmp") = some i ∧
        (ShowsDemo (createDemoBmp Files.zero (str "sunset.bmp") 48 48 i).bytes 0 0 48 48
          (screenOf 1280 720) ↔ 48 % 4 = 0 ∨ 48 = 1) :=
  ⟨storable_zero (by decide), drawBmpToFb_createDemoBmp_iff (storable_zero (by decide)) (by decide)
    (by decide) (by decide) geometry_screenOf (wholeAt_inRange (by decide) (by decide)) (by decide)
    (by decide)⟩

/-- A picture of five columns and two rows: the first pixel of the second row gets a byte of the
padding as its blue. -/
theorem drawBmpToFb_createDemoBmp_padded :
    ¬ ∀ (files : Files) (name : List UInt8) (w h sx sy : Nat) (s : Fb), Storable files name →
      1 ≤ w → 1 ≤ h → 54 + totalPixelBytes w h ≤ maxFileSize → s.Geometry →
      (wholeAt sx sy w h).InRange → sx + w ≤ s.fbWidth.toNat → sy + h ≤ s.fbHeight.toNat →
      ∃ i, vfsOpen (createDemoBmp files name w h) name = some i ∧
        ShowsDemo (createDemoBmp files name w h i).bytes sx sy w h s := by
  intro hall
  have hroom : Storable Files.zero (str "a.bmp") := storable_zero (by decide)
  have hfits : 54 + totalPixelBytes 5 2 ≤ maxFileSize := by decide
  have hp : (wholeAt 0 0 5 2).InRange := wholeAt_inRange (by decide) (by decide)
  obtain ⟨i, hopen, hshows⟩ := hall Files.zero (str "a.bmp") 5 2 0 0 (screenOf 1280 720) hroom
    (by decide) (by decide) hfits geometry_screenOf hp (by decide) (by decide)
  obtain ⟨j, hopen', hbytes, -⟩ := stored_createDemoBmp hroom hfits
  rw [hopen] at hopen'
  cases hopen'
  rw [hbytes, showsDemo_bmpBytes_iff (by decide) (by decide) hfits geometry_screenOf hp (by decide)
    (by decide)] at hshows
  omega

end OnkenOS
