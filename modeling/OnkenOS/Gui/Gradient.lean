import OnkenOS.Gui.Rect
import OnkenOS.Lib.Interpolation

/-!
# Gradients

`fb_gradient` of `gui/fb.c` computes one colour for each row and plots it. The difference of two
channels is an unsigned word that is read as a signed one, multiplied by the row and divided by the
height. Up to a height of `2 ^ 23` no product overflows, and a channel is the linear interpolation
between the two colours (`toNat_gradientChannel`), so that it fits in its byte of the packed colour
(`fbGradient_interpolates`).
-/

namespace OnkenOS

open Words Interpolation

/-- `(c >> 16) & 0xFF`. -/
def red (c : BitVec 32) : BitVec 32 := (c >>> 16) &&& 0xFF

/-- `(c >> 8) & 0xFF`. -/
def green (c : BitVec 32) : BitVec 32 := (c >>> 8) &&& 0xFF

/-- `c & 0xFF`. -/
def blue (c : BitVec 32) : BitVec 32 := c &&& 0xFF

/-- `v1 + (int32_t)(v2 - v1) * (int32_t)j / (int32_t)h`. -/
def gradientChannel (v1 v2 h : BitVec 32) (j : Nat) : BitVec 32 :=
  v1 + ((v2 - v1) * BitVec.ofNat 32 j).sdiv h

/-- The variables `r`, `g` and `b` of a row. -/
structure GradientRow where
  r : BitVec 32
  g : BitVec 32
  b : BitVec 32

def gradientRow (h c1 c2 : BitVec 32) (j : Nat) : GradientRow where
  r := gradientChannel (red c1) (red c2) h j
  g := gradientChannel (green c1) (green c2) h j
  b := gradientChannel (blue c1) (blue c2) h j

/-- `(r << 16) | (g << 8) | b`. -/
def GradientRow.color (row : GradientRow) : BitVec 32 := row.r <<< 16 ||| row.g <<< 8 ||| row.b

/-- `fb_gradient`. -/
def fbGradient (s : Fb) (x y w h c1 c2 : BitVec 32) : Fb :=
  forUp h.toNat (fun j s =>
    let color := (gradientRow h c1 c2 j).color
    forUp w.toNat (fun i s =>
      fbPlot s (x + BitVec.ofNat 32 i) (y + BitVec.ofNat 32 j) color) s) s

/-- What the rows below a height have in a channel that is `v1` in the first colour and `v2` in the
second: the values on the way from the one to the other, which are between the two and only go from
the first towards the second, from products that are `int`s. -/
structure Interpolates (v1 v2 h : BitVec 32) (v : Nat → BitVec 32) : Prop where
  value : ∀ j < h.toNat, ((v j).toNat : Int) = interp v1.toNat v2.toNat h.toNat j
  fits : ∀ j < h.toNat, (v2 - v1).smulOverflow (BitVec.ofNat 32 j) = false
  between : ∀ j < h.toNat, (v j).toNat ∈ Set.uIcc v1.toNat v2.toNat
  rising : v1 ≤ v2 → MonotoneOn (fun j => (v j).toNat) (Set.Iio h.toNat)
  falling : v2 ≤ v1 → AntitoneOn (fun j => (v j).toNat) (Set.Iio h.toNat)

/-- The channels of the packed colour are the values of the row, and there is nothing above them. -/
structure GradientRow.Packed (row : GradientRow) : Prop where
  red : red row.color = row.r
  green : green row.color = row.g
  blue : blue row.color = row.b
  lt : row.color.toNat < 2 ^ 24

/-! ## One channel -/

section
variable {v1 v2 h : BitVec 32} {j : Nat}

/-- The difference of two channels is an `int`, with its sign. -/
theorem toInt_sub_of_bytes (h1 : v1.toNat < 256) (h2 : v2.toNat < 256) :
    (v2 - v1).toInt = v2.toNat - v1.toNat := by
  rw [BitVec.toInt_eq_toNat_cond, BitVec.toNat_sub]
  omega

/-- The number of a row is an `int`. -/
theorem toInt_ofNat_of_lt (hj : j < 2 ^ 31) : (BitVec.ofNat 32 j).toInt = j := by
  rw [BitVec.toInt_eq_toNat_cond, BitVec.toNat_ofNat]
  omega

/-- The product of a difference of channels and a row. -/
theorem mul_row_bounds (h1 : v1.toNat < 256) (h2 : v2.toNat < 256) (hj : j < 2 ^ 23) :
    -2 ^ 31 < ((v2.toNat : Int) - v1.toNat) * j ∧ ((v2.toNat : Int) - v1.toNat) * j < 2 ^ 31 := by
  have hlow : -255 * (j : Int) ≤ ((v2.toNat : Int) - v1.toNat) * j :=
    Int.mul_le_mul_of_nonneg_right (by omega) (by omega)
  have hhigh : ((v2.toNat : Int) - v1.toNat) * j ≤ 255 * (j : Int) :=
    Int.mul_le_mul_of_nonneg_right (by omega) (by omega)
  omega

/-- The product of a difference of channels and a row is an `int` below `2 ^ 23` rows. -/
theorem smulOverflow_row (h1 : v1.toNat < 256) (h2 : v2.toNat < 256) (hj : j < 2 ^ 23) :
    (v2 - v1).smulOverflow (BitVec.ofNat 32 j) = false := by
  have hbounds := mul_row_bounds h1 h2 hj
  unfold BitVec.smulOverflow
  rw [toInt_sub_of_bytes h1 h2, toInt_ofNat_of_lt (by omega)]
  simp only [Bool.or_eq_false_iff, decide_eq_false_iff_not]
  omega

/-- A channel is the interpolation between those of the two colours: the 32-bit product and quotient
are those of numbers, as the channels are bytes. -/
theorem toNat_gradientChannel (h1 : v1.toNat < 256) (h2 : v2.toNat < 256) (hj : j < h.toNat)
    (hmax : h.toNat ≤ 2 ^ 23) :
    ((gradientChannel v1 v2 h j).toNat : Int) = interp v1.toNat v2.toNat h.toNat j := by
  have hpos : (0 : Int) < h.toNat := by omega
  have hbetween : interp v1.toNat v2.toNat h.toNat j ∈ Set.uIcc (v1.toNat : Int) v2.toNat :=
    interp_mem_uIcc hpos (by omega) (by omega)
  have hmul : ((v2 - v1) * BitVec.ofNat 32 j).toInt = ((v2.toNat : Int) - v1.toNat) * j := by
    have hfits := smulOverflow_row h1 h2 (j := j) (by omega)
    rw [BitVec.toInt_mul_of_not_smulOverflow (by simp [hfits]), toInt_sub_of_bytes h1 h2,
      toInt_ofNat_of_lt (by omega)]
  have hheight : h.toInt = h.toNat := BitVec.toInt_eq_toNat_of_lt (by omega)
  have hdiv : (((v2 - v1) * BitVec.ofNat 32 j).sdiv h).toInt =
      (((v2.toNat : Int) - v1.toNat) * j).tdiv h.toNat := by
    rw [BitVec.toInt_sdiv_of_ne_or_ne, hmul, hheight]
    refine .inr ?_
    rintro rfl
    exact absurd hmax (by decide)
  rw [BitVec.toInt_eq_toNat_cond] at hdiv
  rw [Set.mem_uIcc] at hbetween
  unfold gradientChannel
  unfold interp at hbetween ⊢
  rw [BitVec.toNat_add]
  omega

/-- A channel goes from its first value towards the second, without leaving the interval or going
back. -/
theorem gradientChannel_interpolates (h1 : v1.toNat < 256) (h2 : v2.toNat < 256)
    (hmax : h.toNat ≤ 2 ^ 23) : Interpolates v1 v2 h (gradientChannel v1 v2 h) := by
  have hval (j : Nat) (hj : j < h.toNat) := toNat_gradientChannel h1 h2 hj hmax
  constructor
  · exact hval
  · intro j hj
    exact smulOverflow_row h1 h2 (by omega)
  · intro j hj
    have hbetween : interp v1.toNat v2.toNat h.toNat j ∈ Set.uIcc (v1.toNat : Int) v2.toNat :=
      interp_mem_uIcc (by omega) (by omega) (by omega)
    rw [← hval j hj] at hbetween
    rw [Set.mem_uIcc] at hbetween ⊢
    omega
  · intro hle i hi j hj hij
    have hmono := monotone_interp (a := v1.toNat) (b := v2.toNat) (n := h.toNat)
      (by have := Set.mem_Iio.1 hj; omega) (Int.ofNat_le.2 (BitVec.le_def.1 hle))
      (Int.ofNat_le.2 hij)
    rw [← hval i hi, ← hval j hj] at hmono
    exact Int.ofNat_le.1 hmono
  · intro hle i hi j hj hij
    have hanti := antitone_interp (a := v1.toNat) (b := v2.toNat) (n := h.toNat)
      (by have := Set.mem_Iio.1 hj; omega) (Int.ofNat_le.2 (BitVec.le_def.1 hle))
      (Int.ofNat_le.2 hij)
    rw [← hval i hi, ← hval j hj] at hanti
    exact Int.ofNat_le.1 hanti

/-- Between two bytes is a byte, so no row needs more than its eight bits. -/
theorem Interpolates.lt_of_bytes {v : Nat → BitVec 32} (hv : Interpolates v1 v2 h v)
    (h1 : v1.toNat < 256) (h2 : v2.toNat < 256) (hj : j < h.toNat) : (v j).toNat < 256 := by
  have hbetween := hv.between j hj
  rw [Set.mem_uIcc] at hbetween
  omega

/-- Row zero has the first colour, for every height. -/
theorem gradientChannel_zero (v1 v2 h : BitVec 32) : gradientChannel v1 v2 h 0 = v1 := by
  unfold gradientChannel
  rw [BitVec.mul_zero, BitVec.zero_sdiv, BitVec.add_zero]

end

/-! ## The packed colour -/

/-- A byte of a word, cut out with a shift and a mask. -/
theorem toNat_shift_mask (c : BitVec 32) (k : Nat) :
    ((c >>> k) &&& 0xFF).toNat = c.toNat / 2 ^ k % 2 ^ 8 := by
  rw [BitVec.toNat_and, BitVec.toNat_ushiftRight, Nat.shiftRight_eq_div_pow]
  exact Nat.and_two_pow_sub_one_eq_mod _ 8

/-- The red channel is the byte from bit 16 on. -/
theorem toNat_red (c : BitVec 32) : (red c).toNat = c.toNat / 2 ^ 16 % 2 ^ 8 :=
  toNat_shift_mask c 16

/-- The green channel is the byte from bit 8 on. -/
theorem toNat_green (c : BitVec 32) : (green c).toNat = c.toNat / 2 ^ 8 % 2 ^ 8 :=
  toNat_shift_mask c 8

/-- The blue channel is the lowest byte. -/
theorem toNat_blue (c : BitVec 32) : (blue c).toNat = c.toNat % 2 ^ 8 := by
  have hmask := toNat_shift_mask c 0
  rwa [BitVec.ushiftRight_zero, Nat.pow_zero, Nat.div_one] at hmask

/-- Values of a byte do not bleed into each other: each of them has its eight bits of the packed
colour. -/
theorem toNat_color {row : GradientRow} (hr : row.r.toNat < 256) (hg : row.g.toNat < 256)
    (hb : row.b.toNat < 256) :
    row.color.toNat = row.r.toNat * 2 ^ 16 + row.g.toNat * 2 ^ 8 + row.b.toNat := by
  unfold GradientRow.color
  rw [BitVec.toNat_or, BitVec.toNat_or, BitVec.toNat_shiftLeft, BitVec.toNat_shiftLeft,
    Nat.shiftLeft_eq, Nat.shiftLeft_eq, Nat.mod_eq_of_lt (by omega), Nat.mod_eq_of_lt (by omega)]
  have hor (k a b : Nat) (hlt : b < 2 ^ k) : 2 ^ k * a ||| b = 2 ^ k * a + b :=
    (Nat.two_pow_add_eq_or_of_lt hlt a).symm
  calc row.r.toNat * 2 ^ 16 ||| row.g.toNat * 2 ^ 8 ||| row.b.toNat
    _ = 2 ^ 8 * (row.r.toNat * 2 ^ 8 + row.g.toNat) ||| row.b.toNat := by
      rw [Nat.mul_comm row.r.toNat, hor 16 _ _ (by omega)]
      congr 1
      omega
    _ = _ := by
      rw [hor 8 _ _ hb]
      omega

/-- Three values that are bytes do not run into each other when they are packed. -/
theorem packed_of_bytes {row : GradientRow} (hr : row.r.toNat < 256) (hg : row.g.toNat < 256)
    (hb : row.b.toNat < 256) : row.Packed := by
  have hcolor := toNat_color hr hg hb
  constructor
  · refine BitVec.eq_of_toNat_eq ?_
    rw [toNat_red, hcolor]
    omega
  · refine BitVec.eq_of_toNat_eq ?_
    rw [toNat_green, hcolor]
    omega
  · refine BitVec.eq_of_toNat_eq ?_
    rw [toNat_blue, hcolor]
    omega
  · rw [hcolor]
    omega

/-- The red channel is a byte. -/
theorem red_lt (c : BitVec 32) : (red c).toNat < 256 := by
  rw [toNat_red]
  omega

/-- The green channel is a byte. -/
theorem green_lt (c : BitVec 32) : (green c).toNat < 256 := by
  rw [toNat_green]
  omega

/-- The blue channel is a byte. -/
theorem blue_lt (c : BitVec 32) : (blue c).toNat < 256 := by
  rw [toNat_blue]
  omega

/-- A colour put together from its own channels is the colour without its highest byte. -/
theorem color_channels (c : BitVec 32) :
    (⟨red c, green c, blue c⟩ : GradientRow).color = c &&& 0xFFFFFF := by
  refine BitVec.eq_of_toNat_eq ?_
  have hmask : (c &&& 0xFFFFFF).toNat = c.toNat % 2 ^ 24 := by
    rw [BitVec.toNat_and]
    exact Nat.and_two_pow_sub_one_eq_mod _ 24
  rw [toNat_color (red_lt c) (green_lt c) (blue_lt c), hmask]
  dsimp only
  rw [toNat_red, toNat_green, toNat_blue]
  omega

/-! ## The rows on the screen -/

section
variable {s : Fb} {x y w h c1 c2 : BitVec 32} {px py : Nat}

/-- The words that a row of plots stores to. -/
def Fb.rowWords (s : Fb) (x y w : BitVec 32) (j : Nat) : Set Nat :=
  {k | ∃ i < w.toNat, (x + BitVec.ofNat 32 i < s.fbWidth ∧ y + BitVec.ofNat 32 j < s.fbHeight) ∧
    k = wordIndex s.fbPitch (x + BitVec.ofNat 32 i) (y + BitVec.ofNat 32 j)}

/-- The inner loop paints the words of one row in one colour. -/
theorem gradientRow_paints (s : Fb) (x y w color : BitVec 32) (j : Nat) :
    s.Paints (s.rowWords x y w j) color fun t => forUp w.toNat (fun i t =>
      fbPlot t (x + BitVec.ofNat 32 i) (y + BitVec.ofNat 32 j) color) t :=
  .forUp (fun i => fbPlot_paints s (x + BitVec.ofNat 32 i) (y + BitVec.ofNat 32 j) color) w.toNat

/-- Counting from `x` to a pixel and adding `x` again gives the pixel, also around the end of the 32
bits. -/
theorem ofNat_add_sub (x : BitVec 32) (n : Nat) :
    x + BitVec.ofNat 32 (BitVec.ofNat 32 n - x).toNat = BitVec.ofNat 32 n := by
  rw [BitVec.ofNat_toNat, BitVec.setWidth_eq]
  bv_omega

/-- A pixel of the rectangle is stored to in its row. -/
theorem pixel_mem_rowWords (hv : s.Visible px py) (hx : (BitVec.ofNat 32 px - x).toNat < w.toNat) :
    s.pixel px py ∈ s.rowWords x y w (BitVec.ofNat 32 py - y).toNat := by
  obtain ⟨hpx, hpy⟩ := hv
  refine ⟨_, hx, ?_, ?_⟩
  · rw [ofNat_add_sub, ofNat_add_sub]
    constructor
    · bv_omega
    · bv_omega
  · rw [ofNat_add_sub, ofNat_add_sub]
    rfl

/-- It is stored to in no other row: the word of a visible pixel determines its row. -/
theorem eq_of_pixel_mem_rowWords (hg : s.Geometry) (hv : s.Visible px py) {j : Nat}
    (hj : j < 2 ^ 32) (hmem : s.pixel px py ∈ s.rowWords x y w j) :
    j = (BitVec.ofNat 32 py - y).toNat := by
  obtain ⟨i, -, ⟨hcol, hrow⟩, he⟩ := hmem
  have hvis : s.Visible (x + BitVec.ofNat 32 i).toNat (y + BitVec.ofNat 32 j).toNat := ⟨hcol, hrow⟩
  have hword : s.pixel (x + BitVec.ofNat 32 i).toNat (y + BitVec.ofNat 32 j).toNat =
      wordIndex s.fbPitch (x + BitVec.ofNat 32 i) (y + BitVec.ofNat 32 j) := by
    unfold Fb.pixel
    rw [BitVec.ofNat_toNat, BitVec.ofNat_toNat, BitVec.setWidth_eq, BitVec.setWidth_eq]
  obtain ⟨-, hpy⟩ := pixel_inj hg hv hvis (he.trans hword.symm)
  bv_omega

/-- After `fb_gradient` a visible pixel of the rectangle has the colour of its row. -/
theorem fbGradient_pixel (hg : s.Geometry) (hv : s.Visible px py)
    (hx : (BitVec.ofNat 32 px - x).toNat < w.toNat)
    (hy : (BitVec.ofNat 32 py - y).toNat < h.toNat) :
    (fbGradient s x y w h c1 c2).backBuffer (s.pixel px py) =
      (gradientRow h c1 c2 (BitVec.ofNat 32 py - y).toNat).color := by
  refine Fb.Paints.forUp_of_mem (fun j => gradientRow_paints s x y w
    (gradientRow h c1 c2 j).color j) hy (pixel_mem_rowWords hv hx) ?_
  intro j hlt hj hmem
  have heq := eq_of_pixel_mem_rowWords hg hv (Nat.lt_trans hj h.isLt) hmem
  omega

end

/-- Each row of `fb_gradient` has the values that interpolate between the channels of the two
colours, and so values between these. From the first row, which has the low 24 bits of `c1`,
downward they change in one direction only, no product overflows, and the channels of the packed
colour, which is what the pixels of the row get, are exactly these values. -/
theorem fbGradient_interpolates (h c1 c2 : BitVec 32) (hmax : h.toNat ≤ 2 ^ 23) :
    Interpolates (red c1) (red c2) h (fun j => (gradientRow h c1 c2 j).r) ∧
      Interpolates (green c1) (green c2) h (fun j => (gradientRow h c1 c2 j).g) ∧
      Interpolates (blue c1) (blue c2) h (fun j => (gradientRow h c1 c2 j).b) ∧
      (∀ j < h.toNat, (gradientRow h c1 c2 j).Packed) ∧
      (gradientRow h c1 c2 0).color = c1 &&& 0xFFFFFF ∧
      ∀ (s : Fb) (x y w : BitVec 32) (px py : Nat), s.Geometry → s.Visible px py →
        (BitVec.ofNat 32 px - x).toNat < w.toNat → (BitVec.ofNat 32 py - y).toNat < h.toNat →
        (fbGradient s x y w h c1 c2).backBuffer (s.pixel px py) =
          (gradientRow h c1 c2 (BitVec.ofNat 32 py - y).toNat).color := by
  have hr := gradientChannel_interpolates (red_lt c1) (red_lt c2) hmax
  have hg := gradientChannel_interpolates (green_lt c1) (green_lt c2) hmax
  have hb := gradientChannel_interpolates (blue_lt c1) (blue_lt c2) hmax
  refine ⟨hr, hg, hb, fun j hj => packed_of_bytes ?_ ?_ ?_, ?_, ?_⟩
  · exact hr.lt_of_bytes (red_lt c1) (red_lt c2) hj
  · exact hg.lt_of_bytes (green_lt c1) (green_lt c2) hj
  · exact hb.lt_of_bytes (blue_lt c1) (blue_lt c2) hj
  · unfold gradientRow
    rw [gradientChannel_zero, gradientChannel_zero, gradientChannel_zero, color_channels]
  · intro s x y w px py hgeom hv hx hy
    exact fbGradient_pixel hgeom hv hx hy

/-- The gradient of the wallpaper on a screen of 1280 by 720: the green channel rises, and the first
pixel has the first colour. -/
theorem fbGradient_interpolates_wallpaper :
    MonotoneOn (fun j => (gradientRow 720 0x1A1A2E 0x16213E j).g.toNat)
        (Set.Iio (720 : BitVec 32).toNat) ∧
      (fbGradient (screenOf 1280 720) 0 0 1280 720 0x1A1A2E 0x16213E).backBuffer
        ((screenOf 1280 720).pixel 0 0) = 0x1A1A2E := by
  obtain ⟨-, hgreen, -, -, -, hpixel⟩ :=
    fbGradient_interpolates 720 0x1A1A2E 0x16213E (by decide)
  refine ⟨hgreen.rising (by decide), ?_⟩
  exact hpixel (screenOf 1280 720) 0 0 1280 0 0 ⟨by decide, by decide⟩ ⟨by decide, by decide⟩
    (by decide) (by decide)

end OnkenOS
