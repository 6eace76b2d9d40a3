import OnkenOS.Gui.Fb

/-!
# Pixels and words

Where the words of the visible pixels lie. `Fb.Geometry` is what a framebuffer with rows of at
least `fb_width` pixels and fewer than `2 ^ 32` words satisfies; in it distinct pixels have
distinct words (`pixel_inj`).
-/

namespace OnkenOS

open Words

/-- A row of pixels fits in the pitch, and the index of a word in 32 bits. -/
structure Fb.Geometry (s : Fb) : Prop where
  stride : s.fbWidth.toNat ≤ s.fbPitch.toNat / 4
  fits : s.fbHeight.toNat * (s.fbPitch.toNat / 4) < 2 ^ 32

/-- The column and row are on the screen. -/
def Fb.Visible (s : Fb) (px py : Nat) : Prop := px < s.fbWidth.toNat ∧ py < s.fbHeight.toNat

/-- The state `s` with another back buffer. -/
def Fb.withBack (s : Fb) (b : Buf) : Fb := { s with backBuffer := b }

/-- A framebuffer of the given size. -/
def screenOf (w h : BitVec 32) : Fb :=
  { Fb.static with fbWidth := w, fbHeight := h, fbPitch := 4 * w }

section
variable {s t : Fb} {px py : Nat}

/-- Dividing an unsigned word by four is dividing the number. -/
theorem toNat_div_four (x : BitVec 32) : (x / 4).toNat = x.toNat / 4 := by
  rw [BitVec.toNat_udiv]; rfl

/-- The index of a word is that of its row and column, wrapped around at 32 bits. -/
theorem wordIndex_eq (fbPitch x y : BitVec 32) :
    wordIndex fbPitch x y = (y.toNat * (fbPitch.toNat / 4) + x.toNat) % 2 ^ 32 := by
  unfold wordIndex
  rw [BitVec.toNat_add, BitVec.toNat_mul, toNat_div_four, Nat.mod_add_mod]

/-- The words of a row lie next to each other, `fb_pitch / 4` words after the last row. -/
theorem pixel_eq (hg : s.Geometry) (hv : s.Visible px py) :
    s.pixel px py = py * (s.fbPitch.toNat / 4) + px := by
  obtain ⟨hx, hy⟩ := hv
  have hstride := hg.stride
  have hrow : (py + 1) * (s.fbPitch.toNat / 4) ≤ s.fbHeight.toNat * (s.fbPitch.toNat / 4) :=
    Nat.mul_le_mul_right _ hy
  have hfits := hg.fits
  have hpy : py < 2 ^ 32 := Nat.lt_trans hy s.fbHeight.isLt
  have hpx : px < 2 ^ 32 := Nat.lt_trans hx s.fbWidth.isLt
  rw [Nat.add_mul, Nat.one_mul] at hrow
  unfold Fb.pixel
  rw [wordIndex_eq, BitVec.toNat_ofNat, BitVec.toNat_ofNat, Nat.mod_eq_of_lt hpy,
    Nat.mod_eq_of_lt hpx, Nat.mod_eq_of_lt (by omega)]

/-- Two visible pixels at one word are one pixel, as a row is no longer than its pitch and the frame
has fewer than `2 ^ 32` bytes. -/
theorem pixel_inj (hg : s.Geometry) {qx qy : Nat} (hp : s.Visible px py) (hq : s.Visible qx qy)
    (he : s.pixel px py = s.pixel qx qy) : px = qx ∧ py = qy := by
  rw [pixel_eq hg hp, pixel_eq hg hq] at he
  have hpx : px < s.fbPitch.toNat / 4 := Nat.lt_of_lt_of_le hp.1 hg.stride
  have hqx : qx < s.fbPitch.toNat / 4 := Nat.lt_of_lt_of_le hq.1 hg.stride
  have hpos : 0 < s.fbPitch.toNat / 4 := by omega
  have hy : py = qy := by
    have := congrArg (· / (s.fbPitch.toNat / 4)) he
    simp only [Nat.mul_comm _ (s.fbPitch.toNat / 4), Nat.mul_add_div hpos,
      Nat.div_eq_of_lt hpx, Nat.div_eq_of_lt hqx, Nat.add_zero] at this
    exact this
  subst hy
  exact ⟨by omega, rfl⟩

/-- `t` has the screen of `s`. -/
structure Fb.SameMode (s t : Fb) : Prop where
  width : t.fbWidth = s.fbWidth
  height : t.fbHeight = s.fbHeight
  pitch : t.fbPitch = s.fbPitch

/-- Screens of one mode have their pixels at the same words. -/
theorem Fb.SameMode.pixel (h : s.SameMode t) (px py : Nat) : t.pixel px py = s.pixel px py := by
  unfold Fb.pixel
  rw [h.pitch]

end

end OnkenOS
