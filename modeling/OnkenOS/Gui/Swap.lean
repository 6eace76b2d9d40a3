import OnkenOS.Lib.Run
import OnkenOS.Gui.Pixels

/-!
# The diffing swap

`fb_swap` copies, in each row, the words between the first and the last that differ from the
shadow copy of the screen. `fbSwap_spec` says which words that touches; as long as the shadow
copy agrees with the screen, the effect is that of copying every visible pixel
(`fb_swap_eq_copy`). After `fb_alloc_buffers` it need not agree: `fb_screen_shows_back_iff` is
the exact condition under which the first frame reaches the screen.
-/

namespace OnkenOS

open Words

section
variable {s t : Fb} {px py : Nat}

/-- No row changes the screen mode, so the swap does not. -/
theorem fbSwap_mode (s : Fb) : s.SameMode (fbSwap s) := by
  refine forUp_invariant (I := fun _ t => s.SameMode t) ⟨rfl, rfl, rfl⟩ fun py t _ h => ?_
  unfold fbSwapRow
  simp only
  split
  · exact ⟨h.width, h.height, h.pitch⟩
  · exact h

/-! ## One row -/

/-- The pixel differs from the shadow copy of the screen. -/
def Fb.differs (s : Fb) (py px : Nat) : Bool :=
  s.backBuffer (s.pixel px py) != s.frontBufferCopy (s.pixel px py)

/-- `fb_swap` copies this word: it is a pixel between two pixels of its row that differ from
the shadow copy. -/
def Fb.Touched (s : Fb) (py k : Nat) : Prop :=
  ∃ px x₁ x₂, k = s.pixel px py ∧ x₁ ≤ px ∧ px ≤ x₂ ∧ x₂ < s.fbWidth.toNat ∧
    s.differs py x₁ = true ∧ s.differs py x₂ = true

/-- `memcpy32` copies the words of its range to the same places, and nothing else. -/
theorem memcpy32_apply (d b : Buf) (off : Nat) (size : BitVec 32) (k : Nat) :
    memcpy32 d b off off size k =
      if off ≤ k ∧ k < off + size.toNat / 4 then b k else d k := by
  rw [memcpy32, copyWords_apply, toNat_div_four]

/-- The range one row copies, as the words of the pixels in the span of the scan. -/
theorem row_range_iff (hg : s.Geometry) (hy : py < s.fbHeight.toNat) {f l : Nat}
    (hfl : f ≤ l) (hl : l < s.fbWidth.toNat) (k : Nat) :
    (s.pixel f py ≤ k ∧ k < s.pixel f py + (l - f + 1)) ↔
      ∃ px, k = s.pixel px py ∧ f ≤ px ∧ px ≤ l := by
  have hf : s.pixel f py = py * (s.fbPitch.toNat / 4) + f := pixel_eq hg ⟨by omega, hy⟩
  constructor
  · rintro ⟨h₁, h₂⟩
    obtain ⟨i, rfl⟩ := Nat.exists_eq_add_of_le h₁
    refine ⟨f + i, ?_, by omega, by omega⟩
    rw [pixel_eq hg ⟨show f + i < _ by omega, hy⟩, hf]
    omega
  · rintro ⟨px, rfl, h₁, h₂⟩
    rw [pixel_eq hg ⟨show px < _ by omega, hy⟩, hf]
    omega

/-- The scan of one row. -/
def Fb.rowScan (s : Fb) (py : Nat) : Nat × Nat :=
  scanSpan (s.differs py) s.fbWidth.toNat s.fbWidth.toNat

/-- A word of a row is copied if its pixel lies between the first and the last one that differ. -/
theorem touched_iff (k : Nat) : s.Touched py k ↔ (s.rowScan py).1 < s.fbWidth.toNat ∧
    ∃ px, k = s.pixel px py ∧ (s.rowScan py).1 ≤ px ∧ px ≤ (s.rowScan py).2 := by
  unfold Fb.Touched Fb.rowScan
  constructor
  · rintro ⟨px, x₁, x₂, hk, hspan⟩
    obtain ⟨hlt, hpx⟩ := (mem_scanSpan_iff _ _ px).2 ⟨x₁, x₂, hspan⟩
    exact ⟨hlt, px, hk, hpx⟩
  · rintro ⟨hlt, px, hk, hpx⟩
    obtain ⟨x₁, x₂, hspan⟩ := (mem_scanSpan_iff _ _ px).1 ⟨hlt, hpx⟩
    exact ⟨px, x₁, x₂, hk, hspan⟩

/-- The byte count of a span does not overflow: a row is shorter than the pitch. -/
theorem span_bytes (hg : s.Geometry) {f l : Nat} (hfl : f ≤ l) (hl : l < s.fbWidth.toNat) :
    ((BitVec.ofNat 32 l - BitVec.ofNat 32 f + 1) * 4).toNat / 4 = l - f + 1 := by
  have hstride := hg.stride
  have hpitch := s.fbPitch.isLt
  have hcount : (BitVec.ofNat 32 l - BitVec.ofNat 32 f + 1).toNat = l - f + 1 := by
    bv_omega
  rw [BitVec.toNat_mul, hcount]
  change (l - f + 1) * 4 % 2 ^ 32 / 4 = l - f + 1
  omega

/-- One row of the loop copies the touched words, and changes nothing else. -/
theorem fbSwapRow_spec (hg : s.Geometry) (hy : py < s.fbHeight.toNat) :
    ∃ vram front : Buf,
      fbSwapRow py s = { s with fbPtr := vram, frontBufferCopy := front } ∧
      (∀ k, s.Touched py k → vram k = s.backBuffer k ∧ front k = s.backBuffer k) ∧
      ∀ k, ¬ s.Touched py k → vram k = s.fbPtr k ∧ front k = s.frontBufferCopy k := by
  have hrow : fbSwapRow py s =
      if BitVec.ofNat 32 (s.rowScan py).1 < s.fbWidth then
        { s with
          fbPtr := memcpy32 s.fbPtr s.backBuffer (s.pixel (s.rowScan py).1 py)
            (s.pixel (s.rowScan py).1 py)
            ((BitVec.ofNat 32 (s.rowScan py).2 - BitVec.ofNat 32 (s.rowScan py).1 + 1) * 4)
          frontBufferCopy := memcpy32 s.frontBufferCopy s.backBuffer
            (s.pixel (s.rowScan py).1 py) (s.pixel (s.rowScan py).1 py)
            ((BitVec.ofNat 32 (s.rowScan py).2 - BitVec.ofNat 32 (s.rowScan py).1 + 1) * 4) }
      else s := rfl
  have htouched : ∀ k, s.Touched py k ↔ (s.rowScan py).1 < s.fbWidth.toNat ∧
      ∃ px, k = s.pixel px py ∧ (s.rowScan py).1 ≤ px ∧ px ≤ (s.rowScan py).2 := touched_iff
  have hW := s.fbWidth.isLt
  rcases scanSpan_spec (s.differs py) s.fbWidth.toNat s.fbWidth.toNat (Nat.le_refl _) with
    ⟨hw, -⟩ | ⟨-, -, hfl, hl, -⟩
  · -- the sentinel: no word of the row differs
    change (s.rowScan py).1 = s.fbWidth.toNat at hw
    rw [hrow, hw, BitVec.ofNat_toNat, BitVec.setWidth_eq, if_neg (BitVec.lt_irrefl _)]
    refine ⟨s.fbPtr, s.frontBufferCopy, rfl, fun k hk => ?_, fun k _ => ⟨rfl, rfl⟩⟩
    have := ((htouched k).1 hk).1
    omega
  · change (s.rowScan py).1 ≤ (s.rowScan py).2 at hfl
    change (s.rowScan py).2 < s.fbWidth.toNat at hl
    generalize s.rowScan py = fl at hrow htouched hfl hl
    have hlt : BitVec.ofNat 32 fl.1 < s.fbWidth := by
      rw [BitVec.lt_def, BitVec.toNat_ofNat, Nat.mod_eq_of_lt (by omega)]
      omega
    rw [if_pos hlt] at hrow
    have hrange : ∀ k, s.Touched py k ↔
        s.pixel fl.1 py ≤ k ∧ k < s.pixel fl.1 py +
          ((BitVec.ofNat 32 fl.2 - BitVec.ofNat 32 fl.1 + 1) * 4).toNat / 4 := by
      intro k
      rw [htouched k, span_bytes hg hfl hl, row_range_iff hg hy hfl hl]
      exact and_iff_right (by omega)
    refine ⟨_, _, hrow, fun k hk => ?_, fun k hk => ?_⟩
    · rw [memcpy32_apply, memcpy32_apply, if_pos ((hrange k).1 hk), if_pos ((hrange k).1 hk)]
      exact ⟨rfl, rfl⟩
    · rw [memcpy32_apply, memcpy32_apply, if_neg (mt (hrange k).2 hk),
        if_neg (mt (hrange k).2 hk)]
      exact ⟨rfl, rfl⟩

/-! ## All rows -/

/-- The word is a touched word of some row. -/
def Fb.Copied (s : Fb) (k : Nat) : Prop := ∃ py, py < s.fbHeight.toNat ∧ s.Touched py k

/-- The state `s` with another screen and another shadow copy. -/
def Fb.withScreen (s : Fb) (vram front : Buf) : Fb :=
  { s with fbPtr := vram, frontBufferCopy := front }

/-- The layout does not depend on what the screen shows. -/
theorem withScreen_geometry (hg : s.Geometry) (vram front : Buf) :
    (s.withScreen vram front).Geometry := ⟨hg.stride, hg.fits⟩

/-- A shadow copy that agrees on a row makes the same words of the row touched. -/
theorem touched_withScreen {vram front : Buf}
    (h : ∀ px, px < s.fbWidth.toNat → front (s.pixel px py) = s.frontBufferCopy (s.pixel px py))
    (k : Nat) : (s.withScreen vram front).Touched py k ↔ s.Touched py k := by
  have hdiff : ∀ px, px < s.fbWidth.toNat →
      (s.withScreen vram front).differs py px = s.differs py px := by
    intro px hpx
    change (s.backBuffer (s.pixel px py) != front (s.pixel px py)) = _
    rw [h px hpx]
    rfl
  constructor
  · rintro ⟨px, x₁, x₂, hk, h₁, h₂, hx₂, hd₁, hd₂⟩
    rw [hdiff _ (Nat.lt_of_le_of_lt (Nat.le_trans h₁ h₂) hx₂)] at hd₁
    rw [hdiff _ hx₂] at hd₂
    exact ⟨px, x₁, x₂, hk, h₁, h₂, hx₂, hd₁, hd₂⟩
  · rintro ⟨px, x₁, x₂, hk, h₁, h₂, hx₂, hd₁, hd₂⟩
    rw [← hdiff _ (Nat.lt_of_le_of_lt (Nat.le_trans h₁ h₂) hx₂)] at hd₁
    rw [← hdiff _ hx₂] at hd₂
    exact ⟨px, x₁, x₂, hk, h₁, h₂, hx₂, hd₁, hd₂⟩

/-- A word of one row is not touched by another. -/
theorem not_touched_of_ne (hg : s.Geometry) (hv : s.Visible px py) {qy : Nat}
    (hqy : qy < s.fbHeight.toNat) (hne : qy ≠ py) : ¬ s.Touched qy (s.pixel px py) := by
  rintro ⟨qx, x₁, x₂, hk, -, h₂, hx₂, -⟩
  exact hne (pixel_inj hg hv ⟨Nat.lt_of_le_of_lt h₂ hx₂, hqy⟩ hk).2.symm

/-- **What `fb_swap` does to every word**: it copies the words between the first and the last pixel
of a row that differ, to the screen and to the shadow copy, and leaves the others. -/
theorem fbSwap_spec (hg : s.Geometry) :
    ∃ vram front : Buf, fbSwap s = s.withScreen vram front ∧
      (∀ k, s.Copied k → vram k = s.backBuffer k ∧ front k = s.backBuffer k) ∧
      ∀ k, ¬ s.Copied k → vram k = s.fbPtr k ∧ front k = s.frontBufferCopy k := by
  -- the invariant: the rows done so far have been copied, the others are as before
  let I : Nat → Fb → Prop := fun n t => n ≤ s.fbHeight.toNat →
    ∃ vram front : Buf, t = s.withScreen vram front ∧
      (∀ k, (∃ py, py < n ∧ s.Touched py k) → vram k = s.backBuffer k ∧ front k = s.backBuffer k) ∧
      ∀ k, ¬ (∃ py, py < n ∧ s.Touched py k) → vram k = s.fbPtr k ∧ front k = s.frontBufferCopy k
  have hinv : I s.fbHeight.toNat (fbSwap s) := by
    refine forUp_invariant ?_ fun n t hn ih => ?_
    · intro _
      refine ⟨s.fbPtr, s.frontBufferCopy, rfl, fun k hk => ?_, fun k _ => ⟨rfl, rfl⟩⟩
      obtain ⟨py, hpy, -⟩ := hk
      exact absurd hpy (Nat.not_lt_zero py)
    · intro _
      obtain ⟨vram, front, rfl, hdone, htodo⟩ := ih (by omega)
      obtain ⟨vram', front', hrow, hcopied, hkept⟩ :=
        fbSwapRow_spec (withScreen_geometry hg vram front) hn
      have hsame : ∀ k, (s.withScreen vram front).Touched n k ↔ s.Touched n k := by
        refine touched_withScreen fun px hpx => (htodo _ ?_).2
        rintro ⟨py, hpy, htouch⟩
        exact not_touched_of_ne hg ⟨hpx, hn⟩ (by omega) (by omega) htouch
      refine ⟨vram', front', hrow, fun k hk => ?_, fun k hk => ?_⟩
      · by_cases hnk : s.Touched n k
        · exact hcopied k ((hsame k).2 hnk)
        · obtain ⟨py, hpy, htouch⟩ := hk
          have hlt : py < n := by
            rcases Nat.lt_or_ge py n with h | h
            · exact h
            · exact absurd ((show py = n by omega) ▸ htouch) hnk
          obtain ⟨hv, hf⟩ := hkept k (mt (hsame k).1 hnk)
          obtain ⟨hv', hf'⟩ := hdone k ⟨py, hlt, htouch⟩
          exact ⟨hv.trans hv', hf.trans hf'⟩
      · have hnk : ¬ s.Touched n k := fun h => hk ⟨n, Nat.lt_succ_self n, h⟩
        obtain ⟨hv, hf⟩ := hkept k (mt (hsame k).1 hnk)
        obtain ⟨hv', hf'⟩ := htodo k fun ⟨py, hpy, h⟩ => hk ⟨py, Nat.lt_succ_of_lt hpy, h⟩
        exact ⟨hv.trans hv', hf.trans hf'⟩
  exact hinv (Nat.le_refl _)

/-- A visible pixel is copied exactly when it lies between two pixels of its row that differ
from the shadow copy. -/
theorem copied_pixel_iff (hg : s.Geometry) (hv : s.Visible px py) :
    s.Copied (s.pixel px py) ↔ ∃ x₁ x₂, x₁ ≤ px ∧ px ≤ x₂ ∧ x₂ < s.fbWidth.toNat ∧
      s.differs py x₁ = true ∧ s.differs py x₂ = true := by
  constructor
  · rintro ⟨qy, hqy, qx, x₁, x₂, hk, h₁, h₂, hx₂, hd⟩
    obtain ⟨rfl, rfl⟩ := pixel_inj hg hv ⟨Nat.lt_of_le_of_lt h₂ hx₂, hqy⟩ hk
    exact ⟨x₁, x₂, h₁, h₂, hx₂, hd⟩
  · rintro ⟨x₁, x₂, h₁, h₂, hx₂, hd⟩
    exact ⟨py, hv.2, px, x₁, x₂, rfl, h₁, h₂, hx₂, hd⟩

/-- A pixel that is not copied did not differ from the shadow copy. -/
theorem back_eq_of_not_copied (hv : s.Visible px py) (hc : ¬ s.Copied (s.pixel px py)) :
    s.backBuffer (s.pixel px py) = s.frontBufferCopy (s.pixel px py) := by
  by_contra hne
  have hd : s.differs py px = true := bne_iff_ne.2 hne
  exact hc ⟨py, hv.2, px, px, px, rfl, Nat.le_refl _, Nat.le_refl _, hv.1, hd, hd⟩

/-- After the swap the shadow copy shows the back buffer. -/
theorem fbSwap_front (hg : s.Geometry) (hv : s.Visible px py) :
    (fbSwap s).frontBufferCopy (s.pixel px py) = s.backBuffer (s.pixel px py) := by
  obtain ⟨vram, front, he, hcopied, hkept⟩ := fbSwap_spec hg
  rw [he]
  by_cases hc : s.Copied (s.pixel px py)
  · exact (hcopied _ hc).2
  · exact (hkept _ hc).2.trans (back_eq_of_not_copied hv hc).symm

/-- After the swap the screen shows the back buffer at a pixel exactly when the pixel was
copied, or screen and shadow copy agreed there. -/
theorem fbSwap_screen_iff (hg : s.Geometry) (hv : s.Visible px py) :
    (fbSwap s).fbPtr (s.pixel px py) = s.backBuffer (s.pixel px py) ↔
      s.fbPtr (s.pixel px py) = s.frontBufferCopy (s.pixel px py) ∨ s.Copied (s.pixel px py) := by
  obtain ⟨vram, front, he, hcopied, hkept⟩ := fbSwap_spec hg
  rw [he]
  change vram (s.pixel px py) = _ ↔ _
  by_cases hc : s.Copied (s.pixel px py)
  · exact iff_of_true (hcopied _ hc).1 (.inr hc)
  · rw [(hkept _ hc).1, back_eq_of_not_copied hv hc]
    exact (or_iff_left hc).symm

/-! ## Frames -/

/-- What happens to the buffers: any change of the back buffer, and a swap. -/
inductive FbEvent where
  | draw (b : Buf)
  | swap

/-- One event. -/
def fbStep (s : Fb) : FbEvent → Fb
  | .draw b => { s with backBuffer := b }
  | .swap => fbSwap s

/-- No event changes the screen mode. -/
theorem fbRun_mode (s : Fb) (es : List FbEvent) : s.SameMode (Machine.run fbStep s es) := by
  refine Machine.run_invariant (fun t e h => ?_) es ⟨rfl, rfl, rfl⟩
  cases e with
  | draw b => exact ⟨h.width, h.height, h.pitch⟩
  | swap =>
      have hswap := fbSwap_mode t
      exact ⟨hswap.width.trans h.width, hswap.height.trans h.height, hswap.pitch.trans h.pitch⟩

/-- The plain copy of every visible pixel to the screen. -/
def copyAll (s : Fb) : Fb :=
  forUp s.fbHeight.toNat (fun py s =>
    forUp s.fbWidth.toNat (fun px s =>
      { s with fbPtr := s.fbPtr.set (s.pixel px py) (s.backBuffer (s.pixel px py)) }) s) s

/-- One event, with the plain copy in place of the swap. -/
def copyStep (s : Fb) : FbEvent → Fb
  | .draw b => { s with backBuffer := b }
  | .swap => copyAll s

/-- The shadow copy agrees with the screen. -/
def Fb.Mirrored (s : Fb) : Prop :=
  ∀ px py, s.Visible px py → s.fbPtr (s.pixel px py) = s.frontBufferCopy (s.pixel px py)

/-- The screen shows the back buffer. -/
def Fb.ShowsBack (s : Fb) : Prop :=
  ∀ px py, s.Visible px py → s.fbPtr (s.pixel px py) = s.backBuffer (s.pixel px py)

/-- The plain copy, as writes to the screen only. -/
theorem copyAll_eq (s : Fb) : copyAll s = s.withScreen
    (fillGrid s.fbWidth.toNat s.fbHeight.toNat s.pixel (fun px py => s.backBuffer (s.pixel px py))
      s.fbPtr) s.frontBufferCopy := by
  refine forUp_component (fun v => s.withScreen v s.frontBufferCopy)
    (fun py v => forUp s.fbWidth.toNat
      (fun px v => v.set (s.pixel px py) (s.backBuffer (s.pixel px py))) v) ?_ s.fbPtr
  intro py v _
  refine forUp_component (fun v => s.withScreen v s.frontBufferCopy)
    (fun px v => v.set (s.pixel px py) (s.backBuffer (s.pixel px py))) ?_ v
  intro px v _
  rfl

/-- After the plain copy the screen shows the back buffer. -/
theorem copyAll_screen (hg : s.Geometry) (hv : s.Visible px py) :
    (copyAll s).fbPtr (s.pixel px py) = s.backBuffer (s.pixel px py) := by
  rw [copyAll_eq]
  refine fillGrid_at hv.1 hv.2 (fun x' y' hx' hy' hk => ?_) s.fbPtr
  obtain ⟨rfl, rfl⟩ := pixel_inj hg ⟨hx', hy'⟩ hv hk
  rfl

/-- The states of the two machines: one screen size, one back buffer, one picture; and the
shadow copy of the first agrees with its screen. -/
structure SameScreen (s t : Fb) : Prop where
  geometry : s.Geometry
  mode : s.SameMode t
  back : t.backBuffer = s.backBuffer
  mirrored : s.Mirrored
  screen : ∀ px py, s.Visible px py → t.fbPtr (s.pixel px py) = s.fbPtr (s.pixel px py)

/-- The diffing swap with a shadow copy that agrees with the screen shows the back buffer. -/
theorem fbSwap_screen (hg : s.Geometry) (hm : s.Mirrored) (hv : s.Visible px py) :
    (fbSwap s).fbPtr (s.pixel px py) = s.backBuffer (s.pixel px py) :=
  (fbSwap_screen_iff hg hv).2 (.inl (hm px py hv))

/-- The two swaps keep the machines in step: what the diffing one skips is on the screen already. -/
theorem SameScreen.step (h : SameScreen s t) (e : FbEvent) :
    SameScreen (fbStep s e) (copyStep t e) := by
  cases e with
  | draw b => exact ⟨⟨h.geometry.stride, h.geometry.fits⟩, ⟨h.mode.width, h.mode.height,
      h.mode.pitch⟩, rfl, h.mirrored, h.screen⟩
  | swap =>
      have hgt : t.Geometry := by
        refine ⟨?_, ?_⟩
        · rw [h.mode.width, h.mode.pitch]; exact h.geometry.stride
        · rw [h.mode.height, h.mode.pitch]; exact h.geometry.fits
      have hvt : ∀ {px py}, s.Visible px py → t.Visible px py := by
        intro px py hv
        exact ⟨h.mode.width ▸ hv.1, h.mode.height ▸ hv.2⟩
      obtain ⟨vram, front, he, -⟩ := fbSwap_spec h.geometry
      have hshow : ∀ px py, s.Visible px py →
          (fbSwap s).fbPtr (s.pixel px py) = s.backBuffer (s.pixel px py) :=
        fun px py hv => fbSwap_screen h.geometry h.mirrored hv
      have hfront : ∀ px py, s.Visible px py →
          (fbSwap s).frontBufferCopy (s.pixel px py) = s.backBuffer (s.pixel px py) :=
        fun px py hv => fbSwap_front h.geometry hv
      have hcopy : ∀ px py, s.Visible px py →
          (copyAll t).fbPtr (s.pixel px py) = s.backBuffer (s.pixel px py) := by
        intro px py hv
        have := copyAll_screen hgt (hvt hv)
        rwa [h.mode.pixel, h.back] at this
      change SameScreen (fbSwap s) (copyAll t)
      rw [copyAll_eq] at hcopy ⊢
      rw [he] at hshow hfront ⊢
      refine ⟨withScreen_geometry h.geometry _ _, ⟨h.mode.width, h.mode.height, h.mode.pitch⟩,
        h.back, fun px py hv => ?_, fun px py hv => ?_⟩
      · exact (hshow px py hv).trans (hfront px py hv).symm
      · exact (hcopy px py hv).trans (hshow px py hv).symm

/-- **The diffing swap equals a full copy.** From any state whose shadow copy agrees with the
screen: one swap makes screen and shadow copy show the back buffer, and writes nothing else;
and whatever is drawn between the swaps, the screen is the one the plain copy produces. -/
theorem fb_swap_eq_copy (s : Fb) (hg : s.Geometry) (hm : s.Mirrored) :
    ((∀ px py, s.Visible px py →
        (fbSwap s).fbPtr (s.pixel px py) = s.backBuffer (s.pixel px py) ∧
        (fbSwap s).frontBufferCopy (s.pixel px py) = s.backBuffer (s.pixel px py)) ∧
      (fbSwap s).backBuffer = s.backBuffer ∧
      ∀ k, (∀ px py, s.Visible px py → k ≠ s.pixel px py) → (fbSwap s).fbPtr k = s.fbPtr k) ∧
    ∀ (es : List FbEvent) (px py : Nat), s.Visible px py →
      (Machine.run fbStep s es).fbPtr (s.pixel px py) =
        (Machine.run copyStep s es).fbPtr (s.pixel px py) := by
  refine ⟨⟨fun px py hv => ⟨fbSwap_screen hg hm hv, fbSwap_front hg hv⟩, ?_, ?_⟩, ?_⟩
  · obtain ⟨vram, front, he, -⟩ := fbSwap_spec hg
    rw [he]
    rfl
  · intro k hk
    obtain ⟨vram, front, he, -, hkept⟩ := fbSwap_spec hg
    rw [he]
    refine (hkept k ?_).1
    rintro ⟨py, hpy, px, x₁, x₂, hkp, -, h₂, hx₂, -⟩
    exact hk px py ⟨Nat.lt_of_le_of_lt h₂ hx₂, hpy⟩ hkp
  · intro es px py hv
    have hsim : SameScreen (Machine.run fbStep s es) (Machine.run copyStep s es) :=
      Machine.run_simulation (fun _ _ e h => h.step e) es
        ⟨hg, ⟨rfl, rfl, rfl⟩, rfl, hm, fun _ _ _ => rfl⟩
    have hmode := fbRun_mode s es
    have hscreen := hsim.screen px py ⟨hmode.width ▸ hv.1, hmode.height ▸ hv.2⟩
    rw [hmode.pixel] at hscreen
    exact hscreen.symm

/-- A screen of two pixels, one of which changes: after the swap it is on the screen. -/
theorem fb_swap_eq_copy_two_pixels :
    (fbSwap { Fb.static with
      fbWidth := 2, fbHeight := 1, fbPitch := 8, backBuffer := fun i => i }).fbPtr 1 = 1 := by
  have hswap := fb_swap_eq_copy { Fb.static with
    fbWidth := 2, fbHeight := 1, fbPitch := 8, backBuffer := fun i => i }
    ⟨by decide, by decide⟩ fun _ _ _ => rfl
  exact (hswap.1.1 1 0 ⟨by decide, by decide⟩).1

/-! ## The first frame -/

/-- The state after `fb_init_raw` and `fb_alloc_buffers`: `vram` is what the screen memory
holds, the other four are what the blocks from the heap hold. -/
def bootFb (w h pitch : BitVec 32) (vram back wallpaper desktop front : Buf) : Fb :=
  fbAllocBuffers (fbInitRaw Fb.static vram w h pitch) back wallpaper desktop front

/-- The back buffer at the first swap, if there is one. -/
def firstFrame : Buf → List FbEvent → Option Buf
  | _, [] => none
  | _, .draw b :: es => firstFrame b es
  | b, .swap :: _ => some b

/-- After every swap of the run the screen shows the back buffer. -/
def ShowsAfterSwaps (s : Fb) (es : List FbEvent) : Prop :=
  Machine.RunOk fbStep (fun s e => e = .swap → (fbStep s e).ShowsBack) s es

/-- The frame `b` covers the screen: at every pixel the screen agrees with the shadow copy, or
the pixel lies between two pixels of its row where the frame differs from the shadow copy. -/
def Fb.Covers (s : Fb) (b : Buf) : Prop :=
  ∀ px py, s.Visible px py →
    s.fbPtr (s.pixel px py) = s.frontBufferCopy (s.pixel px py) ∨
    ∃ x₁ x₂, x₁ ≤ px ∧ px ≤ x₂ ∧ x₂ < s.fbWidth.toNat ∧
      b (s.pixel x₁ py) ≠ s.frontBufferCopy (s.pixel x₁ py) ∧
      b (s.pixel x₂ py) ≠ s.frontBufferCopy (s.pixel x₂ py)

/-- A swap shows the back buffer exactly when the back buffer covers the screen. -/
theorem showsBack_fbSwap_iff (hg : s.Geometry) :
    (fbSwap s).ShowsBack ↔ s.Covers s.backBuffer := by
  obtain ⟨vram, front, he, -⟩ := fbSwap_spec hg
  have hiff : (fbSwap s).ShowsBack ↔ ∀ px py, s.Visible px py →
      (fbSwap s).fbPtr (s.pixel px py) = s.backBuffer (s.pixel px py) := by
    rw [he]
    rfl
  rw [hiff]
  refine forall_congr' fun px => forall_congr' fun py => forall_congr' fun hv => ?_
  rw [fbSwap_screen_iff hg hv, copied_pixel_iff hg hv]
  simp only [Fb.differs, bne_iff_ne, ne_eq]

/-- A swap that showed the back buffer leaves a shadow copy that agrees with the screen. -/
theorem mirrored_fbSwap (hg : s.Geometry) (h : (fbSwap s).ShowsBack) :
    (fbSwap s).Mirrored := by
  intro px py hv
  have hfront : s.Visible px py →
      (fbSwap s).frontBufferCopy (s.pixel px py) = s.backBuffer (s.pixel px py) :=
    fbSwap_front hg
  have hback := h px py hv
  obtain ⟨vram, front, he, -⟩ := fbSwap_spec hg
  rw [he] at hv hback hfront ⊢
  exact hback.trans (hfront hv).symm

/-- From a state whose shadow copy agrees with the screen every swap shows the back buffer. -/
theorem showsAfterSwaps_of_mirrored {es : List FbEvent} (hg : s.Geometry) (hm : s.Mirrored) :
    ShowsAfterSwaps s es := by
  induction es generalizing s with
  | nil => trivial
  | cons e es ih =>
      cases e with
      | draw b =>
          refine ⟨fun he => ?_, ih ⟨hg.stride, hg.fits⟩ hm⟩
          cases he
      | swap =>
          have hshow : (fbSwap s).ShowsBack :=
            (showsBack_fbSwap_iff hg).2 fun px py hv => .inl (hm px py hv)
          obtain ⟨vram, front, he, -⟩ := fbSwap_spec hg
          have hg' : (fbSwap s).Geometry := by
            rw [he]
            exact withScreen_geometry hg vram front
          exact ⟨fun _ => hshow, ih hg' (mirrored_fbSwap hg hshow)⟩

/-- The swaps of a run show the back buffer exactly when the first frame covers the screen. -/
theorem showsAfterSwaps_iff {es : List FbEvent} (hg : s.Geometry) :
    ShowsAfterSwaps s es ↔ ∀ b, firstFrame s.backBuffer es = some b → s.Covers b := by
  induction es generalizing s with
  | nil => exact iff_of_true trivial fun b hb => by cases hb
  | cons e es ih =>
      cases e with
      | draw b =>
          have hrec := ih (s := { s with backBuffer := b }) ⟨hg.stride, hg.fits⟩
          refine Iff.trans ?_ hrec
          exact and_iff_right fun he => by cases he
      | swap =>
          have hfirst : (∀ b, firstFrame s.backBuffer (.swap :: es) = some b → s.Covers b) ↔
              s.Covers s.backBuffer := by
            simp [firstFrame]
          rw [hfirst, ← showsBack_fbSwap_iff hg]
          refine ⟨fun h => h.1 rfl, fun h => ⟨fun _ => h, ?_⟩⟩
          obtain ⟨vram, front, he, -⟩ := fbSwap_spec hg
          have hg' : (fbSwap s).Geometry := by
            rw [he]
            exact withScreen_geometry hg vram front
          exact showsAfterSwaps_of_mirrored hg' (mirrored_fbSwap hg h)

/-- **When every pixel reaches the screen from boot**: the first frame must differ from the zeroed
shadow copy around every pixel at which the screen memory does. `fb_swap` skips a pixel that equals
the shadow copy, and `fb_alloc_buffers` clears the shadow copy without clearing the screen. -/
theorem fb_screen_shows_back_iff (w h pitch : BitVec 32)
    (vram back wallpaper desktop front : Buf)
    (hg : (bootFb w h pitch vram back wallpaper desktop front).Geometry) (es : List FbEvent) :
    ShowsAfterSwaps (bootFb w h pitch vram back wallpaper desktop front) es ↔
      ∀ b, firstFrame back es = some b →
        (bootFb w h pitch vram back wallpaper desktop front).Covers b :=
  showsAfterSwaps_iff hg

/-- A white first frame on a screen of one pixel. -/
theorem fb_screen_shows_back_white :
    ShowsAfterSwaps (bootFb 1 1 4 (fun _ => 5) (fun _ => 0) (fun _ => 0) (fun _ => 0)
      (fun _ => 0)) [.draw fun _ => 0xFFFFFF, .swap] := by
  refine (fb_screen_shows_back_iff 1 1 4 (fun _ => 5) (fun _ => 0) (fun _ => 0) (fun _ => 0)
    (fun _ => 0) ⟨by decide, by decide⟩ _).2 fun b hb px py hv => .inr ?_
  cases hb
  have hx : px = 0 := Nat.lt_one_iff.1 hv.1
  have hy : py = 0 := Nat.lt_one_iff.1 hv.2
  subst hx
  subst hy
  exact ⟨0, 0, Nat.le_refl 0, Nat.le_refl 0, by decide, by decide, by decide⟩

/-- A black first frame on a screen of one pixel that the bootloader left lit. -/
theorem fb_screen_misses_black :
    ¬ ∀ (w h pitch : BitVec 32) (vram back wallpaper desktop front : Buf),
      (bootFb w h pitch vram back wallpaper desktop front).Geometry → ∀ es : List FbEvent,
        ShowsAfterSwaps (bootFb w h pitch vram back wallpaper desktop front) es := by
  intro hall
  have hshow := (hall 1 1 4 (fun _ => 5) (fun _ => 0) (fun _ => 0) (fun _ => 0) (fun _ => 0)
    ⟨by decide, by decide⟩ [.draw fun _ => 0, .swap]).2.1 rfl 0 0 ⟨by decide, by decide⟩
  exact absurd hshow (by decide)

end

end OnkenOS
