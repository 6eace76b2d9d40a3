import OnkenOS.Gui.Pixels

/-!
# Filled rectangles

`fb_rect` clips the rectangle first and then stores without a check, where `fb_plot` checks every
pixel. Both paint some words in one colour (`fbRect_paints`, `plotRect_paints`), so they agree
exactly when these are the same words. They are not once the rectangle wraps around: the part of
a window left of the screen has columns near `2 ^ 32`, and `fb_rect` drops such a rectangle whole
or, when the sum `x + w` wraps, fills the words behind the screen too.
-/

namespace OnkenOS

open Words

/-- `fb_plot(x + i, y + j, color)` for every `i < w` and `j < h`. -/
def plotRect (s : Fb) (x y w h color : BitVec 32) : Fb :=
  forUp h.toNat (fun j s =>
    forUp w.toNat (fun i s =>
      fbPlot s (x + BitVec.ofNat 32 i) (y + BitVec.ofNat 32 j) color) s) s

/-- None of the `len` numbers from `start` on is below `bound`. -/
def Misses (bound start len : BitVec 32) : Prop :=
  len = 0 ∨ bound = 0 ∨ bound ≤ start ∧ start.toNat + len.toNat ≤ 2 ^ 32

/-- The rectangle has no pixel on the screen, or its corner is on the screen and no coordinate
wraps. -/
def Fb.RectOk (s : Fb) (x y w h : BitVec 32) : Prop :=
  Misses s.fbWidth x w ∨ Misses s.fbHeight y h ∨
    x < s.fbWidth ∧ y < s.fbHeight ∧ x.toNat + w.toNat < 2 ^ 32 ∧ y.toNat + h.toNat < 2 ^ 32

/-! ## Painting the back buffer -/

/-- `f` stores `c` at the words in `P` of the back buffer, whatever this holds, and changes
nothing else. -/
def Fb.Paints (s : Fb) (P : Set Nat) (c : BitVec 32) (f : Fb → Fb) : Prop :=
  ∃ g, Words.Paints P c g ∧ ∀ b, f (s.withBack b) = s.withBack (g b)

section
variable {s : Fb} {x y w h c : BitVec 32} {P Q : Set Nat} {f g : Fb → Fb}

/-- A loop whose rounds paint in one colour paints what any of them does. -/
theorem Fb.Paints.forUp {P : Nat → Set Nat} {body : Nat → Fb → Fb}
    (h : ∀ i, s.Paints (P i) c (body i)) (n : Nat) :
    s.Paints {k | ∃ i < n, k ∈ P i} c (Words.forUp n body) := by
  choose g hg hrun using h
  exact ⟨Words.forUp n g, Words.Paints.forUp hg n,
    forUp_component s.withBack g fun i b _ => hrun i b⟩

/-- A word has the colour of the last round that paints it. -/
theorem Fb.Paints.forUp_of_mem {P : Nat → Set Nat} {c : Nat → BitVec 32} {body : Nat → Fb → Fb}
    {n j k : Nat} (h : ∀ i, s.Paints (P i) (c i) (body i)) (hj : j < n) (hk : k ∈ P j)
    (hlast : ∀ i, j < i → i < n → k ∉ P i) : (Words.forUp n body s).backBuffer k = c j := by
  choose g hg hrun using h
  have hcomponent : Words.forUp n body (s.withBack s.backBuffer) = _ :=
    forUp_component s.withBack g (fun i b _ => hrun i b) s.backBuffer
  rw [show s = s.withBack s.backBuffer from rfl, hcomponent]
  exact Words.Paints.forUp_of_mem hg hj hk hlast s.backBuffer

/-- Two operations that paint in the same colour agree on all back buffers exactly if they paint the
same words. -/
theorem Fb.Paints.eq_iff (hf : s.Paints P c f) (hg : s.Paints Q c g) :
    (∀ b, f (s.withBack b) = g (s.withBack b)) ↔ P = Q := by
  obtain ⟨f', hf, hrunf⟩ := hf
  obtain ⟨g', hg, hrung⟩ := hg
  have : Nontrivial (BitVec 32) := ⟨0, 1, by decide⟩
  rw [← hf.eq_iff hg]
  refine forall_congr' fun b => ?_
  rw [hrunf, hrung]
  exact ⟨fun he => congrArg Fb.backBuffer he, fun he => congrArg s.withBack he⟩

/-- The words that the plots store to. -/
def Fb.plotWords (s : Fb) (x y w h : BitVec 32) : Set Nat :=
  {k | ∃ j < h.toNat, ∃ i < w.toNat,
    (x + BitVec.ofNat 32 i < s.fbWidth ∧ y + BitVec.ofNat 32 j < s.fbHeight) ∧
      k = wordIndex s.fbPitch (x + BitVec.ofNat 32 i) (y + BitVec.ofNat 32 j)}

/-- `if (start + len > bound) len = bound - start`. -/
def clipTo (bound start len : BitVec 32) : BitVec 32 :=
  if bound < start + len then bound - start else len

/-- The words that `fb_rect` stores to. -/
def Fb.rectWords (s : Fb) (x y w h : BitVec 32) : Set Nat :=
  {k | (x < s.fbWidth ∧ y < s.fbHeight) ∧
    ∃ i < (y + clipTo s.fbHeight y h).toNat - y.toNat, ∃ ix < (clipTo s.fbWidth x w).toNat,
      k = ((y + BitVec.ofNat 32 i) * (s.fbPitch / 4) + x + BitVec.ofNat 32 ix).toNat}

/-- `fb_plot` paints the word of its pixel, and nothing off the screen. -/
theorem fbPlot_paints (s : Fb) (x y c : BitVec 32) :
    s.Paints {k | (x < s.fbWidth ∧ y < s.fbHeight) ∧ k = wordIndex s.fbPitch x y} c
      fun t => fbPlot t x y c := by
  by_cases hon : x < s.fbWidth ∧ y < s.fbHeight
  · simp only [hon, and_self, true_and]
    exact ⟨_, Paints.update (wordIndex s.fbPitch x y) c, fun _ => if_pos hon⟩
  · simp only [hon, false_and]
    exact ⟨_, Paints.id c, fun _ => if_neg hon⟩

/-- Plotting all pixels of a rectangle paints their words. -/
theorem plotRect_paints (s : Fb) (x y w h c : BitVec 32) :
    s.Paints (s.plotWords x y w h) c fun t => plotRect t x y w h c :=
  .forUp (fun j => .forUp (fun i => fbPlot_paints s (x + BitVec.ofNat 32 i)
    (y + BitVec.ofNat 32 j) c) w.toNat) h.toNat

/-- One row of `fb_rect` paints the words from its offset on. -/
theorem fillRow_paints (s : Fb) (offset c : BitVec 32) (n : Nat) :
    s.Paints {k | ∃ ix < n, k = (offset + BitVec.ofNat 32 ix).toNat} c
      (forUp n fun ix t =>
        { t with backBuffer := t.backBuffer.set (offset + BitVec.ofNat 32 ix).toNat c }) :=
  .forUp (fun _ => ⟨_, Paints.update _ c, fun _ => rfl⟩) n

/-- `fb_rect` paints the words of the rows and columns that are left after its clipping. -/
theorem fbRect_paints (s : Fb) (x y w h c : BitVec 32) :
    s.Paints (s.rectWords x y w h) c fun t => fbRect t x y w h c := by
  unfold Fb.rectWords
  by_cases hoff : s.fbWidth ≤ x ∨ s.fbHeight ≤ y
  · have hon : ¬ (x < s.fbWidth ∧ y < s.fbHeight) := by
      rw [not_and_or, BitVec.not_lt, BitVec.not_lt]
      exact hoff
    simp only [hon, false_and]
    exact ⟨_, Paints.id c, fun _ => if_pos hoff⟩
  · have hon : x < s.fbWidth ∧ y < s.fbHeight := by
      rw [not_or, BitVec.not_le, BitVec.not_le] at hoff
      exact hoff
    simp only [hon, and_self, true_and]
    have hrow : ∀ i : Nat, s.Paints {k | ∃ ix < (clipTo s.fbWidth x w).toNat,
          k = ((y + BitVec.ofNat 32 i) * (s.fbPitch / 4) + x + BitVec.ofNat 32 ix).toNat} c
        fun t => forUp (clipTo s.fbWidth x w).toNat (fun ix u =>
          { u with
            backBuffer := u.backBuffer.set ((y + BitVec.ofNat 32 i) * (t.fbPitch / 4) + x +
              BitVec.ofNat 32 ix).toNat c }) t :=
      fun i => fillRow_paints s ((y + BitVec.ofNat 32 i) * (s.fbPitch / 4) + x) c _
    obtain ⟨g, hg, hrun⟩ :=
      Fb.Paints.forUp hrow ((y + clipTo s.fbHeight y h).toNat - y.toNat)
    exact ⟨g, hg, fun b => (if_neg hoff).trans (hrun b)⟩

/-! ## Spans that wrap -/

/-- A span that misses the screen has no number on it: it is empty, the screen is, or it begins
behind the bound and does not come round to zero. -/
theorem misses_iff {bound start len : BitVec 32} :
    Misses bound start len ↔ ∀ i < len.toNat, ¬ start + BitVec.ofNat 32 i < bound := by
  constructor
  · rintro (rfl | rfl | ⟨hle, hend⟩) i hi
    · exact absurd hi (Nat.not_lt_zero i)
    · exact BitVec.not_lt_zero
    · rw [BitVec.lt_def, toNat_add_ofNat (by omega)]
      bv_omega
  · intro hall
    by_contra hnot
    unfold Misses at hnot
    rcases Nat.lt_or_ge start.toNat bound.toNat with hlt | hge
    · -- the first number is on the screen
      have := hall 0 (by bv_omega)
      bv_omega
    · -- the span goes round to zero
      have := hall (2 ^ 32 - start.toNat) (by bv_omega)
      bv_omega

/-- If the sum does not wrap, clipping leaves what is below the bound. -/
theorem clipTo_of_fits {bound start len : BitVec 32} (hon : start < bound)
    (hend : start.toNat + len.toNat < 2 ^ 32) :
    (clipTo bound start len).toNat = min len.toNat (bound.toNat - start.toNat) := by
  unfold clipTo
  split <;> bv_omega

/-- A sum that wraps is below the bound, so that nothing is cut off. -/
theorem clipTo_of_wraps {bound start len : BitVec 32} (hon : start < bound)
    (hend : 2 ^ 32 ≤ start.toNat + len.toNat) : clipTo bound start len = len := by
  refine if_neg ?_
  bv_omega

/-- Clipping leaves an empty side empty. -/
theorem clipTo_zero {bound start : BitVec 32} (hon : start < bound) :
    clipTo bound start 0#32 = 0#32 := by
  refine if_neg ?_
  bv_omega

/-! ## The words of a rectangle -/

/-- The plots store nothing exactly if in one direction none of the coordinates is on the screen. -/
theorem plotWords_eq_empty_iff :
    s.plotWords x y w h = ∅ ↔ Misses s.fbWidth x w ∨ Misses s.fbHeight y h := by
  rw [misses_iff, misses_iff, Set.eq_empty_iff_forall_notMem]
  constructor
  · intro hall
    by_contra hnot
    simp only [not_or, not_forall, not_not, exists_prop] at hnot
    obtain ⟨⟨i, hi, hx⟩, j, hj, hy⟩ := hnot
    exact hall _ ⟨j, hj, i, hi, ⟨hx, hy⟩, rfl⟩
  · rintro (hmiss | hmiss) k ⟨j, hj, i, hi, ⟨hx, hy⟩, -⟩
    · exact hmiss i hi hx
    · exact hmiss j hj hy

/-- A plot stores to the word of a visible pixel. -/
theorem visible_of_mem_plotWords {k : Nat} (hk : k ∈ s.plotWords x y w h) :
    ∃ px py, s.Visible px py ∧ k = s.pixel px py := by
  obtain ⟨j, -, i, -, ⟨hx, hy⟩, rfl⟩ := hk
  refine ⟨_, _, ⟨BitVec.lt_def.1 hx, BitVec.lt_def.1 hy⟩, ?_⟩
  unfold Fb.pixel
  rw [BitVec.ofNat_toNat, BitVec.ofNat_toNat, BitVec.setWidth_eq, BitVec.setWidth_eq]

/-- `fb_rect` returns at once if its corner is off the screen. -/
theorem rectWords_of_off_screen (hoff : ¬ (x < s.fbWidth ∧ y < s.fbHeight)) :
    s.rectWords x y w h = ∅ := by
  simp only [Fb.rectWords, hoff, false_and, Set.ofPred_false]

/-- A rectangle that starts on the screen and does not wrap is clipped to its visible part. -/
theorem rectWords_of_fits (hx : x < s.fbWidth) (hy : y < s.fbHeight)
    (hw : x.toNat + w.toNat < 2 ^ 32) (hh : y.toNat + h.toNat < 2 ^ 32) :
    s.rectWords x y w h = s.plotWords x y w h := by
  have hcols := clipTo_of_fits hx hw
  have hrows := clipTo_of_fits hy hh
  have hcount : (y + clipTo s.fbHeight y h).toNat - y.toNat =
      min h.toNat (s.fbHeight.toNat - y.toNat) := by
    rw [BitVec.toNat_add_of_lt (by omega), hrows, Nat.add_sub_cancel_left]
  ext k
  unfold Fb.rectWords Fb.plotWords
  simp only [Set.mem_ofPred_eq, hx, hy, and_self, true_and, hcount, hcols, Nat.lt_min, wordIndex,
    BitVec.lt_def, BitVec.add_assoc]
  constructor
  · rintro ⟨j, ⟨hj, hjH⟩, i, ⟨hi, hiW⟩, rfl⟩
    refine ⟨j, hj, i, hi, ⟨?_, ?_⟩, rfl⟩
    · rw [toNat_add_ofNat (by omega)]
      omega
    · rw [toNat_add_ofNat (by omega)]
      omega
  · rintro ⟨j, hj, i, hi, ⟨hiW, hjH⟩, rfl⟩
    rw [toNat_add_ofNat (by omega)] at hiW hjH
    exact ⟨j, ⟨hj, by omega⟩, i, ⟨hi, by omega⟩, rfl⟩

/-- A rectangle whose rows wrap is not drawn: the clipped height comes out as zero rows. -/
theorem rectWords_of_rows_wrap (hy : y < s.fbHeight) (hh : 2 ^ 32 ≤ y.toNat + h.toNat) :
    s.rectWords x y w h = ∅ := by
  have hcount : (y + clipTo s.fbHeight y h).toNat - y.toNat = 0 := by
    rw [clipTo_of_wraps hy hh]
    bv_omega
  simp only [Fb.rectWords, hcount, Nat.not_lt_zero, false_and, exists_false, and_false,
    Set.ofPred_false]

/-- A rectangle whose columns wrap is filled past the last row: the clipping tests a sum that has
come round. -/
theorem mem_rectWords_of_columns_wrap (hg : s.Geometry) (hx : x < s.fbWidth)
    (hy : y < s.fbHeight) (hw : 2 ^ 32 ≤ x.toNat + w.toNat) (hh : y.toNat + h.toNat < 2 ^ 32)
    (hpos : h ≠ 0) :
    s.fbHeight.toNat * (s.fbPitch.toNat / 4) ∈ s.rectWords x y w h := by
  have hstride := hg.stride
  have hfits := hg.fits
  have hxw := BitVec.lt_def.1 hx
  have hyh := BitVec.lt_def.1 hy
  have hrow : (y.toNat + 1) * (s.fbPitch.toNat / 4) ≤
      s.fbHeight.toNat * (s.fbPitch.toNat / 4) := Nat.mul_le_mul_right _ hyh
  rw [Nat.add_mul, Nat.one_mul] at hrow
  have hrows := clipTo_of_fits hy hh
  have hh0 : h.toNat ≠ 0 := fun hz => hpos (BitVec.eq_of_toNat_eq hz)
  refine ⟨⟨hx, hy⟩, 0, ?_, s.fbHeight.toNat * (s.fbPitch.toNat / 4) -
    (y.toNat * (s.fbPitch.toNat / 4) + x.toNat), ?_, ?_⟩
  · rw [BitVec.toNat_add_of_lt (by omega)]
    omega
  · rw [clipTo_of_wraps hx hw]
    omega
  · have hbase : (y * (s.fbPitch / 4) + x).toNat =
        y.toNat * (s.fbPitch.toNat / 4) + x.toNat :=
      (wordIndex_eq s.fbPitch x y).trans (Nat.mod_eq_of_lt (by omega))
    have hfirst : y + BitVec.ofNat 32 0 = y := BitVec.add_zero y
    rw [hfirst, toNat_add_ofNat (by omega), hbase]
    omega

/-- The words behind the last row are not plotted, as every plot is tested against the height. -/
theorem not_mem_plotWords (hg : s.Geometry) :
    s.fbHeight.toNat * (s.fbPitch.toNat / 4) ∉ s.plotWords x y w h := by
  intro hk
  obtain ⟨px, py, hv, he⟩ := visible_of_mem_plotWords hk
  rw [pixel_eq hg hv] at he
  obtain ⟨hpx, hpy⟩ := hv
  have hstride := hg.stride
  have hrow : (py + 1) * (s.fbPitch.toNat / 4) ≤
      s.fbHeight.toNat * (s.fbPitch.toNat / 4) := Nat.mul_le_mul_right _ hpy
  rw [Nat.add_mul, Nat.one_mul] at hrow
  omega

/-- A rectangle without columns or without rows is not drawn. -/
theorem rectWords_of_empty (hx : x < s.fbWidth) (hy : y < s.fbHeight) (hempty : w = 0 ∨ h = 0) :
    s.rectWords x y w h = ∅ := by
  refine Set.eq_empty_iff_forall_notMem.2 ?_
  rintro k ⟨-, i, hi, ix, hix, -⟩
  rcases hempty with rfl | rfl
  · simp [clipTo_zero hx] at hix
  · simp [clipTo_zero hy] at hi

/-- From a coordinate on the screen on, only an empty side has none there. -/
theorem misses_of_lt {bound start len : BitVec 32} (hon : start < bound) :
    Misses bound start len ↔ len = 0 := by
  refine or_iff_left ?_
  rintro (rfl | ⟨hle, -⟩)
  · exact BitVec.not_lt_zero hon
  · exact BitVec.not_lt.2 hle hon

/-- `fb_rect` and the plots store to the same words, by the cases of the clipping in each direction.
-/
theorem rectWords_eq_iff (hg : s.Geometry) :
    s.rectWords x y w h = s.plotWords x y w h ↔ s.RectOk x y w h := by
  unfold Fb.RectOk
  rw [← or_assoc]
  by_cases hmiss : Misses s.fbWidth x w ∨ Misses s.fbHeight y h
  · refine iff_of_true ?_ (.inl hmiss)
    rw [plotWords_eq_empty_iff.2 hmiss]
    by_cases hon : x < s.fbWidth ∧ y < s.fbHeight
    · rw [misses_of_lt hon.1, misses_of_lt hon.2] at hmiss
      exact rectWords_of_empty hon.1 hon.2 hmiss
    · exact rectWords_of_off_screen hon
  · rw [or_iff_right hmiss]
    have hne : s.plotWords x y w h ≠ ∅ := mt plotWords_eq_empty_iff.1 hmiss
    constructor
    · intro he
      have hon : x < s.fbWidth ∧ y < s.fbHeight := by
        by_contra hoff
        exact hne (he.symm.trans (rectWords_of_off_screen hoff))
      obtain ⟨hx, hy⟩ := hon
      have hh : y.toNat + h.toNat < 2 ^ 32 := by
        by_contra hwrap
        exact hne (he.symm.trans (rectWords_of_rows_wrap hy (Nat.not_lt.1 hwrap)))
      refine ⟨hx, hy, ?_, hh⟩
      by_contra hwrap
      have hpos : h ≠ 0 := fun hz => hmiss (.inr (.inl hz))
      exact not_mem_plotWords hg
        (he ▸ mem_rectWords_of_columns_wrap hg hx hy (Nat.not_lt.1 hwrap) hh hpos)
    · rintro ⟨hx, hy, hw, hh⟩
      exact rectWords_of_fits hx hy hw hh

/-- `fb_rect` is the plots, and stores only to words of visible pixels, exactly when the rectangle
has nothing on the screen or starts on the screen and does not wrap. It tests the corner and not the
rectangle, so one that begins left of the screen or above it is dropped as a whole. -/
theorem fb_rect_plots_iff (s : Fb) (hg : s.Geometry) (x y w h c : BitVec 32) :
    (∀ b : Buf, fbRect (s.withBack b) x y w h c = plotRect (s.withBack b) x y w h c ∧
        ∀ k, (∀ px py, s.Visible px py → k ≠ s.pixel px py) →
          (fbRect (s.withBack b) x y w h c).backBuffer k = b k) ↔
      s.RectOk x y w h := by
  rw [← rectWords_eq_iff hg, ← (fbRect_paints s x y w h c).eq_iff (plotRect_paints s x y w h c)]
  refine ⟨fun hall b => (hall b).1, fun hall b => ⟨hall b, fun k hk => ?_⟩⟩
  obtain ⟨g, hpaint, hrun⟩ := plotRect_paints s x y w h c
  rw [show fbRect (s.withBack b) x y w h c = s.withBack (g b) from (hall b).trans (hrun b)]
  refine hpaint.of_not_mem b fun hmem => ?_
  obtain ⟨px, py, hv, he⟩ := visible_of_mem_plotWords hmem
  exact hk px py hv he

/-- A rectangle in the middle of a black screen of 640 by 480. -/
theorem fb_rect_plots_iff_inside :
    fbRect ((screenOf 640 480).withBack fun _ => 0) 100 50 200 90 7 =
        plotRect ((screenOf 640 480).withBack fun _ => 0) 100 50 200 90 7 ∧
      ∀ k, (∀ px py, (screenOf 640 480).Visible px py → k ≠ (screenOf 640 480).pixel px py) →
        (fbRect ((screenOf 640 480).withBack fun _ => 0) 100 50 200 90 7).backBuffer k = 0 :=
  (fb_rect_plots_iff (screenOf 640 480) ⟨by decide, by decide⟩ 100 50 200 90 7).2
    (.inr (.inr ⟨by decide, by decide, by decide, by decide⟩)) fun _ => 0

/-- A rectangle of ten columns that starts five columns left of the screen: five of them are on
the screen, and `fb_rect` draws none. -/
theorem fb_rect_drops_left_edge :
    ¬ ∀ (s : Fb) (x y w h c : BitVec 32), s.Geometry →
      fbRect s x y w h c = plotRect s x y w h c := by
  intro hall
  have he := hall (screenOf 640 480) 0xFFFFFFFB 0 10 1 7 ⟨by decide, by decide⟩
  exact absurd (congrArg (fun s => s.backBuffer 0) he) (by decide)

end

end OnkenOS
