import OnkenOS.Lib.Layers
import OnkenOS.Gui.Gradient

/-!
# Drawing in layers

What the drawing functions leave on the screen, point by point. A point is a pair of `uint32_t`
coordinates, so that a shape that begins left of the screen or above it wraps around to the part of
it that can be seen. A function draws a layer when every visible pixel gets the layer's colour, if
there is one, and nothing else changes (`Fb.Draws`).
-/

namespace OnkenOS

open Words Layers

/-- A point of the plane: its column and its row. -/
abbrev Point := BitVec 32 × BitVec 32

/-- The point of a pixel. -/
def pointOf (px py : Nat) : Point := (BitVec.ofNat 32 px, BitVec.ofNat 32 py)

/-- The colour of a pixel in the back buffer. -/
def Fb.colour (s : Fb) (px py : Nat) : BitVec 32 := s.backBuffer (s.pixel px py)

/-- The buffer gets the layer's colours at the visible pixels, and changes nowhere else. -/
structure Fb.Lays (s : Fb) (a : Layer Point (BitVec 32)) (g : Buf → Buf) : Prop where
  visible : ∀ (b : Buf) {px py : Nat}, s.Visible px py →
    g b (s.pixel px py) = (a (pointOf px py)).getD (b (s.pixel px py))
  other : ∀ (b : Buf) {k : Nat}, (∀ px py, s.Visible px py → k ≠ s.pixel px py) → g b k = b k

/-- `f` puts the layer on the back buffer, whatever this holds, and does nothing else. -/
def Fb.Draws (s : Fb) (a : Layer Point (BitVec 32)) (f : Fb → Fb) : Prop :=
  ∃ g, s.Lays a g ∧ ∀ b, f (s.withBack b) = s.withBack (g b)

/-- One colour on the points of a region. -/
def fill (r : Point → Prop) [DecidablePred r] (c : BitVec 32) : Layer Point (BitVec 32) :=
  fun p => if r p then some c else none

/-- The point lies in the rectangle. -/
def InRect (x y w h : BitVec 32) (p : Point) : Prop :=
  (p.1 - x).toNat < w.toNat ∧ (p.2 - y).toNat < h.toNat

instance (x y w h : BitVec 32) : DecidablePred (InRect x y w h) :=
  fun _ => inferInstanceAs (Decidable (_ ∧ _))

section
variable {s : Fb} {a a' : Layer Point (BitVec 32)} {f f' : Fb → Fb} {x y w h c : BitVec 32}
  {px py : Nat}

/-! ## Composition -/

/-- Doing nothing draws the layer without colours. -/
theorem Fb.Draws.id (s : Fb) : s.Draws (fun _ => none) fun t => t :=
  ⟨fun b => b, ⟨fun _ _ _ _ => rfl, fun _ _ _ => rfl⟩, fun _ => rfl⟩

/-- Drawing one thing and then another draws the second over the first. -/
theorem Fb.Draws.comp (h : s.Draws a f) (h' : s.Draws a' f') :
    s.Draws (overlay a a') fun t => f' (f t) := by
  obtain ⟨g, hg, hrun⟩ := h
  obtain ⟨g', hg', hrun'⟩ := h'
  refine ⟨fun b => g' (g b), ⟨fun b px py hv => ?_, fun b k hk => ?_⟩, fun b => ?_⟩
  · rw [hg'.visible _ hv, hg.visible _ hv]
    unfold overlay
    cases a' (pointOf px py) <;> rfl
  · rw [hg'.other _ hk, hg.other _ hk]
  · dsimp only
    rw [hrun, hrun']

/-- A loop that draws a layer in each round draws them one above the other. -/
theorem Fb.Draws.forUp {a : Nat → Layer Point (BitVec 32)} {body : Nat → Fb → Fb}
    (h : ∀ i, s.Draws (a i) (body i)) (n : Nat) :
    s.Draws (stack ((List.range n).map a)) (Words.forUp n body) := by
  induction n with
  | zero => exact .id s
  | succ n ih =>
      rw [List.range_succ, List.map_append, stack_append, List.map_singleton, stack_cons, stack_nil,
        overlay_none]
      exact ih.comp (h n)

/-- What is drawn on a screen is what the layer says. -/
theorem Fb.Draws.colour (hd : s.Draws a f) (hv : s.Visible px py) :
    (f s).colour px py = (a (pointOf px py)).getD (s.colour px py) := by
  obtain ⟨g, hg, hrun⟩ := hd
  have hs : f s = s.withBack (g s.backBuffer) := hrun s.backBuffer
  rw [hs]
  exact hg.visible s.backBuffer hv

/-! ## Shapes -/

/-- A function that stores one colour to the words of the visible pixels of a region. -/
theorem Fb.Paints.draws {P : Set Nat} {r : Point → Prop} [DecidablePred r] (hf : s.Paints P c f)
    (hvisible : ∀ {px py}, s.Visible px py → (s.pixel px py ∈ P ↔ r (pointOf px py)))
    (hother : ∀ k ∈ P, ∃ px py, s.Visible px py ∧ k = s.pixel px py) : s.Draws (fill r c) f := by
  obtain ⟨g, hg, hrun⟩ := hf
  refine ⟨g, ⟨fun b px py hv => ?_, fun b k hk => ?_⟩, hrun⟩
  · unfold fill
    split
    · next hr => exact hg.at_mem b ((hvisible hv).2 hr)
    · next hr => exact hg.of_not_mem b (mt (hvisible hv).1 hr)
  · refine hg.of_not_mem b fun hmem => ?_
    obtain ⟨px, py, hv, he⟩ := hother k hmem
    exact hk px py hv he

/-- The word that `fb_plot` stores to is that of the pixel. -/
theorem wordIndex_eq_pixel (s : Fb) (x y : BitVec 32) :
    wordIndex s.fbPitch x y = s.pixel x.toNat y.toNat := by
  unfold Fb.pixel
  rw [BitVec.ofNat_toNat, BitVec.ofNat_toNat, BitVec.setWidth_eq, BitVec.setWidth_eq]

/-- `fb_plot` draws one point, if it is on the screen. -/
theorem fbPlot_draws (hg : s.Geometry) (x y c : BitVec 32) :
    s.Draws (fill (· = (x, y)) c) fun t => fbPlot t x y c := by
  refine (fbPlot_paints s x y c).draws (fun {px py} hv => ?_) ?_
  · have hpx := hv.1
    have hpy := hv.2
    constructor
    · rintro ⟨hon, he⟩
      rw [wordIndex_eq_pixel] at he
      obtain ⟨rfl, rfl⟩ := pixel_inj hg hv hon he
      unfold pointOf
      rw [BitVec.ofNat_toNat, BitVec.ofNat_toNat, BitVec.setWidth_eq, BitVec.setWidth_eq]
    · intro he
      obtain ⟨rfl, rfl⟩ := Prod.mk.inj he
      exact ⟨⟨by bv_omega, by bv_omega⟩, rfl⟩
  · rintro k ⟨hon, rfl⟩
    exact ⟨x.toNat, y.toNat, hon, wordIndex_eq_pixel s x y⟩

/-- The words of the visible pixels of a rectangle: each of them is stored to by the plot of its own
pixel only, as the geometry keeps them apart. -/
theorem mem_plotWords_iff (hg : s.Geometry) (hv : s.Visible px py) :
    s.pixel px py ∈ s.plotWords x y w h ↔ InRect x y w h (pointOf px py) := by
  have hpx := hv.1
  have hpy := hv.2
  constructor
  · rintro ⟨j, hj, i, hi, hon, he⟩
    rw [wordIndex_eq_pixel] at he
    obtain ⟨rfl, rfl⟩ := pixel_inj hg hv hon he
    refine ⟨?_, ?_⟩
    · change (BitVec.ofNat 32 (x + BitVec.ofNat 32 i).toNat - x).toNat < w.toNat
      bv_omega
    · change (BitVec.ofNat 32 (y + BitVec.ofNat 32 j).toNat - y).toNat < h.toNat
      bv_omega
  · rintro ⟨hi, hj⟩
    refine ⟨_, hj, _, hi, ?_, ?_⟩
    · dsimp only [pointOf]
      rw [ofNat_add_sub, ofNat_add_sub]
      exact ⟨by bv_omega, by bv_omega⟩
    · dsimp only [pointOf]
      rw [ofNat_add_sub, ofNat_add_sub]
      rfl

/-- A rectangle whose corner is on the screen, or that has nothing on it, is drawn where it lies. -/
theorem fbRect_draws (hg : s.Geometry) (hok : s.RectOk x y w h) (c : BitVec 32) :
    s.Draws (fill (InRect x y w h) c) fun t => fbRect t x y w h c := by
  refine (fbRect_paints s x y w h c).draws (fun hv => ?_) fun k hk => ?_
  · rw [(rectWords_eq_iff hg).2 hok]
    exact mem_plotWords_iff hg hv
  · rw [(rectWords_eq_iff hg).2 hok] at hk
    exact visible_of_mem_plotWords hk

/-! ## Plots over a grid -/

/-- A rectangle of plots with a colour for each of them, by its column and row. -/
def gridLayer (x y : BitVec 32) (w h : Nat) (colour : Nat → Nat → BitVec 32) :
    Layer Point (BitVec 32) := fun p =>
  if (p.1 - x).toNat < w ∧ (p.2 - y).toNat < h then
    some (colour (p.1 - x).toNat (p.2 - y).toNat)
  else none

/-- A filled region has its colour at its points, and no other. -/
theorem fill_eq_some {r : Point → Prop} [DecidablePred r] {p : Point} {d : BitVec 32} :
    fill r c p = some d ↔ r p ∧ c = d := by
  rw [fill, Option.ite_none_right_eq_some, Option.some.injEq]

/-- A rectangle of plots has, at each of its points, the colour of the column and row. -/
theorem gridLayer_eq_some {n m : Nat} {colour : Nat → Nat → BitVec 32} {p : Point}
    {d : BitVec 32} : gridLayer x y n m colour p = some d ↔
      ((p.1 - x).toNat < n ∧ (p.2 - y).toNat < m) ∧
        colour (p.1 - x).toNat (p.2 - y).toNat = d := by
  rw [gridLayer, Option.ite_none_right_eq_some, Option.some.injEq]

/-- Going on from `x` by the distance to `z` ends at `z`, also around the end of the 32 bits. -/
theorem add_ofNat_sub_toNat (x z : BitVec 32) : x + BitVec.ofNat 32 (z - x).toNat = z := by
  rw [BitVec.ofNat_toNat, BitVec.setWidth_eq, BitVec.add_comm, BitVec.sub_add_cancel]

/-- Two loops of plots, over the rows and over the columns, draw the rectangle: each pixel once, in
its own colour. -/
theorem plotGrid_draws (hg : s.Geometry) (x y : BitVec 32) {n m : Nat} (hn : n ≤ 2 ^ 32)
    (hm : m ≤ 2 ^ 32) (colour : Nat → Nat → BitVec 32) :
    s.Draws (gridLayer x y n m colour) fun t => forUp m (fun j t => forUp n (fun i t =>
      fbPlot t (x + BitVec.ofNat 32 i) (y + BitVec.ofNat 32 j) (colour i j)) t) t := by
  have hrow : ∀ j : Nat, s.Draws (stack ((List.range n).map fun i =>
        fill (· = (x + BitVec.ofNat 32 i, y + BitVec.ofNat 32 j)) (colour i j)))
      fun t => forUp n (fun i t =>
        fbPlot t (x + BitVec.ofNat 32 i) (y + BitVec.ofNat 32 j) (colour i j)) t :=
    fun j => .forUp (fun i => fbPlot_draws hg _ _ _) n
  have hdraws := Fb.Draws.forUp hrow m
  have hstack : stack ((List.range m).map fun j => stack ((List.range n).map fun i =>
      fill (· = (x + BitVec.ofNat 32 i, y + BitVec.ofNat 32 j)) (colour i j))) =
        gridLayer x y n m colour := by
    refine stack_range_eq (fun j hj p d hp => ?_) fun p hp => ?_
    · obtain ⟨a, ha, hap⟩ := exists_of_stack hp
      obtain ⟨i, hi, rfl⟩ := List.mem_map.1 ha
      obtain ⟨rfl, hd⟩ := fill_eq_some.1 hap
      have hi := List.mem_range.1 hi
      have hcol : (x + BitVec.ofNat 32 i - x).toNat = i := by bv_omega
      have hrow : (y + BitVec.ofNat 32 j - y).toNat = j := by bv_omega
      rw [gridLayer_eq_some]
      dsimp only
      rw [hcol, hrow]
      exact ⟨⟨hi, hj⟩, hd⟩
    · obtain ⟨d, hd⟩ := Option.isSome_iff_exists.1 hp
      obtain ⟨⟨hi, hj⟩, -⟩ := gridLayer_eq_some.1 hd
      refine ⟨_, hj, Option.isSome_iff_ne_none.2 fun hnone => ?_⟩
      have hcell := stack_eq_none.1 hnone _ (List.mem_map_of_mem (List.mem_range.2 hi))
      unfold fill at hcell
      rw [if_pos (Prod.ext (add_ofNat_sub_toNat x p.1).symm (add_ofNat_sub_toNat y p.2).symm)]
        at hcell
      cases hcell
  rwa [hstack] at hdraws

/-- The rows of a gradient. -/
def gradientLayer (x y w h c1 c2 : BitVec 32) : Layer Point (BitVec 32) :=
  gridLayer x y w.toNat h.toNat fun _ j => (gradientRow h c1 c2 j).color

/-- `fb_gradient` draws its rows, each in one colour. -/
theorem fbGradient_draws (hg : s.Geometry) (x y w h c1 c2 : BitVec 32) :
    s.Draws (gradientLayer x y w h c1 c2) fun t => fbGradient t x y w h c1 c2 :=
  plotGrid_draws hg x y w.isLt.le h.isLt.le fun _ j => (gradientRow h c1 c2 j).color

end

end OnkenOS
