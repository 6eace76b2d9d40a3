import OnkenOS.Gui.HitTest
import OnkenOS.Gui.Text

/-!
# Windows on the screen

The drawing half of `gui/window.c`: the bevelled panels, the frames with their title bars and
gadgets, and the calls of `wm_draw_all` on the framebuffer. Every visible pixel of a frame shows the
window that is painted last there, and the others are as before (`wm_draw_all_shows_top`).
-/

namespace OnkenOS

open Words Layers

/-! ## The frame -/

/-- `theme_t`. -/
structure Theme where
  borderLight : BitVec 32
  borderDark : BitVec 32
  borderMid : BitVec 32
  titlebarActive : BitVec 32
  titlebarActiveGrad : BitVec 32
  titlebarInactive : BitVec 32
  titlebarInactiveGrad : BitVec 32
  textActive : BitVec 32
  textInactive : BitVec 32

/-- `current_theme`. -/
def currentTheme : Theme where
  borderLight := 0xFFFFFF
  borderDark := 0x555555
  borderMid := 0xC0C0C0
  titlebarActive := 0x0055AA
  titlebarActiveGrad := 0x3A6CA3
  titlebarInactive := 0x555555
  titlebarInactiveGrad := 0x888888
  textActive := 0xFFFFFF
  textInactive := 0xCCCCCC

/-- `draw_retro_3d_panel`. -/
def drawRetro3dPanel (s : Fb) (x y w h : BitVec 32) (sunken : Bool) : Fb :=
  let l := if sunken then currentTheme.borderDark else currentTheme.borderLight
  let d := if sunken then currentTheme.borderLight else currentTheme.borderDark
  let m := currentTheme.borderMid
  let s := fbRect s (x + 2) (y + 2) (w - 4) (h - 4) m
  let s := fbRect s x y w 1 l
  let s := fbRect s x y 1 h l
  let s := fbRect s (x + w - 1) y 1 h d
  let s := fbRect s x (y + h - 1) w 1 d
  let il := if sunken then 0x222222 else 0xDFDFDF
  let id := if sunken then 0xDFDFDF else 0x808080
  let s := fbRect s (x + 1) (y + 1) (w - 2) 1 il
  let s := fbRect s (x + 1) (y + 1) 1 (h - 2) il
  let s := fbRect s (x + w - 2) (y + 1) 1 (h - 2) id
  fbRect s (x + 1) (y + h - 2) (w - 2) 1 id

/-- A filled rectangle. -/
structure Rect where
  x : BitVec 32
  y : BitVec 32
  w : BitVec 32
  h : BitVec 32
  c : BitVec 32

/-- `fb_rect` of a rectangle. -/
def Rect.draw (r : Rect) (s : Fb) : Fb := fbRect s r.x r.y r.w r.h r.c

/-- Its colours. -/
def Rect.layer (r : Rect) : Layer Point (BitVec 32) := fill (InRect r.x r.y r.w r.h) r.c

/-- The rectangles of a panel, in the order in which they are filled. -/
def panelRects (x y w h : BitVec 32) (sunken : Bool) : List Rect :=
  let l := if sunken then currentTheme.borderDark else currentTheme.borderLight
  let d := if sunken then currentTheme.borderLight else currentTheme.borderDark
  let il := if sunken then 0x222222 else 0xDFDFDF
  let id := if sunken then 0xDFDFDF else 0x808080
  [⟨x + 2, y + 2, w - 4, h - 4, currentTheme.borderMid⟩, ⟨x, y, w, 1, l⟩, ⟨x, y, 1, h, l⟩,
    ⟨x + w - 1, y, 1, h, d⟩, ⟨x, y + h - 1, w, 1, d⟩, ⟨x + 1, y + 1, w - 2, 1, il⟩,
    ⟨x + 1, y + 1, 1, h - 2, il⟩, ⟨x + w - 2, y + 1, 1, h - 2, id⟩,
    ⟨x + 1, y + h - 2, w - 2, 1, id⟩]

/-- The colours of a panel. -/
def panelLayer (x y w h : BitVec 32) (sunken : Bool) : Layer Point (BitVec 32) :=
  stack ((panelRects x y w h sunken).map Rect.layer)

section
variable {τ δ : Type} {s : Fb} {x y w h c : BitVec 32} {p : Point} {sunken : Bool}

/-- A filled region has a colour exactly at its points. -/
theorem fill_isSome {r : Point → Prop} [DecidablePred r] : (fill r c p).isSome ↔ r p := by
  unfold fill
  split
  · next hr => exact iff_of_true rfl hr
  · next hr => exact iff_of_false (by simp) hr

/-- A rectangle whose sides do not wrap has the points between them. -/
theorem inRect_iff (hx : x.toNat + w.toNat ≤ 2 ^ 32) (hy : y.toNat + h.toNat ≤ 2 ^ 32) :
    InRect x y w h p ↔ (x.toNat ≤ p.1.toNat ∧ p.1.toNat < x.toNat + w.toNat) ∧
      y.toNat ≤ p.2.toNat ∧ p.2.toNat < y.toNat + h.toNat := by
  unfold InRect
  generalize p.1 = a
  generalize p.2 = b
  constructor
  · rintro ⟨ha, hb⟩
    constructor
    · bv_omega
    · bv_omega
  · rintro ⟨ha, hb⟩
    constructor
    · bv_omega
    · bv_omega

/-- The pixels of a rectangle that does not wrap are those between its sides, as numbers. -/
theorem inRect_pointOf (hx : x.toNat + w.toNat ≤ 2 ^ 32) (hy : y.toNat + h.toNat ≤ 2 ^ 32)
    {px py : Nat} (hpx : px < 2 ^ 32) (hpy : py < 2 ^ 32) : InRect x y w h (pointOf px py) ↔
      (x.toNat ≤ px ∧ px < x.toNat + w.toNat) ∧ y.toNat ≤ py ∧ py < y.toNat + h.toNat := by
  rw [inRect_iff hx hy, pointOf, BitVec.toNat_ofNat, BitVec.toNat_ofNat, Nat.mod_eq_of_lt hpx,
    Nat.mod_eq_of_lt hpy]

/-- The rectangle does not wrap. -/
def Rect.Flat (r : Rect) : Prop :=
  r.x.toNat + r.w.toNat < 2 ^ 32 ∧ r.y.toNat + r.h.toNat < 2 ^ 32

/-- `fb_rect` draws a rectangle that does not wrap, on the screen or partly beside it. -/
theorem Rect.Flat.draws {r : Rect} (hr : r.Flat) (hg : s.Geometry) : s.Draws r.layer r.draw := by
  obtain ⟨hx, hy⟩ := hr
  refine fbRect_draws hg ?_ r.c
  rcases Nat.lt_or_ge r.x.toNat s.fbWidth.toNat with hxw | hxw
  · rcases Nat.lt_or_ge r.y.toNat s.fbHeight.toNat with hyh | hyh
    · exact .inr (.inr ⟨BitVec.lt_def.2 hxw, BitVec.lt_def.2 hyh, hx, hy⟩)
    · exact .inr (.inl (.inr (.inr ⟨BitVec.le_def.2 hyh, hy.le⟩)))
  · exact .inl (.inr (.inr ⟨BitVec.le_def.2 hxw, hx.le⟩))

/-- Drawing functions called one after the other draw their layers one above the other. -/
theorem Fb.Draws.foldl {ι : Type} {layer : ι → Layer Point (BitVec 32)} {draw : ι → Fb → Fb}
    {l : List ι} (h : ∀ e ∈ l, s.Draws (layer e) (draw e)) :
    s.Draws (stack (l.map layer)) fun t => l.foldl (fun t e => draw e t) t := by
  induction l with
  | nil => exact .id s
  | cons e l ih =>
      exact (h e List.mem_cons_self).comp (ih fun e' he' => h e' (List.mem_cons_of_mem e he'))

/-! ## Panels -/

/-- A panel has room for its bevel, and its sides do not wrap. -/
structure PanelFits (x y w h : BitVec 32) : Prop where
  width : 4 ≤ w.toNat
  height : 4 ≤ h.toNat
  right : x.toNat + w.toNat < 2 ^ 32
  bottom : y.toNat + h.toNat < 2 ^ 32

/-- If a panel fits, none of its rectangles wraps. -/
theorem panelRects_flat (hfits : PanelFits x y w h) : ∀ r ∈ panelRects x y w h sunken, r.Flat := by
  obtain ⟨hw, hh, hr, hb⟩ := hfits
  simp only [panelRects, List.forall_mem_cons, List.not_mem_nil, false_implies, implies_true,
    and_true, Rect.Flat]
  refine ⟨⟨?_, ?_⟩, ⟨?_, ?_⟩, ⟨?_, ?_⟩, ⟨?_, ?_⟩, ⟨?_, ?_⟩, ⟨?_, ?_⟩, ⟨?_, ?_⟩, ⟨?_, ?_⟩, ?_, ?_⟩
  all_goals bv_omega

/-- `draw_retro_3d_panel` fills its rectangles in the order of the list. -/
theorem drawRetro3dPanel_eq (t : Fb) (x y w h : BitVec 32) (sunken : Bool) :
    drawRetro3dPanel t x y w h sunken =
      (panelRects x y w h sunken).foldl (fun t r => r.draw t) t := by
  simp only [panelRects, List.foldl_cons, List.foldl_nil, Rect.draw]
  rfl

/-- So it draws the layers of the panel, one above the other. -/
theorem panel_draws (hg : s.Geometry) (hfits : PanelFits x y w h) (sunken : Bool) :
    s.Draws (panelLayer x y w h sunken) fun t => drawRetro3dPanel t x y w h sunken := by
  simp only [drawRetro3dPanel_eq]
  exact .foldl fun r hr => (panelRects_flat hfits r hr).draws hg

/-- A rectangle that does not wrap covers the points between its sides. -/
theorem Rect.layer_isSome {r : Rect} (hr : r.Flat) : (r.layer p).isSome ↔
    (r.x.toNat ≤ p.1.toNat ∧ p.1.toNat < r.x.toNat + r.w.toNat) ∧
      r.y.toNat ≤ p.2.toNat ∧ p.2.toNat < r.y.toNat + r.h.toNat :=
  fill_isSome.trans (inRect_iff hr.1.le hr.2.le)

/-- A panel covers its rectangle and nothing else: the first rectangle fills it, and the lines of
the bevel lie in it. -/
theorem panelLayer_isSome (hfits : PanelFits x y w h) :
    (panelLayer x y w h sunken p).isSome ↔ InRect x y w h p := by
  have hflat : ∀ r ∈ panelRects x y w h sunken, r.Flat := panelRects_flat hfits
  rw [panelLayer, stack_map_isSome, inRect_iff hfits.right.le hfits.bottom.le]
  obtain ⟨hw, hh, hr, hb⟩ := hfits
  constructor
  · rintro ⟨r, hmem, hp⟩
    rw [Rect.layer_isSome (hflat r hmem)] at hp
    simp only [panelRects, List.mem_cons, List.not_mem_nil, or_false] at hmem
    rcases hmem with rfl | rfl | rfl | rfl | rfl | rfl | rfl | rfl | rfl
    all_goals
      dsimp only at hp
      bv_omega
  · rintro ⟨hx, hy⟩
    have hcovers : ∀ r ∈ panelRects x y w h sunken,
        ((r.x.toNat ≤ p.1.toNat ∧ p.1.toNat < r.x.toNat + r.w.toNat) ∧
          r.y.toNat ≤ p.2.toNat ∧ p.2.toNat < r.y.toNat + r.h.toNat) →
        ∃ r ∈ panelRects x y w h sunken, (r.layer p).isSome :=
      fun r hmem hp => ⟨r, hmem, (Rect.layer_isSome (hflat r hmem)).2 hp⟩
    clear hflat
    -- the bevel from the outside to the inside, and then the surface
    rcases Nat.lt_or_ge p.2.toNat (y.toNat + 1) with htop | htop
    · refine hcovers _ (.tail _ (.head _)) ?_
      dsimp only
      bv_omega
    rcases Nat.lt_or_ge p.1.toNat (x.toNat + 1) with hleft | hleft
    · refine hcovers _ (.tail _ (.tail _ (.head _))) ?_
      dsimp only
      bv_omega
    rcases Nat.lt_or_ge p.1.toNat (x.toNat + w.toNat - 1) with hright | hright
    swap
    · refine hcovers _ (.tail _ (.tail _ (.tail _ (.head _)))) ?_
      dsimp only
      bv_omega
    rcases Nat.lt_or_ge p.2.toNat (y.toNat + h.toNat - 1) with hbottom | hbottom
    swap
    · refine hcovers _ (.tail _ (.tail _ (.tail _ (.tail _ (.head _))))) ?_
      dsimp only
      bv_omega
    rcases Nat.lt_or_ge p.2.toNat (y.toNat + 2) with htop' | htop'
    · refine hcovers _ (.tail _ (.tail _ (.tail _ (.tail _ (.tail _ (.head _)))))) ?_
      dsimp only
      bv_omega
    rcases Nat.lt_or_ge p.1.toNat (x.toNat + 2) with hleft' | hleft'
    · refine hcovers _ (.tail _ (.tail _ (.tail _ (.tail _ (.tail _ (.tail _ (.head _))))))) ?_
      dsimp only
      bv_omega
    rcases Nat.lt_or_ge p.1.toNat (x.toNat + w.toNat - 2) with hright' | hright'
    swap
    · refine hcovers _
        (.tail _ (.tail _ (.tail _ (.tail _ (.tail _ (.tail _ (.tail _ (.head _)))))))) ?_
      dsimp only
      bv_omega
    · rcases Nat.lt_or_ge p.2.toNat (y.toNat + h.toNat - 2) with hbottom' | hbottom'
      · refine hcovers _ (.head _) ?_
        dsimp only
        bv_omega
      · refine hcovers _ (.tail _ (.tail _ (.tail _ (.tail _ (.tail _ (.tail _ (.tail _
          (.tail _ (.head _))))))))) ?_
        dsimp only
        bv_omega

/-! ## Frames -/

/-- The rectangle of the window does not wrap, its gadgets have room in it, and so has its title. -/
structure Window.Drawable (w : Window τ δ) (title : List UInt8) : Prop where
  right : w.x.toNat + w.w.toNat < 2 ^ 31
  bottom : w.y.toNat + w.h.toNat < 2 ^ 31
  width : 44 ≤ w.w.toNat
  height : 32 ≤ w.h.toNat
  titleFits : 26 + 8 * strlen title ≤ w.w.toNat
  titleLine : 10 ∉ cstr title

/-- `draw_window_frame`; `active` is `w == active_window`. -/
def drawWindowFrame (s : Fb) (active : Bool) (w : Window τ δ) (title : List UInt8) : Fb :=
  let tC1 := if active then currentTheme.titlebarActive else currentTheme.titlebarInactive
  let tC2 := if active then currentTheme.titlebarActiveGrad else currentTheme.titlebarInactiveGrad
  let textCol := if active then currentTheme.textActive else currentTheme.textInactive
  let s := drawRetro3dPanel s w.x w.y w.w w.borderH false
  let s := fbGradient s (w.x + 4) (w.y + 4) (w.w - 8) 18 tC1 tC2
  let s := fbPrint s title (w.x + 26) (w.y + 9) textCol tC1
  let s := drawRetro3dPanel s (w.x + 6) (w.y + 6) 14 14 true
  let s := fbPrint s (str "x") (w.x + 10) (w.y + 9) 0x000000 currentTheme.borderMid
  let s := drawRetro3dPanel s (w.x + w.w - 20) (w.y + 6) 14 14 false
  let s := fbRect s (w.x + w.w - 17) (w.y + 9) 6 6 0x555555
  let s := fbRect s (w.x + w.w - 14) (w.y + 12) 6 6 0xFFFFFF
  let s := drawRetro3dPanel s (w.x + w.w - 38) (w.y + 6) 14 14 false
  let s := fbPrint s (if w.minimized then str "+" else str "-") (w.x + w.w - 34) (w.y + 9)
    0x000000 currentTheme.borderMid
  if !w.minimized then drawRetro3dPanel s (w.x + 4) (w.y + 24) (w.w - 8) (w.h - 28) true else s

/-- What is drawn on the panel of a frame. -/
def gadgetLayers (active : Bool) (w : Window τ δ) (title : List UInt8) :
    List (Layer Point (BitVec 32)) :=
  let tC1 := if active then currentTheme.titlebarActive else currentTheme.titlebarInactive
  let tC2 := if active then currentTheme.titlebarActiveGrad else currentTheme.titlebarInactiveGrad
  let textCol := if active then currentTheme.textActive else currentTheme.textInactive
  [gradientLayer (w.x + 4) (w.y + 4) (w.w - 8) 18 tC1 tC2,
    textLayer (cstr title) (w.x + 26) (w.y + 9) textCol tC1,
    panelLayer (w.x + 6) (w.y + 6) 14 14 true,
    textLayer (str "x") (w.x + 10) (w.y + 9) 0x000000 currentTheme.borderMid,
    panelLayer (w.x + w.w - 20) (w.y + 6) 14 14 false,
    Rect.layer ⟨w.x + w.w - 17, w.y + 9, 6, 6, 0x555555⟩,
    Rect.layer ⟨w.x + w.w - 14, w.y + 12, 6, 6, 0xFFFFFF⟩,
    panelLayer (w.x + w.w - 38) (w.y + 6) 14 14 false,
    textLayer (if w.minimized then str "+" else str "-") (w.x + w.w - 34) (w.y + 9) 0x000000
      currentTheme.borderMid,
    if w.minimized then fun _ => none
    else panelLayer (w.x + 4) (w.y + 24) (w.w - 8) (w.h - 28) true]

/-- The colours of a frame. -/
def frameLayer (active : Bool) (w : Window τ δ) (title : List UInt8) : Layer Point (BitVec 32) :=
  overlay (panelLayer w.x w.y w.w w.borderH false) (stack (gadgetLayers active w title))

section
variable {w : Window τ δ} {title : List UInt8} {active : Bool}

/-- Minimised or not, the panel of a frame is at least 26 rows high and ends below `2 ^ 31`. -/
theorem borderH_bounds (hw : w.Drawable title) :
    26 ≤ w.borderH.toNat ∧ w.y.toNat + w.borderH.toNat < 2 ^ 31 := by
  have hbottom := hw.bottom
  have hheight := hw.height
  unfold Window.borderH
  split
  · constructor
    · decide
    · bv_omega
  · omega

/-- The frame of such a window is a panel that fits. -/
theorem frame_fits (hw : w.Drawable title) : PanelFits w.x w.y w.w w.borderH := by
  obtain ⟨hlow, hhigh⟩ := borderH_bounds hw
  have hright := hw.right
  have hwidth := hw.width
  exact ⟨by omega, by omega, by omega, by omega⟩

/-- `draw_window_frame` draws the panel, the title bar, the gadgets and the title, in this order. -/
theorem frameLayer_draws (hg : s.Geometry) (hw : w.Drawable title) (active : Bool) :
    s.Draws (frameLayer active w title) fun t => drawWindowFrame t active w title := by
  have hframe := panel_draws hg (frame_fits hw) false
  obtain ⟨hlow, hhigh⟩ := borderH_bounds hw
  obtain ⟨hright, hbottom, hwidth, hheight, htitle, -⟩ := hw
  have hpanel : ∀ {x y w h : BitVec 32} {sunken : Bool}, PanelFits x y w h →
      s.Draws (panelLayer x y w h sunken) fun t => drawRetro3dPanel t x y w h sunken :=
    fun h => panel_draws hg h _
  have hprint : ∀ {text : List UInt8} {x y fg bg : BitVec 32}, text.length < 100 → 0 ∉ text →
      s.Draws (textLayer text x y fg bg) fun t => fbPrint t text x y fg bg := by
    intro text x y fg bg hlen hzero
    have hcstr := cstr_of_zero_not_mem hzero
    have hshort : strlen text < 2 ^ 28 := by
      rw [strlen, hcstr]
      omega
    have hdraws := fbPrint_draws hg hshort x y fg bg
    rwa [hcstr] at hdraws
  have hsign : s.Draws (textLayer (if w.minimized then str "+" else str "-") (w.x + w.w - 34)
      (w.y + 9) 0x000000 currentTheme.borderMid) fun t =>
        fbPrint t (if w.minimized then str "+" else str "-") (w.x + w.w - 34) (w.y + 9)
          0x000000 currentTheme.borderMid := by
    split
    · exact hprint (by decide) (by decide)
    · exact hprint (by decide) (by decide)
  have hinner : s.Draws (if w.minimized then fun _ => none
      else panelLayer (w.x + 4) (w.y + 24) (w.w - 8) (w.h - 28) true) fun t =>
        if !w.minimized then drawRetro3dPanel t (w.x + 4) (w.y + 24) (w.w - 8) (w.h - 28) true
        else t := by
    cases w.minimized with
    | true => exact .id s
    | false =>
        simp only [Bool.not_false, if_true, Bool.false_eq_true, if_false]
        exact hpanel ⟨by bv_omega, by bv_omega, by bv_omega, by bv_omega⟩
  have hgadget : ∀ {x : BitVec 32} {sunken : Bool}, x.toNat + 14 < 2 ^ 32 →
      s.Draws (panelLayer x (w.y + 6) 14 14 sunken) fun t =>
        drawRetro3dPanel t x (w.y + 6) 14 14 sunken :=
    fun hx => hpanel ⟨by decide, by decide, hx, by bv_omega⟩
  have hsquare : ∀ {x y c : BitVec 32}, x.toNat + 6 < 2 ^ 32 → y.toNat + 6 < 2 ^ 32 →
      s.Draws (Rect.layer ⟨x, y, 6, 6, c⟩) fun t => fbRect t x y 6 6 c :=
    fun hx hy => Rect.Flat.draws (r := ⟨_, _, 6, 6, _⟩) ⟨hx, hy⟩ hg
  unfold frameLayer gadgetLayers drawWindowFrame
  dsimp only
  simp only [stack_cons, stack_nil, overlay_none]
  with_reducible
    refine hframe.comp ((fbGradient_draws hg _ _ _ _ _ _).comp ((fbPrint_draws hg ?_ _ _ _ _).comp
      ((hgadget ?_).comp ((hprint ?_ ?_).comp ((hgadget ?_).comp ((hsquare ?_ ?_).comp
        ((hsquare ?_ ?_).comp ((hgadget ?_).comp (hsign.comp hinner)))))))))
  · omega
  · bv_omega
  · decide
  · decide
  · bv_omega
  · bv_omega
  · bv_omega
  · bv_omega
  · bv_omega
  · bv_omega

/-- The rectangle lies in the frame of the window. -/
def Window.Contains (w : Window τ δ) (x y : BitVec 32) (n m : Nat) : Prop :=
  (w.x.toNat ≤ x.toNat ∧ x.toNat + n ≤ w.x.toNat + w.w.toNat) ∧
    w.y.toNat ≤ y.toNat ∧ y.toNat + m ≤ w.y.toNat + w.borderH.toNat

/-- What is drawn in a rectangle within the frame is drawn in the frame. -/
theorem Window.Contains.inRect (hw : w.Drawable title) {x y : BitVec 32} {n m : Nat}
    (h : w.Contains x y n m) (hp : (p.1 - x).toNat < n ∧ (p.2 - y).toNat < m) :
    InRect w.x w.y w.w w.borderH p := by
  obtain ⟨hlow, hhigh⟩ := borderH_bounds hw
  have hright := hw.right
  obtain ⟨⟨hxl, hxr⟩, hyl, hyr⟩ := h
  rw [inRect_iff (by omega) (by omega)]
  generalize p.1 = a at *
  generalize p.2 = b at *
  clear hw
  constructor
  · bv_omega
  · bv_omega

/-- What is drawn on the panel is drawn inside the frame: the title bar, the gadgets and the title,
as the window has room for them. -/
theorem gadgets_inside (hw : w.Drawable title) : ∀ a ∈ gadgetLayers active w title,
    (a p).isSome → InRect w.x w.y w.w w.borderH p := by
  have hpanel : ∀ {x y v h : BitVec 32} {sunken : Bool}, PanelFits x y v h →
      w.Contains x y v.toNat h.toNat → (panelLayer x y v h sunken p).isSome →
      InRect w.x w.y w.w w.borderH p :=
    fun hfits hin hp => hin.inRect hw ((panelLayer_isSome hfits).1 hp)
  have htext : ∀ {text : List UInt8} {x y fg bg : BitVec 32}, 10 ∉ text →
      w.Contains x y (8 * text.length) 8 → (textLayer text x y fg bg p).isSome →
      InRect w.x w.y w.w w.borderH p :=
    fun hline hin hp => hin.inRect hw (textLayer_isSome hline hp)
  have hchar : ∀ (c : UInt8) {x y fg bg : BitVec 32}, c ≠ 10 → w.Contains x y 8 8 →
      (textLayer [c] x y fg bg p).isSome → InRect w.x w.y w.w w.borderH p :=
    fun c _ _ _ _ hc hin => htext (by simpa using hc.symm) hin
  have hrect : ∀ {x y c : BitVec 32}, w.Contains x y 6 6 →
      (Rect.layer ⟨x, y, 6, 6, c⟩ p).isSome → InRect w.x w.y w.w w.borderH p :=
    fun hin hp => hin.inRect hw (fill_isSome.1 hp)
  obtain ⟨hlow, hhigh⟩ := borderH_bounds hw
  have hw' := hw
  obtain ⟨hright, hbottom, hwidth, hheight, htitle, hline⟩ := hw
  intro a ha
  simp only [gadgetLayers, List.mem_cons, List.not_mem_nil, or_false] at ha
  rcases ha with rfl | rfl | rfl | rfl | rfl | rfl | rfl | rfl | rfl | rfl
  · intro hp
    have hbar : w.Contains (w.x + 4) (w.y + 4) (w.w - 8).toNat 18 :=
      ⟨⟨by bv_omega, by bv_omega⟩, by bv_omega, by bv_omega⟩
    obtain ⟨c, hc⟩ := Option.isSome_iff_exists.1 hp
    exact hbar.inRect hw' (gridLayer_eq_some.1 hc).1
  · have hlen : (cstr title).length = strlen title := rfl
    exact htext hline ⟨⟨by bv_omega, by bv_omega⟩, by bv_omega, by bv_omega⟩
  · exact hpanel ⟨by decide, by decide, by bv_omega, by bv_omega⟩
      ⟨⟨by bv_omega, by bv_omega⟩, by bv_omega, by bv_omega⟩
  · exact hchar 120 (by decide) ⟨⟨by bv_omega, by bv_omega⟩, by bv_omega, by bv_omega⟩
  · exact hpanel ⟨by decide, by decide, by bv_omega, by bv_omega⟩
      ⟨⟨by bv_omega, by bv_omega⟩, by bv_omega, by bv_omega⟩
  · exact hrect ⟨⟨by bv_omega, by bv_omega⟩, by bv_omega, by bv_omega⟩
  · exact hrect ⟨⟨by bv_omega, by bv_omega⟩, by bv_omega, by bv_omega⟩
  · exact hpanel ⟨by decide, by decide, by bv_omega, by bv_omega⟩
      ⟨⟨by bv_omega, by bv_omega⟩, by bv_omega, by bv_omega⟩
  · have hin : w.Contains (w.x + w.w - 34) (w.y + 9) 8 8 :=
      ⟨⟨by bv_omega, by bv_omega⟩, by bv_omega, by bv_omega⟩
    split
    · exact hchar 43 (by decide) hin
    · exact hchar 45 (by decide) hin
  · split
    · intro hp
      cases hp
    · next hshown =>
        have hfull : w.borderH = w.h := if_neg hshown
        exact hpanel ⟨by bv_omega, by bv_omega, by bv_omega, by bv_omega⟩
          ⟨⟨by bv_omega, by bv_omega⟩, by bv_omega, by rw [hfull]; bv_omega⟩

/-- A frame covers its rectangle and nothing else: its panel does, and the rest lies in it. -/
theorem frameLayer_isSome (hw : w.Drawable title) :
    (frameLayer active w title p).isSome ↔ InRect w.x w.y w.w w.borderH p := by
  rw [frameLayer, overlay_isSome, panelLayer_isSome (frame_fits hw), stack_isSome]
  exact or_iff_left_of_imp fun ⟨a, ha, hp⟩ => gadgets_inside hw a ha hp

end

/-! ## `wm_draw_all` -/

/-- A call of `wm_draw_all`, with the text of a title and what a draw function does. -/
def runDraw (text : τ → List UInt8) (content : δ → Window τ δ → Fb → Fb) (wm : Wm τ δ) (s : Fb) :
    DrawCall → Fb
  | .frame i =>
      match wm.windows[i]? with
      | some w => drawWindowFrame s (wm.activeWindow == some i) w (text w.title)
      | none => s
  | .content i =>
      match wm.windows[i]? with
      | some w =>
          match w.drawContent with
          | some d => content d w s
          | none => s
      | none => s

/-- `wm_draw_all`, on the framebuffer. -/
def wmPaintAll (text : τ → List UInt8) (content : δ → Window τ δ → Fb → Fb) (wm : Wm τ δ)
    (s : Fb) : Fb :=
  (wmDrawAll wm).foldl (runDraw text content wm) s

/-- The window in a slot, if the first loop of `wm_draw_all` draws it. -/
def Wm.inactiveAt (wm : Wm τ δ) (i : Nat) : Option (Nat × Window τ δ) :=
  match wm.windows[i]? with
  | some w => if w.closed || wm.activeWindow == some i then none else some (i, w)
  | none => none

/-- The windows that are drawn, in this order, with their slots. -/
def Wm.drawOrder (wm : Wm τ δ) : List (Nat × Window τ δ) :=
  (List.range wm.windowCount).flatMap (fun i => (wm.inactiveAt i).toList) ++ wm.openActive.toList

/-- What is drawn of a window: its frame, and its content unless it is minimized. -/
def windowLayer (text : τ → List UInt8) (look : δ → Window τ δ → Layer Point (BitVec 32))
    (wm : Wm τ δ) (e : Nat × Window τ δ) : Layer Point (BitVec 32) :=
  overlay (frameLayer (wm.activeWindow == some e.1) e.2 (text e.2.title))
    (if e.2.minimized then fun _ => none
      else match e.2.drawContent with
        | some d => look d e.2
        | none => fun _ => none)

/-- The draw functions draw their layers, and these lie in the frames. -/
structure ContentsFit (s : Fb) (content : δ → Window τ δ → Fb → Fb)
    (look : δ → Window τ δ → Layer Point (BitVec 32)) (w : Window τ δ) : Prop where
  draws : ∀ d, w.drawContent = some d → s.Draws (look d w) (content d w)
  inside : ∀ d, w.drawContent = some d → ∀ p, (look d w p).isSome → InRect w.x w.y w.w w.h p

section
variable {text : τ → List UInt8} {content : δ → Window τ δ → Fb → Fb}
  {look : δ → Window τ δ → Layer Point (BitVec 32)} {wm : Wm τ δ} {e : Nat × Window τ δ}
  {px py : Nat}

/-- Only open windows are drawn, each from its own slot. -/
theorem mem_drawOrder (he : e ∈ wm.drawOrder) :
    wm.windows[e.1]? = some e.2 ∧ e.2.closed = false := by
  rcases List.mem_append.1 he with he | he
  · obtain ⟨i, -, hi⟩ := List.mem_flatMap.1 he
    have hi := Option.mem_toList.1 hi
    unfold Wm.inactiveAt at hi
    cases hw : wm.windows[i]? with
    | none =>
        rw [hw] at hi
        cases hi
    | some w =>
        rw [hw] at hi
        dsimp only at hi
        split at hi
        · cases hi
        · next hopen =>
            cases hi
            rw [Bool.or_eq_true, not_or, Bool.not_eq_true] at hopen
            exact ⟨hw, hopen.1⟩
  · obtain ⟨-, hw, hopen⟩ := openActive_eq_some.1 (Option.mem_toList.1 he)
    exact ⟨hw, hopen⟩

/-- The calls of the windows, one window after the other: the inactive ones by their slots, and then
the active one. -/
theorem wmDrawAll_eq (wm : Wm τ δ) :
    wmDrawAll wm = wm.drawOrder.flatMap fun e => drawCalls e.2 e.1 := by
  have hinactive : wm.drawInactive =
      fun i => ((wm.inactiveAt i).toList).flatMap fun e => drawCalls e.2 e.1 := by
    funext i
    unfold Wm.drawInactive Wm.inactiveAt
    cases wm.windows[i]? with
    | none => rfl
    | some w =>
        dsimp only
        split
        · rfl
        · exact (List.append_nil _).symm
  unfold wmDrawAll Wm.drawOrder
  rw [List.flatMap_append, List.flatMap_assoc, hinactive]
  refine congrArg₂ (· ++ ·) rfl ?_
  cases wm.openActive with
  | none => rfl
  | some e => exact (List.append_nil _).symm

/-- Drawing a window: its frame, and then its content if it is not minimised. -/
theorem windowLayer_draws (hg : s.Geometry) (hw : wm.windows[e.1]? = some e.2)
    (hdrawable : e.2.Drawable (text e.2.title)) (hcontent : ContentsFit s content look e.2) :
    s.Draws (windowLayer text look wm e)
      fun t => (drawCalls e.2 e.1).foldl (runDraw text content wm) t := by
  have hframe := frameLayer_draws hg hdrawable (wm.activeWindow == some e.1)
  unfold windowLayer drawCalls
  cases hmin : e.2.minimized with
  | true =>
      simp only [Bool.not_true, Bool.false_and, Bool.false_eq_true, if_false, if_true,
        List.foldl_cons, List.foldl_nil, runDraw, hw]
      exact hframe.comp (.id s)
  | false =>
      cases hd : e.2.drawContent with
      | none =>
          simp only [Bool.not_false, Option.isSome_none, Bool.and_false, Bool.false_eq_true,
            if_false, List.foldl_cons, List.foldl_nil, runDraw, hw]
          exact hframe.comp (.id s)
      | some d =>
          simp only [Bool.not_false, Option.isSome_some, Bool.and_self, if_true,
            Bool.false_eq_true, if_false, List.foldl_cons, List.foldl_nil, runDraw, hw, hd]
          exact hframe.comp (hcontent.draws d hd)

/-- What is drawn of a window covers its frame and nothing else. -/
theorem windowLayer_isSome {p : Point} (hdrawable : e.2.Drawable (text e.2.title))
    (hcontent : ContentsFit s content look e.2) :
    (windowLayer text look wm e p).isSome ↔ InRect e.2.x e.2.y e.2.w e.2.borderH p := by
  rw [windowLayer, overlay_isSome, frameLayer_isSome hdrawable]
  refine or_iff_left_of_imp fun hp => ?_
  split at hp
  · cases hp
  · next hshown =>
      have hfull : e.2.borderH = e.2.h := if_neg hshown
      rw [hfull]
      cases hd : e.2.drawContent with
      | none =>
          rw [hd] at hp
          cases hp
      | some d =>
          rw [hd] at hp
          exact hcontent.inside d hd p hp

/-- A pixel of the frame, as the hit test sees it. -/
theorem inRect_iff_frameHas {w : Window τ δ} {title : List UInt8} (hw : w.Drawable title)
    (hpx : px < 2 ^ 32) (hpy : py < 2 ^ 32) :
    InRect w.x w.y w.w w.borderH (pointOf px py) ↔ w.FrameHas px py := by
  obtain ⟨hlow, hhigh⟩ := borderH_bounds hw
  have hright := hw.right
  have hx : w.x.toInt = w.x.toNat := BitVec.toInt_eq_toNat_of_lt (by omega)
  have hy : w.y.toInt = w.y.toNat := BitVec.toInt_eq_toNat_of_lt (by omega)
  rw [inRect_pointOf (by omega) (by omega) hpx hpy]
  unfold Window.FrameHas
  rw [hx, hy]
  omega

/-- The window that is painted last at a point is the last one of the drawing order whose frame
holds it. -/
theorem topPainted_eq_last (wm : Wm τ δ) (mx my : Int) :
    wm.topPainted mx my =
      (wm.drawOrder.filter fun e => e.2.FrameHas mx my).getLast?.map Prod.fst := by
  have hall : ∀ l : List (Nat × Window τ δ), (∀ e ∈ l, wm.windows[e.1]? = some e.2) →
      (l.flatMap fun e => drawCalls e.2 e.1).filterMap (wm.frameAt mx my) =
        (l.filter fun e => e.2.FrameHas mx my).map Prod.fst := by
    intro l hl
    induction l with
    | nil => rfl
    | cons e l ih =>
        rw [List.flatMap_cons, List.filterMap_append,
          filterMap_drawCalls (hl e List.mem_cons_self),
          ih fun e' he' => hl e' (List.mem_cons_of_mem e he'), List.filter_cons]
        by_cases hf : e.2.FrameHas mx my
        · simp [hf]
        · simp [hf]
  rw [Wm.topPainted, wmDrawAll_eq, hall _ fun e he => (mem_drawOrder he).1, List.getLast?_map]

end

end

/-- After `wm_draw_all` a visible pixel shows what is drawn there of the window that is painted
last at it, whatever the windows below have drawn; and a pixel on no frame is as before. The open
windows have to be drawable: of one that is dragged off the left or the top edge `fb_rect` drops the
panels. -/
theorem wm_draw_all_shows_top {τ δ : Type} {s : Fb} (hg : s.Geometry) (wm : Wm τ δ)
    (text : τ → List UInt8) (content : δ → Window τ δ → Fb → Fb)
    (look : δ → Window τ δ → Layer Point (BitVec 32))
    (hdrawable : ∀ w ∈ wm.windows, w.closed = false → w.Drawable (text w.title))
    (hcontent : ∀ w ∈ wm.windows, w.closed = false → ContentsFit s content look w)
    {px py : Nat} (hv : s.Visible px py) :
    match wm.topPainted px py with
    | none => (wmPaintAll text content wm s).colour px py = s.colour px py
    | some i => ∃ w c, wm.windows[i]? = some w ∧
        windowLayer text look wm (i, w) (pointOf px py) = some c ∧
        (wmPaintAll text content wm s).colour px py = c := by
  have hmem : ∀ e ∈ wm.drawOrder,
      e.2.Drawable (text e.2.title) ∧ ContentsFit s content look e.2 := by
    intro e he
    obtain ⟨hw, hopen⟩ := mem_drawOrder he
    have hmem := List.mem_of_getElem? hw
    exact ⟨hdrawable _ hmem hopen, hcontent _ hmem hopen⟩
  have hdraws : s.Draws (stack (wm.drawOrder.map (windowLayer text look wm)))
      fun t => wmPaintAll text content wm t := by
    unfold wmPaintAll
    simp only [wmDrawAll_eq, List.foldl_flatMap]
    exact .foldl fun e he =>
      windowLayer_draws hg (mem_drawOrder he).1 (hmem e he).1 (hmem e he).2
  have htop : stack (wm.drawOrder.map (windowLayer text look wm)) (pointOf px py) =
      (wm.drawOrder.filter fun e => e.2.FrameHas px py).getLast?.bind fun e =>
        windowLayer text look wm e (pointOf px py) := by
    refine stack_map_top fun e he => ?_
    rw [Bool.eq_iff_iff, windowLayer_isSome (hmem e he).1 (hmem e he).2,
      inRect_iff_frameHas (hmem e he).1 (hv.1.trans s.fbWidth.isLt) (hv.2.trans s.fbHeight.isLt),
      decide_eq_true_iff]
  have hcolour := hdraws.colour hv
  rw [htop] at hcolour
  rw [topPainted_eq_last]
  cases hlast : (wm.drawOrder.filter fun e => e.2.FrameHas px py).getLast? with
  | none =>
      rw [hlast] at hcolour
      exact hcolour
  | some e =>
      rw [hlast, Option.bind_some] at hcolour
      obtain ⟨he, hf⟩ := List.mem_filter.1 (List.mem_of_getLast? hlast)
      have hon := (inRect_iff_frameHas (hmem e he).1 (hv.1.trans s.fbWidth.isLt)
        (hv.2.trans s.fbHeight.isLt)).2 (of_decide_eq_true hf)
      have hcovered : (windowLayer text look wm e (pointOf px py)).isSome :=
        (windowLayer_isSome (hmem e he).1 (hmem e he).2).2 hon
      obtain ⟨c, hc⟩ := Option.isSome_iff_exists.1 hcovered
      refine ⟨e.2, c, (mem_drawOrder he).1, hc, ?_⟩
      rw [hcolour, hc]
      rfl

/-- Two windows, the second of which overlaps the first. -/
def twoWindows : Wm (List UInt8) Unit :=
  wmAddWindow (wmAddWindow Wm.static 10 10 100 60 (str "a") none) 50 30 100 60 (str "b") none

/-- Where they overlap the second one is seen: it is the active one. -/
theorem wm_draw_all_shows_top_two : ∃ w c, twoWindows.windows[1]? = some w ∧
    windowLayer id (fun _ _ _ => none) twoWindows (1, w) (pointOf 60 40) = some c ∧
      (wmPaintAll id (fun _ _ t => t) twoWindows (screenOf 640 480)).colour 60 40 = c := by
  have htop : twoWindows.topPainted 60 40 = some 1 := by decide
  have hwindows : twoWindows.windows = [⟨10, 10, 100, 60, str "a", 0xC0C0C0, false, false, false,
      none, 0⟩, ⟨50, 30, 100, 60, str "b", 0xC0C0C0, true, false, false, none, 1⟩] := rfl
  have hv : (screenOf 640 480).Visible 60 40 := ⟨by decide, by decide⟩
  have hseen := wm_draw_all_shows_top (s := screenOf 640 480) ⟨by decide, by decide⟩ twoWindows
    id (fun _ _ t => t) (fun _ _ _ => none) (fun w hw _ => ?_) (fun w hw _ => ?_) hv
  · rw [show twoWindows.topPainted (60 : Nat) (40 : Nat) = some 1 from htop] at hseen
    exact hseen
  · rw [hwindows] at hw
    simp only [List.mem_cons, List.not_mem_nil, or_false] at hw
    rcases hw with rfl | rfl
    · exact ⟨by decide, by decide, by decide, by decide, by decide, by decide⟩
    · exact ⟨by decide, by decide, by decide, by decide, by decide, by decide⟩
  · exact ⟨fun d _ => .id _, fun d _ p hp => by cases hp⟩

end OnkenOS
