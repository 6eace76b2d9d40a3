import OnkenOS.Apps.TerminalDraw
import OnkenOS.Gui.Frame

/-!
# The terminal on the screen

What `terminal_draw` paints, pixel by pixel. The rows of a window read as the lines of the history
that the scroll offset asks for, the row below them as the prompt with the line that is being typed,
and behind each text the row is blank, as are the rows below the prompt, whatever was on the screen
before (`terminal_screen_reads`).
-/

namespace OnkenOS

open Words Layers

/-! ## Painting -/

/-- A call of `fb_rect` or `fb_print`. -/
def Paint.draw : Paint → Fb → Fb
  | .rect x y w h c, s => fbRect s x y w h c
  | .print text x y fg bg, s => fbPrint s text x y fg bg

/-- Its colours. -/
def Paint.layer : Paint → Layer Point (BitVec 32)
  | .rect x y w h c => fill (InRect x y w h) c
  | .print text x y fg bg => textLayer (cstr text) x y fg bg

/-- The calls of a redraw in their order. -/
def Drawn.paints (d : Drawn) : List Paint := d.background :: (d.rows ++ d.prompt)

/-- A redraw on the framebuffer. -/
def Drawn.draw (d : Drawn) (s : Fb) : Fb := d.paints.foldl (fun s p => p.draw s) s

/-- The background of the terminal. -/
abbrev termBg : BitVec 32 := 0x111111

/-- The strings of the prompt with their colours. -/
def promptPieces (t : Terminal) : List (List UInt8 × BitVec 32) :=
  [(str "root@onken:", 0x50E3C2), (cstr t.currentDir, 0x4A90E2), (str "$ ", 0xBD10E0),
    (cstr t.cmdBuf, 0xFFFFFF)]

/-- The rows of the window from the top: the lines, and the prompt below them. -/
def screenRows (t : Terminal) (lines : List HistoryLine) : List (List (List UInt8 × BitVec 32)) :=
  lines.map (fun line => [(cstr line.text, line.color)]) ++ [promptPieces t]

section
variable {τ δ : Type} {w : Window τ δ} {t : Terminal} {lines : List HistoryLine} {s : Fb}

/-- Row `i` of the window. -/
def rowLayer (w : Window τ δ) (e : Nat × List (List UInt8 × BitVec 32)) :
    Layer Point (BitVec 32) :=
  stack (rowLayers (w.y + 30 + 12 * BitVec.ofNat 32 e.1) termBg (w.x + 10) e.2)

/-- Each row takes the loop twelve pixels down, to where the prompt is drawn. -/
theorem paintRows_snd (w : Window τ δ) (sy : BitVec 32) (lines : List HistoryLine) :
    (paintRows w sy lines).2 = sy + 12 * BitVec.ofNat 32 (paintRows w sy lines).1.length := by
  induction lines generalizing sy with
  | nil => simp [paintRows]
  | cons line lines ih =>
      rw [paintRows]
      split
      · simp
      · dsimp only
        rw [ih, List.length_cons, Nat.add_comm _ 1, BitVec.ofNat_add, BitVec.mul_add,
          BitVec.add_assoc]
        rfl

/-- What a redraw calls: the background, and the prompt below the rows. -/
theorem terminalDraw_calls (t : Terminal) (mouseScrollDelta : BitVec 8) (active : Bool)
    (w : Window τ δ) :
    (terminalDraw t mouseScrollDelta active w).background =
        .rect (w.x + 6) (w.y + 26) (w.w - 12) (w.h - 32) termBg ∧
      (terminalDraw t mouseScrollDelta active w).prompt =
        paintPrompt w t (w.y + 30 +
          12 * BitVec.ofNat 32 (terminalDraw t mouseScrollDelta active w).rows.length) := by
  rw [terminalDraw]
  by_cases hscroll : active ∧ mouseScrollDelta ≠ 0
  · rw [if_pos hscroll]
    dsimp only
    rw [paintRows_snd]
    exact ⟨rfl, rfl⟩
  · rw [if_neg hscroll]
    dsimp only
    rw [paintRows_snd]
    exact ⟨rfl, rfl⟩

/-- The prompt draws a row of its own: the directory, the sign and the line. -/
theorem promptLayers (w : Window τ δ) (t : Terminal) (i : Nat) :
    stack ((paintPrompt w t (w.y + 30 + 12 * BitVec.ofNat 32 i)).map Paint.layer) =
      rowLayer w (i, promptPieces t) := by
  have hdir : w.x + 10 + 11 * 8 = w.x + 10 + BitVec.ofNat 32 (8 * 11) := rfl
  have hdollar : w.x + 10 + (11 + BitVec.ofNat 32 (strlen t.currentDir)) * 8 =
      w.x + 10 + BitVec.ofNat 32 (8 * 11) + BitVec.ofNat 32 (8 * (cstr t.currentDir).length) := by
    unfold strlen
    bv_omega
  have hcmd : w.x + 10 + (13 + BitVec.ofNat 32 (strlen t.currentDir)) * 8 =
      w.x + 10 + BitVec.ofNat 32 (8 * 11) + BitVec.ofNat 32 (8 * (cstr t.currentDir).length) +
        BitVec.ofNat 32 (8 * 2) := by
    unfold strlen
    bv_omega
  unfold paintPrompt rowLayer promptPieces
  dsimp only
  rw [hdir, hdollar, hcmd]
  rfl

/-- The rows of the window, those of the history and the prompt. -/
theorem screenRows_layers {d : Drawn} (hrows : d.rows = lines.mapIdx (rowOf w))
    (hprompt : d.prompt = paintPrompt w t (w.y + 30 + 12 * BitVec.ofNat 32 d.rows.length)) :
    stack ((d.rows ++ d.prompt).map Paint.layer) =
      stack (((screenRows t lines).mapIdx Prod.mk).map (rowLayer w)) := by
  have hline : ∀ (i : Nat) (line : HistoryLine),
      (rowOf w i line).layer = rowLayer w (i, [(cstr line.text, line.color)]) :=
    fun i line => (overlay_none _).symm
  have hlines : (lines.mapIdx (rowOf w)).map Paint.layer =
      ((lines.map fun line => [(cstr line.text, line.color)]).mapIdx Prod.mk).map
        (rowLayer w) := by
    refine List.ext_getElem? fun i => ?_
    simp only [List.getElem?_map, List.getElem?_mapIdx, Option.map_map]
    cases lines[i]? with
    | none => rfl
    | some line => exact congrArg some (hline i line)
  rw [List.map_append, stack_append, hprompt, promptLayers, hrows, List.length_mapIdx, hlines,
    screenRows, List.mapIdx_append, List.map_append, stack_append, List.length_map]
  simp [overlay_none]

/-- A pixel lies in one row at most: the rows are eight pixels high and twelve apart, and none of
them wraps. -/
theorem rows_disjoint {b c : BitVec 32} {i j : Nat} (hi : i < 2 ^ 28) (hj : j < 2 ^ 28)
    (hne : j ≠ i) (hp : (b - (c + 12 * BitVec.ofNat 32 i)).toNat < 8) :
    8 ≤ (b - (c + 12 * BitVec.ofNat 32 j)).toNat := by
  have hdown : ∀ i k : Nat, b - (c + 12 * BitVec.ofNat 32 (i + k)) =
      b - (c + 12 * BitVec.ofNat 32 i) - BitVec.ofNat 32 (12 * k) := by
    intro i k
    rw [BitVec.ofNat_add, BitVec.mul_add, ← BitVec.add_assoc, BitVec.ofNat_mul, ← BitVec.sub_sub]
    rfl
  have hfar : ∀ (a : BitVec 32) {k : Nat}, k + 1 < 2 ^ 28 → a.toNat < 8 →
      8 ≤ (a - BitVec.ofNat 32 (12 * (k + 1))).toNat := by
    intro a k hk ha
    have hgap : (BitVec.ofNat 32 (12 * (k + 1))).toNat = 12 * (k + 1) :=
      (BitVec.toNat_ofNat ..).trans (Nat.mod_eq_of_lt (by omega))
    rw [BitVec.toNat_sub, hgap, Nat.mod_eq_of_lt (by omega)]
    omega
  rcases Nat.lt_or_gt_of_ne hne with hlt | hlt
  · obtain ⟨k, rfl⟩ := Nat.exists_eq_add_of_lt hlt
    rw [Nat.add_assoc, hdown] at hp
    exact Nat.not_lt.1 fun ha => absurd hp (Nat.not_lt.2 (hfar _ (by omega) ha))
  · obtain ⟨k, rfl⟩ := Nat.exists_eq_add_of_lt hlt
    rw [Nat.add_assoc, hdown]
    exact hfar _ (by omega) hp

/-- The row that a pixel of the window belongs to is the only one drawn at it. -/
theorem rowLayer_of_other {n : Nat} {pieces : List (List UInt8 × BitVec 32)} {i j : Nat}
    {p : Point} (hfits : RowFits termBg n pieces) (hn : 8 * n < 2 ^ 32) (hi : i < 2 ^ 28)
    (hj : j < 2 ^ 28) (hne : j ≠ i)
    (hp : (p.2 - (w.y + 30 + 12 * BitVec.ofNat 32 i)).toNat < 8) :
    rowLayer w (j, pieces) p = none := by
  have hlen := hfits.length_le
  refine Option.not_isSome_iff_eq_none.1 fun hsome => ?_
  have hrow := (rowLayers_isSome hfits.newline_not_mem (by omega) hsome).2
  exact absurd hrow (Nat.not_lt.2 (rows_disjoint hi hj hne hp))

/-- The rows are drawn inside the background, so nothing of them is left on the screen by the next
redraw. -/
theorem rowLayer_inside {n : Nat} {pieces : List (List UInt8 × BitVec 32)} {i : Nat} {p : Point}
    (hw : RowsFit w) (hfits : RowFits termBg n pieces) (hn : 16 + 8 * n ≤ w.w.toNat)
    (hi : i ≤ maxVisible w.h) (hp : (rowLayer w (i, pieces) p).isSome) :
    InRect (w.x + 6) (w.y + 26) (w.w - 12) (w.h - 32) p := by
  have hlen := hfits.length_le
  have hheight := hw.height
  have hbottom := hw.bottom
  rw [maxVisible_eq hw] at hi
  obtain ⟨hcol, hrow⟩ := rowLayers_isSome hfits.newline_not_mem (by omega) hp
  unfold InRect
  generalize p.1 = a at *
  generalize p.2 = b at *
  dsimp only at hcol hrow
  constructor
  · bv_omega
  · bv_omega

/-- The window is on the screen, and a row of it has `n` cells. -/
structure OnScreen (s : Fb) (w : Window τ δ) (n : Nat) : Prop extends RowsFit w where
  rightOn : w.x.toNat + w.w.toNat ≤ s.fbWidth.toNat
  bottomOn : w.y.toNat + w.h.toNat ≤ s.fbHeight.toNat
  cells : 16 + 8 * n ≤ w.w.toNat

/-- The strings of a redraw are those of its rows: the calls of `fb_print` put down one layer for
each line, and one for the prompt. -/
theorem Drawn.draws {d : Drawn} {n : Nat} (hg : s.Geometry) (hon : OnScreen s w n)
    (hbackground : d.background = .rect (w.x + 6) (w.y + 26) (w.w - 12) (w.h - 32) termBg)
    (hrows : d.rows = lines.mapIdx (rowOf w))
    (hprompt : d.prompt = paintPrompt w t (w.y + 30 + 12 * BitVec.ofNat 32 d.rows.length))
    (hfits : ∀ pieces ∈ screenRows t lines, RowFits termBg n pieces) :
    s.Draws (overlay (fill (InRect (w.x + 6) (w.y + 26) (w.w - 12) (w.h - 32)) termBg)
      (stack (((screenRows t lines).mapIdx Prod.mk).map (rowLayer w)))) fun t => d.draw t := by
  have hstride := hg.stride
  have hheight := hon.height
  have hright := hon.rightOn
  have hbottom := hon.bottomOn
  have hcells := hon.cells
  have hshort : ∀ pieces ∈ screenRows t lines, ∀ piece ∈ pieces, piece.1.length < 2 ^ 28 := by
    intro pieces hpieces piece hpiece
    have hlen := length_le_rowText piece hpiece
    have hle := (hfits pieces hpieces).length_le
    omega
  have hlines : ∀ line ∈ lines, strlen line.text < 2 ^ 28 := fun line hline =>
    hshort _ (List.mem_append_left _ (List.mem_map_of_mem hline)) _ List.mem_cons_self
  have hdir : strlen t.currentDir < 2 ^ 28 := hshort (promptPieces t)
    (List.mem_append_right _ List.mem_cons_self) _ (.tail _ (.head _))
  have hcmd : strlen t.cmdBuf < 2 ^ 28 := hshort (promptPieces t)
    (List.mem_append_right _ List.mem_cons_self) _ (.tail _ (.tail _ (.tail _ (.head _))))
  have hprint : ∀ {text : List UInt8} {x y fg bg : BitVec 32}, strlen text < 2 ^ 28 →
      s.Draws (Paint.layer (.print text x y fg bg)) (Paint.draw (.print text x y fg bg)) :=
    fun h => fbPrint_draws hg h _ _ _ _
  rw [← screenRows_layers hrows hprompt]
  have hdraws : s.Draws (stack (d.paints.map Paint.layer)) fun t => d.draw t := by
    refine .foldl fun p hp => ?_
    rcases List.mem_cons.1 hp with rfl | hp
    · rw [hbackground]
      exact Rect.Flat.draws (r := ⟨_, _, _, _, _⟩) ⟨by bv_omega, by bv_omega⟩ hg
    · rcases List.mem_append.1 hp with hp | hp
      · rw [hrows] at hp
        obtain ⟨i, hi, rfl⟩ := List.exists_of_mem_mapIdx hp
        exact hprint (hlines _ (List.getElem_mem hi))
      · rw [hprompt, paintPrompt] at hp
        simp only [List.mem_cons, List.not_mem_nil, or_false] at hp
        rcases hp with rfl | rfl | rfl | rfl
        · exact hprint (by decide)
        · exact hprint hdir
        · exact hprint (by decide)
        · exact hprint hcmd
  rw [Drawn.paints, List.map_cons, stack_cons, hbackground] at hdraws
  exact hdraws

/-- The rows are at most one more than there is room for, and all of them are on the screen. -/
theorem OnScreen.row_lt {n m : Nat} (hon : OnScreen s w n) (hg : s.Geometry)
    (hm : m ≤ maxVisible w.h) : w.y.toNat + 30 + 12 * m + 14 ≤ w.y.toNat + w.h.toNat ∧
      m < 2 ^ 28 ∧ (w.x + 10).toNat = w.x.toNat + 10 ∧
      (w.y + 30 + 12 * BitVec.ofNat 32 m).toNat = w.y.toNat + 30 + 12 * m := by
  have hheight := hon.height
  have hright := hon.rightOn
  have hbottom := hon.bottomOn
  have hcells := hon.cells
  have hscreen := s.fbHeight.isLt
  have hfits := hg.fits
  have hstride := hg.stride
  rw [maxVisible_eq hon.toRowsFit] at hm
  have hsmall : w.h.toNat < 2 ^ 28 := by
    have hwide : 16 ≤ s.fbPitch.toNat / 4 := by omega
    have hmul := Nat.mul_le_mul_left s.fbHeight.toNat hwide
    omega
  have hrow : (12 * BitVec.ofNat 32 m).toNat = 12 * m := by
    rw [BitVec.toNat_mul, BitVec.toNat_ofNat]
    change 12 * (m % 2 ^ 32) % 2 ^ 32 = 12 * m
    omega
  refine ⟨by omega, by omega, by bv_omega, ?_⟩
  generalize 12 * BitVec.ofNat 32 m = a at *
  bv_omega

/-- The pixels of the background: those between the frame's sides, below its title bar. -/
theorem OnScreen.background_iff {n px py : Nat} (hon : OnScreen s w n) (hv : s.Visible px py) :
    InRect (w.x + 6) (w.y + 26) (w.w - 12) (w.h - 32) (pointOf px py) ↔
      (w.x.toNat + 6 ≤ px ∧ px + 6 < w.x.toNat + w.w.toNat) ∧
        w.y.toNat + 26 ≤ py ∧ py + 6 < w.y.toNat + w.h.toNat := by
  have hheight := hon.height
  have hright := hon.rightOn
  have hbottom := hon.bottomOn
  have hcells := hon.cells
  have hpx := hv.1
  have hpy := hv.2
  have hx : (w.x + 6).toNat = w.x.toNat + 6 := by bv_omega
  have hy : (w.y + 26).toNat = w.y.toNat + 26 := by bv_omega
  have hw : (w.w - 12).toNat = w.w.toNat - 12 := by bv_omega
  have hh : (w.h - 32).toNat = w.h.toNat - 32 := by bv_omega
  rw [inRect_pointOf (by omega) (by omega) (by omega) (by omega), hx, hy, hw, hh]
  omega

/-- There is one row more than there are lines, for the prompt. -/
theorem length_screenRows (t : Terminal) (lines : List HistoryLine) :
    (screenRows t lines).length = lines.length + 1 := by
  rw [screenRows, List.length_append, List.length_map, List.length_singleton]

/-- A row of the window reads as the strings that are drawn in it and in no other row. -/
theorem OnScreen.readRow_eq {d : Drawn} {n m : Nat} {pieces : List (List UInt8 × BitVec 32)}
    {a : Layer Point (BitVec 32)} (hon : OnScreen s w n) (hg : s.Geometry)
    (hdraws : s.Draws (overlay (fill (InRect (w.x + 6) (w.y + 26) (w.w - 12) (w.h - 32)) termBg) a)
      fun t => d.draw t) (hm : m ≤ maxVisible w.h) (hfit : RowFits termBg n pieces)
    (ha : ∀ p : Point, (p.2 - (w.y + 30 + 12 * BitVec.ofNat 32 m)).toNat < 8 →
      a p = rowLayer w (m, pieces) p) :
    readRow (d.draw s) (w.x.toNat + 10) (w.y.toNat + 30 + 12 * m) termBg n =
      (rowText pieces ++ List.replicate (n - (rowText pieces).length) 32).map some := by
  have hcells := hon.cells
  have hright := hon.rightOn
  have hbottom := hon.bottomOn
  have hwidth := s.fbWidth.isLt
  have hheight := s.fbHeight.isLt
  obtain ⟨hlow, hsmall, hx, hy⟩ := hon.row_lt hg hm
  rw [← hx, ← hy]
  refine hfit.readRow_eq (by omega) (by omega) fun k hk row hrow col hcol => ?_
  have hv : s.Visible ((w.x + 10).toNat + 8 * k + col)
      ((w.y + 30 + 12 * BitVec.ofNat 32 m).toNat + row) := ⟨by omega, by omega⟩
  have hinside := (hon.background_iff hv).2 (by omega)
  have hband : (BitVec.ofNat 32 ((w.y + 30 + 12 * BitVec.ofNat 32 m).toNat + row) -
      (w.y + 30 + 12 * BitVec.ofNat 32 m)).toNat < 8 := by
    generalize w.y + 30 + 12 * BitVec.ofNat 32 m = b at *
    bv_omega
  rw [hdraws.colour hv, overlay, ha _ hband]
  unfold fill rowLayer
  rw [if_pos hinside]
  cases stack (rowLayers (w.y + 30 + 12 * BitVec.ofNat 32 m) termBg (w.x + 10) pieces) (pointOf _ _)
    with
  | none => rfl
  | some c => rfl

/-- In the pixels of the row `m` the rows of a window show what that row shows, or nothing if there
is no such row: the others lie above and below it. -/
theorem OnScreen.rows_at {rows : List (List (List UInt8 × BitVec 32))} {n m : Nat}
    (hon : OnScreen s w n) (hg : s.Geometry) (hcount : rows.length ≤ maxVisible w.h + 1)
    (hfits : ∀ pieces ∈ rows, RowFits termBg n pieces) (hm : m ≤ maxVisible w.h) {p : Point}
    (hp : (p.2 - (w.y + 30 + 12 * BitVec.ofNat 32 m)).toNat < 8) :
    stack ((rows.mapIdx Prod.mk).map (rowLayer w)) p = rowLayer w (m, rows.getD m []) p := by
  have hcells := hon.cells
  have hright := hon.rightOn
  have hwidth := s.fbWidth.isLt
  have hother : ∀ j e, (rows.mapIdx Prod.mk)[j]? = some e → j ≠ m → rowLayer w e p = none := by
    intro j e hj hne
    rw [List.getElem?_mapIdx] at hj
    obtain ⟨pieces, hpieces, rfl⟩ := Option.map_eq_some_iff.1 hj
    have hlt := (List.getElem?_eq_some_iff.1 hpieces).1
    exact rowLayer_of_other (hfits pieces (List.mem_of_getElem? hpieces)) (by omega)
      (hon.row_lt hg hm).2.1 (hon.row_lt hg (by omega)).2.1 hne hp
  rw [List.getD_eq_getElem?_getD]
  cases hrow : rows[m]? with
  | some pieces =>
      have hm' : (rows.mapIdx Prod.mk)[m]? = some (m, pieces) := by
        rw [List.getElem?_mapIdx, hrow]
        rfl
      exact stack_map_of_only hm' hother
  | none =>
      refine stack_eq_none.2 fun a ha => ?_
      obtain ⟨e, he, rfl⟩ := List.mem_map.1 ha
      obtain ⟨j, hj⟩ := List.mem_iff_getElem?.1 he
      refine hother j e hj ?_
      rintro rfl
      rw [List.getElem?_mapIdx, hrow] at hj
      cases hj

end

/-- After `terminal_draw` on a window that is on the screen, whatever this showed before, every row
of the window reads as the line of the history that the offset asks for, or as the prompt and the
line that is being typed below the last one, and blank behind the text; the rows below the prompt
are blank; and no pixel outside the terminal's background has changed. The lines that are shown and
the prompt have to be printable and to fit in the `n` cells of a row. -/
theorem terminal_screen_reads {τ δ : Type} {s : Fb} (hg : s.Geometry) {w : Window τ δ} {n : Nat}
    (hon : OnScreen s w n) (t : Terminal) (mouseScrollDelta : BitVec 8) (active : Bool) {d : Drawn}
    (hd : d = terminalDraw t mouseScrollDelta active w) {lines : List HistoryLine}
    (hlines : lines = shownLines t.termHistory (maxVisible w.h)
      (maxScroll d.term w.h - d.term.termScrollOffset))
    (hfits : ∀ pieces ∈ screenRows t lines, RowFits termBg n pieces) :
    (∀ m pieces, (screenRows t lines)[m]? = some pieces →
      readRow (d.draw s) (w.x.toNat + 10) (w.y.toNat + 30 + 12 * m) termBg n =
        (rowText pieces ++ List.replicate (n - (rowText pieces).length) 32).map some) ∧
    (∀ m, (screenRows t lines).length ≤ m → m ≤ maxVisible w.h →
      readRow (d.draw s) (w.x.toNat + 10) (w.y.toNat + 30 + 12 * m) termBg n =
        List.replicate n (some 32)) ∧
    ∀ px py, s.Visible px py →
      ¬InRect (w.x + 6) (w.y + 26) (w.w - 12) (w.h - 32) (pointOf px py) →
      (d.draw s).colour px py = s.colour px py := by
  have hshows := terminalDraw_shows hon.toRowsFit t mouseScrollDelta active
  obtain ⟨hbackground, hprompt⟩ := terminalDraw_calls t mouseScrollDelta active w
  rw [← hd] at hshows hbackground hprompt
  have hrows := hshows.rows
  rw [← hlines] at hrows
  have hcount : (screenRows t lines).length ≤ maxVisible w.h + 1 := by
    have hle := hshows.length_rows
    rw [hrows, List.length_mapIdx] at hle
    rw [length_screenRows]
    omega
  have hdraws := Drawn.draws hg hon hbackground hrows hprompt hfits
  have hlt : ∀ {i pieces}, (screenRows t lines)[i]? = some pieces → i ≤ maxVisible w.h :=
    fun hi => Nat.le_of_lt_succ ((List.getElem?_eq_some_iff.1 hi).1.trans_le hcount)
  refine ⟨fun m pieces hm => ?_, fun m hlast hm => ?_, fun px py hv hout => ?_⟩
  · refine hon.readRow_eq hg hdraws (hlt hm) (hfits pieces (List.mem_of_getElem? hm)) fun p hp => ?_
    rw [hon.rows_at hg hcount hfits (hlt hm) hp, List.getD_eq_getElem?_getD, hm, Option.getD_some]
  · have hempty : RowFits termBg n [] :=
      ⟨fun _ h => absurd h List.not_mem_nil, fun _ h => absurd h List.not_mem_nil, Nat.zero_le n⟩
    have hread := hon.readRow_eq hg hdraws hm hempty fun p hp => by
      rw [hon.rows_at hg hcount hfits hm hp, List.getD_eq_getElem?_getD,
        List.getElem?_eq_none hlast, Option.getD_none]
    rw [hread]
    exact List.map_replicate
  · rw [hdraws.colour hv, overlay, stack_eq_none.2, Option.none_or]
    · unfold fill
      rw [if_neg hout]
      rfl
    · intro a ha
      obtain ⟨e, he, rfl⟩ := List.mem_map.1 ha
      obtain ⟨i, hi⟩ := List.mem_iff_getElem?.1 he
      rw [List.getElem?_mapIdx] at hi
      obtain ⟨pieces, hpieces, rfl⟩ := Option.map_eq_some_iff.1 hi
      exact Option.not_isSome_iff_eq_none.1 fun hsome => hout (rowLayer_inside hon.toRowsFit
        (hfits pieces (List.mem_of_getElem? hpieces)) hon.cells (hlt hpieces) hsome)

/-- A terminal with a line and a command that is being typed. -/
def typingTerminal : Terminal :=
  { Terminal.static with
    termHistory := [⟨str "Welcome", 0xFFFFFF⟩]
    currentDir := str "/root"
    cmdBuf := str "ls" }

/-- Its window on a screen of 1024 by 768, with one line and a prompt: both are read back. -/
theorem terminal_screen_reads_prompt :
    readRow ((terminalDraw typingTerminal 0 true launchedWindow).draw (screenOf 1024 768)) 210 122
      termBg 91 = (str "root@onken:/root$ ls" ++ List.replicate 71 32).map some := by
  have hfits : ∀ pieces ∈ screenRows typingTerminal [⟨str "Welcome", 0xFFFFFF⟩],
      RowFits termBg 91 pieces := by
    intro pieces hpieces
    simp only [screenRows, List.map_cons, List.map_nil, List.cons_append, List.nil_append,
      List.mem_cons, List.not_mem_nil, or_false] at hpieces
    have hchars : ∀ pieces : List (List UInt8 × BitVec 32),
        pieces.all (fun piece => piece.1.all fun c => c ∈ printable) →
        ∀ piece ∈ pieces, ∀ c ∈ piece.1, c ∈ printable :=
      fun pieces h piece hpiece c hc => of_decide_eq_true
        (List.all_eq_true.1 (List.all_eq_true.1 h piece hpiece) c hc)
    rcases hpieces with rfl | rfl
    · exact ⟨hchars _ (by decide), by decide, by decide⟩
    · exact ⟨hchars _ (by decide), by decide, by decide⟩
  exact (terminal_screen_reads (s := screenOf 1024 768) ⟨by decide, by decide⟩
    (w := launchedWindow) (n := 91)
    ⟨⟨by decide, by decide⟩, by decide, by decide, by decide⟩ typingTerminal 0 true rfl rfl
    hfits).1 1 (promptPieces typingTerminal) rfl

end OnkenOS
