import OnkenOS.Apps.YanoSave
import OnkenOS.Gui.Frame

/-!
# The editor on the screen

`yano_draw`: the bar with the name of the file, the text in rows of cells, the cursor behind it and
the bar of the shortcuts. After any keys the rows above that bar read as the text that was typed,
wrapped at the width of the window, with the cursor behind its last character
(`editor_screen_reads`).
-/

namespace OnkenOS

open Words Layers TextGrid Machine Capped

/-! ## `yano_draw` -/

/-- `header`. -/
def Yano.header (y : Yano) : List UInt8 :=
  (xsprintf (str "  YANO Editor  |  File: %s  |  %d bytes")
    [.str y.currentFilename, .int (BitVec.ofNat 32 y.len)]).getD []

/-- The background of the editor. -/
abbrev editorBg : BitVec 32 := 0x111111

section
variable {τ δ : Type}

/-- `max_y`. -/
def maxY (w : Window τ δ) : Int := w.h.toInt - 72

/-- The loop over the text, at `cx` and `cy`, and where it ends. -/
def contentLoop (w : Window τ δ) : List UInt8 → Nat → Nat → Fb → Fb × Nat × Nat
  | [], cx, cy, s => (s, cx, cy)
  | c :: text, cx, cy, s =>
      if c = 10 then contentLoop w text 0 (cy + 14) s
      else
        let s :=
          if cy < maxY w then
            fbPrint s [c, 0] (w.x + 12 + BitVec.ofNat 32 cx) (w.y + 48 + BitVec.ofNat 32 cy)
              0xFFFFFF editorBg
          else s
        if ((cx + 8 : Nat) : Int) > w.w.toInt - 30 then contentLoop w text 0 (cy + 14) s
        else contentLoop w text (cx + 8) cy s

/-- `yano_draw`. -/
def yanoDraw (y : Yano) (w : Window τ δ) (s : Fb) : Fb :=
  let s := fbRect s (w.x + 6) (w.y + 26) (w.w - 12) (w.h - 32) editorBg
  let s := fbRect s (w.x + 6) (w.y + 26) (w.w - 12) 16 0xDDDDDD
  let s := fbPrint s y.header (w.x + 12) (w.y + 30) 0x000000 0xDDDDDD
  let (s, cx, cy) := contentLoop w y.text 0 0 s
  let s :=
    if cy < maxY w then
      fbRect s (w.x + 12 + BitVec.ofNat 32 cx) (w.y + 48 + BitVec.ofNat 32 cy) 8 12 0xFFFFFF
    else s
  let s := fbRect s (w.x + 6) (w.y + w.h - 36) (w.w - 12) 30 0xDDDDDD
  let s := fbPrint s (str "^S Save  ^X Exit  ^O WriteOut  Backspace=Delete") (w.x + 12)
    (w.y + w.h - 32) 0x000000 0xDDDDDD
  fbPrint s (str "Type normally. Changes auto-tracked.") (w.x + 12) (w.y + w.h - 20) 0x555555
    0xDDDDDD

/-! ## Rows -/

/-- The number of cells in a row. -/
def columns (w : Window τ δ) : Nat := (w.w.toNat - 30) / 8 + 1

/-- The number of rows that are drawn. -/
def drawnRows (w : Window τ δ) : Nat := (w.h.toNat - 72 + 13) / 14

/-- The rows of a text in the window. -/
def editorRows (w : Window τ δ) (text : List UInt8) : List (List UInt8) :=
  rows 10 (columns w) 0 text

/-- The window is on the screen, and has room for the two bars and a row between them. -/
structure EditorOnScreen (s : Fb) (w : Window τ δ) : Prop where
  right : w.x.toNat + w.w.toNat ≤ s.fbWidth.toNat
  bottom : w.y.toNat + w.h.toNat ≤ s.fbHeight.toNat
  width : 30 ≤ w.w.toNat
  height : 92 ≤ w.h.toNat

section
variable {w : Window τ δ} {s : Fb} {text : List UInt8} {col row : Nat}

/-- The sides of a window on a screen are small. -/
theorem EditorOnScreen.small (hon : EditorOnScreen s w) (hg : s.Geometry) :
    w.x.toNat + w.w.toNat < 2 ^ 30 ∧ w.y.toNat + w.h.toNat < 2 ^ 30 := by
  obtain ⟨hright, hbottom, hwidth, hheight⟩ := hon
  have hpitch := s.fbPitch.isLt
  have hstride := hg.stride
  have hmul := Nat.mul_le_mul_left s.fbHeight.toNat (show 4 ≤ s.fbPitch.toNat / 4 by omega)
  have hfits := hg.fits
  constructor
  · omega
  · omega

/-- The test of the source against the width wraps the line at the last cell of a row. -/
theorem wraps_iff (hw : 30 ≤ w.w.toNat) (hsmall : w.w.toNat < 2 ^ 30) (hcol : col < columns w) :
    ((8 * col + 8 : Nat) : Int) > w.w.toInt - 30 ↔ col + 1 = columns w := by
  have hint : w.w.toInt = w.w.toNat := BitVec.toInt_eq_toNat_of_lt (by omega)
  unfold columns at hcol ⊢
  rw [hint]
  omega

/-- The test against the height is met by the rows that are drawn. -/
theorem drawn_iff (hh : 92 ≤ w.h.toNat) (hsmall : w.h.toNat < 2 ^ 30) :
    ((14 * row : Nat) : Int) < maxY w ↔ row < drawnRows w := by
  have hint : w.h.toInt = w.h.toNat := BitVec.toInt_eq_toNat_of_lt (by omega)
  unfold maxY drawnRows
  rw [hint]
  omega

/-- A string of one character is its glyph, unless it is a newline. -/
theorem textLayer_char {c : UInt8} (hc : c ≠ 10) (x y fg bg : BitVec 32) :
    textLayer [c] x y fg bg = glyphLayer x y fg bg c := by
  have hcells : cells 10 0 0 0 [c] = [(0, 0, c)] := by
    unfold cells
    rw [if_neg hc]
    rfl
  have hone : [c].length < 2 ^ 28 := (by decide : 1 < 2 ^ 28)
  have hx : x + BitVec.ofNat 32 (8 * 0) = x := BitVec.add_zero x
  have hy : y + BitVec.ofNat 32 (10 * 0) = y := BitVec.add_zero y
  rw [← stack_cells hone, hcells, List.map_singleton, stack_cons, stack_nil, overlay_none,
    cellLayer]
  dsimp only
  rw [hx, hy]

/-- The cells of the rows that are drawn. -/
def drawnCells (w : Window τ δ) (col row : Nat) (text : List UInt8) : List (Nat × Nat × UInt8) :=
  (cells 10 (columns w) col row text).filter fun e => e.2.1 < drawnRows w

/-- A character is drawn in its cell, if the row is one of those that are drawn. -/
theorem fbPrint_cell_draws (hg : s.Geometry) (hon : EditorOnScreen s w) {c : UInt8} (hc : c ≠ 10)
    (hc0 : c ≠ 0) (col row : Nat) :
    s.Draws (stack ((if row < drawnRows w then [(col, row, c)] else []).map
        (cellLayer 14 (w.x + 12) (w.y + 48) 0xFFFFFF editorBg)))
      (fun t => if ((14 * row : Nat) : Int) < maxY w then
        fbPrint t [c, 0] (w.x + 12 + BitVec.ofNat 32 (8 * col))
          (w.y + 48 + BitVec.ofNat 32 (14 * row)) 0xFFFFFF editorBg
        else t) := by
  obtain ⟨hsmallx, hsmally⟩ := hon.small hg
  by_cases hrow : row < drawnRows w
  · have hmax := (drawn_iff hon.height (by omega)).2 hrow
    have hcstr : cstr [c, 0] = [c] := by
      rw [cstr_cons, if_neg hc0, cstr_cons, if_pos rfl]
    have hshort : strlen [c, 0] < 2 ^ 28 := by
      rw [strlen, hcstr, List.length_singleton]
      decide
    have hprint := fbPrint_draws hg hshort (w.x + 12 + BitVec.ofNat 32 (8 * col))
      (w.y + 48 + BitVec.ofNat 32 (14 * row)) 0xFFFFFF editorBg
    rw [hcstr, textLayer_char hc] at hprint
    simp only [if_pos hrow, if_pos hmax, List.map_cons, List.map_nil, stack_cons, stack_nil,
      overlay_none]
    exact hprint
  · have hmax := mt (drawn_iff hon.height (by omega)).1 hrow
    simp only [if_neg hrow, if_neg hmax, List.map_nil, stack_nil]
    exact .id s

/-- Behind a character the loop goes on in the next cell, which is in the same row or, if that is
full, in the one below. -/
theorem contentLoop_next (hon : EditorOnScreen s w) (hsmall : w.w.toNat < 2 ^ 30) {c : UInt8}
    (hc : c ≠ 10) (hcol : col < columns w) (row : Nat) (text : List UInt8) :
    ∃ col' row', col' < columns w ∧
      (∀ t, contentLoop w (c :: text) (8 * col) (14 * row) t =
        contentLoop w text (8 * col') (14 * row') (if ((14 * row : Nat) : Int) < maxY w then
          fbPrint t [c, 0] (w.x + 12 + BitVec.ofNat 32 (8 * col))
            (w.y + 48 + BitVec.ofNat 32 (14 * row)) 0xFFFFFF editorBg
          else t)) ∧
      drawnCells w col row (c :: text) =
        (if row < drawnRows w then [(col, row, c)] else []) ++ drawnCells w col' row' text ∧
      cursor 10 (columns w) col row (c :: text) = cursor 10 (columns w) col' row' text := by
  have hfilter : ∀ rest : List (Nat × Nat × UInt8),
      (((col, row, c) :: rest).filter fun e => e.2.1 < drawnRows w) =
        (if row < drawnRows w then [(col, row, c)] else []) ++
          rest.filter fun e => e.2.1 < drawnRows w := by
    intro rest
    rw [List.filter_cons]
    split
    · next h => rw [if_pos (by simpa using h), List.singleton_append]
    · next h => rw [if_neg (by simpa using h), List.nil_append]
  unfold drawnCells
  by_cases hfull : col + 1 = columns w
  · refine ⟨0, row + 1, Nat.zero_lt_of_lt hcol, fun t => ?_, ?_, ?_⟩
    · rw [contentLoop, if_neg hc, if_pos ((wraps_iff hon.width hsmall hcol).2 hfull)]
      rfl
    · rw [cells, if_neg hc, if_pos hfull, hfilter]
    · rw [cursor, if_pos (.inr hfull)]
  · refine ⟨col + 1, row, by omega, fun t => ?_, ?_, ?_⟩
    · rw [contentLoop, if_neg hc, if_neg (mt (wraps_iff hon.width hsmall hcol).1 hfull)]
      rfl
    · rw [cells, if_neg hc, if_neg hfull, hfilter]
    · rw [cursor, if_neg (by rintro (h | h) <;> contradiction)]

/-- The loop draws the characters in their cells, and ends behind the last one. -/
theorem contentLoop_draws (row : Nat) (hg : s.Geometry) (hon : EditorOnScreen s w)
    (hzero : 0 ∉ text) (hcol : col < columns w) :
    s.Draws (stack ((drawnCells w col row text).map
        (cellLayer 14 (w.x + 12) (w.y + 48) 0xFFFFFF editorBg)))
      (fun t => (contentLoop w text (8 * col) (14 * row) t).1) ∧
    ∀ t, (contentLoop w text (8 * col) (14 * row) t).2 =
      (8 * (cursor 10 (columns w) col row text).1,
        14 * (cursor 10 (columns w) col row text).2) := by
  obtain ⟨hsmallx, hsmally⟩ := hon.small hg
  induction text generalizing col row with
  | nil => exact ⟨.id s, fun _ => rfl⟩
  | cons c text ih =>
      rw [List.mem_cons, not_or] at hzero
      obtain ⟨hc0, hrest⟩ := hzero
      by_cases hc : c = 10
      · obtain ⟨hdraws, hend⟩ := ih (row + 1) hrest (Nat.zero_lt_of_lt hcol)
        have hcells : drawnCells w col row (c :: text) = drawnCells w 0 (row + 1) text := by
          unfold drawnCells
          rw [cells, if_pos hc]
        have hcursor : cursor 10 (columns w) col row (c :: text) =
            cursor 10 (columns w) 0 (row + 1) text := by
          rw [cursor, if_pos (.inl hc)]
        have hloop : ∀ t, contentLoop w (c :: text) (8 * col) (14 * row) t =
            contentLoop w text (8 * 0) (14 * (row + 1)) t := fun t => if_pos hc
        simp only [hloop, hcells, hcursor]
        exact ⟨hdraws, hend⟩
      · obtain ⟨col', row', hcol', hloop, hcells, hcursor⟩ :=
          contentLoop_next hon (by omega) hc hcol row text
        obtain ⟨hdraws, hend⟩ := ih row' hrest hcol'
        simp only [hloop, hcells, hcursor, List.map_append, stack_append]
        exact ⟨(fbPrint_cell_draws hg hon hc (Ne.symm hc0) col row).comp hdraws, fun t => hend _⟩

/-- The rows that are drawn. -/
def contentLayer (w : Window τ δ) (text : List UInt8) : Layer Point (BitVec 32) :=
  linesLayer 14 ((editorRows w text).take (drawnRows w)) (w.x + 12) (w.y + 48) 0xFFFFFF editorBg

/-- The cells do not overlap, so one above the other they show the rows. -/
theorem stack_drawnCells (hg : s.Geometry) (hon : EditorOnScreen s w) (text : List UInt8) :
    stack ((drawnCells w 0 0 text).map (cellLayer 14 (w.x + 12) (w.y + 48) 0xFFFFFF editorBg)) =
      contentLayer w text := by
  obtain ⟨hsmallx, hsmally⟩ := hon.small hg
  have hmem : ∀ k l c, (k, l, c) ∈ drawnCells w 0 0 text ↔
      l < drawnRows w ∧ charAt (editorRows w text) k l = some c := by
    intro k l c
    unfold drawnCells editorRows
    rw [List.mem_filter, mem_cells, ite_self, decide_eq_true_iff, and_comm]
    simp
  refine stack_lines (by decide) (fun k l c => ?_) (fun k l c hcell => ?_) _ _ _ _
  · rw [hmem, charAt, List.getD_eq_getElem?_getD, List.getD_eq_getElem?_getD, List.getElem?_take]
    split
    · next hl => exact and_iff_right hl
    · next hl => exact iff_of_false (fun h => hl h.1) (by simp)
  · obtain ⟨hl, hc⟩ := (hmem k l c).1 hcell
    unfold drawnRows at hl
    refine ⟨?_, by omega⟩
    unfold charAt at hc
    rw [List.getD_eq_getElem?_getD] at hc
    cases hline : (editorRows w text)[l]? with
    | none =>
        rw [hline] at hc
        cases hc
    | some line =>
        rw [hline] at hc
        have hk := (List.getElem?_eq_some_iff.1 hc).1
        have hle := length_row_le (Nat.succ_pos _) hline
        rw [ite_self, Nat.zero_add] at hle
        have hwide : line.length ≤ (w.w.toNat - 30) / 8 + 1 := hle
        dsimp only [Option.getD_some] at hk
        omega

/-- The block behind the text. -/
def cursorLayer (w : Window τ δ) (text : List UInt8) : Layer Point (BitVec 32) :=
  let place := cursor 10 (columns w) 0 0 text
  if place.2 < drawnRows w then
    fill (InRect (w.x + 12 + BitVec.ofNat 32 (8 * place.1))
      (w.y + 48 + BitVec.ofNat 32 (14 * place.2)) 8 12) 0xFFFFFF
  else fun _ => none

/-- The colours of the editor. -/
def editorLayers (y : Yano) (w : Window τ δ) : List (Layer Point (BitVec 32)) :=
  [fill (InRect (w.x + 6) (w.y + 26) (w.w - 12) (w.h - 32)) editorBg,
    fill (InRect (w.x + 6) (w.y + 26) (w.w - 12) 16) 0xDDDDDD,
    textLayer (cstr y.header) (w.x + 12) (w.y + 30) 0x000000 0xDDDDDD,
    contentLayer w y.text,
    cursorLayer w y.text,
    fill (InRect (w.x + 6) (w.y + w.h - 36) (w.w - 12) 30) 0xDDDDDD,
    textLayer (str "^S Save  ^X Exit  ^O WriteOut  Backspace=Delete") (w.x + 12) (w.y + w.h - 32)
      0x000000 0xDDDDDD,
    textLayer (str "Type normally. Changes auto-tracked.") (w.x + 12) (w.y + w.h - 20) 0x555555
      0xDDDDDD]

/-- `yano_draw` draws its layers: the two bars, the text and the cursor. -/
theorem yanoDraw_draws (hg : s.Geometry) (hon : EditorOnScreen s w) {y : Yano} (hzero : 0 ∉ y.text)
    (hheader : strlen y.header < 2 ^ 28) :
    s.Draws (stack (editorLayers y w)) fun t => yanoDraw y w t := by
  obtain ⟨hsmallx, hsmally⟩ := hon.small hg
  have hwidth := hon.width
  have hheight := hon.height
  have hrect : ∀ {x y w h c : BitVec 32}, x.toNat + w.toNat < 2 ^ 32 →
      y.toNat + h.toNat < 2 ^ 32 →
      s.Draws (fill (InRect x y w h) c) fun t => fbRect t x y w h c :=
    fun hx hy => Rect.Flat.draws (r := ⟨_, _, _, _, _⟩) ⟨hx, hy⟩ hg
  have hprint : ∀ {text : List UInt8} {x y fg bg : BitVec 32}, text.length < 100 → 0 ∉ text →
      s.Draws (textLayer text x y fg bg) fun t => fbPrint t text x y fg bg := by
    intro text x y fg bg hlen hzero
    have hcstr := cstr_of_zero_not_mem hzero
    have hshort : strlen text < 2 ^ 28 := by
      rw [strlen, hcstr]
      omega
    have hdraws := fbPrint_draws hg hshort x y fg bg
    rwa [hcstr] at hdraws
  have hpos : 0 < columns w := Nat.succ_pos _
  obtain ⟨hcontent, hend⟩ := contentLoop_draws 0 hg hon hzero hpos
  rw [stack_drawnCells hg hon] at hcontent
  have hcursor : s.Draws (cursorLayer w y.text) fun t =>
      if ((14 * (cursor 10 (columns w) 0 0 y.text).2 : Nat) : Int) < maxY w then
        fbRect t (w.x + 12 + BitVec.ofNat 32 (8 * (cursor 10 (columns w) 0 0 y.text).1))
          (w.y + 48 + BitVec.ofNat 32 (14 * (cursor 10 (columns w) 0 0 y.text).2)) 8 12 0xFFFFFF
      else t := by
    have hcol : (cursor 10 (columns w) 0 0 y.text).1 < columns w := cursor_lt hpos
    unfold cursorLayer
    dsimp only
    generalize cursor 10 (columns w) 0 0 y.text = place at *
    by_cases hrow : place.2 < drawnRows w
    · have hmax := (drawn_iff hheight (by omega)).2 hrow
      simp only [if_pos hrow, if_pos hmax]
      unfold drawnRows at hrow
      unfold columns at hcol
      exact hrect (by bv_omega) (by bv_omega)
    · have hmax := mt (drawn_iff hheight (by omega)).1 hrow
      simp only [if_neg hrow, if_neg hmax]
      exact .id s
  have hloop : ∀ t, contentLoop w y.text 0 0 t = ((contentLoop w y.text 0 0 t).1,
      8 * (cursor 10 (columns w) 0 0 y.text).1, 14 * (cursor 10 (columns w) 0 0 y.text).2) :=
    fun t => Prod.ext rfl (hend t)
  have hdraw : (fun t => yanoDraw y w t) = fun t =>
      let place := cursor 10 (columns w) 0 0 y.text
      let t := fbRect t (w.x + 6) (w.y + 26) (w.w - 12) (w.h - 32) editorBg
      let t := fbRect t (w.x + 6) (w.y + 26) (w.w - 12) 16 0xDDDDDD
      let t := fbPrint t y.header (w.x + 12) (w.y + 30) 0x000000 0xDDDDDD
      let t := (contentLoop w y.text 0 0 t).1
      let t :=
        if ((14 * place.2 : Nat) : Int) < maxY w then
          fbRect t (w.x + 12 + BitVec.ofNat 32 (8 * place.1))
            (w.y + 48 + BitVec.ofNat 32 (14 * place.2)) 8 12 0xFFFFFF
        else t
      let t := fbRect t (w.x + 6) (w.y + w.h - 36) (w.w - 12) 30 0xDDDDDD
      let t := fbPrint t (str "^S Save  ^X Exit  ^O WriteOut  Backspace=Delete") (w.x + 12)
        (w.y + w.h - 32) 0x000000 0xDDDDDD
      fbPrint t (str "Type normally. Changes auto-tracked.") (w.x + 12) (w.y + w.h - 20) 0x555555
        0xDDDDDD := by
    funext t
    unfold yanoDraw
    dsimp only
    rw [hloop]
  rw [hdraw]
  unfold editorLayers
  dsimp only
  simp only [stack_cons, stack_nil, overlay_none]
  with_reducible
    refine (hrect ?_ ?_).comp ((hrect ?_ ?_).comp ((fbPrint_draws hg hheader _ _ _ _).comp
      (hcontent.comp (hcursor.comp ((hrect ?_ ?_).comp ((hprint ?_ ?_).comp (hprint ?_ ?_)))))))
  · bv_omega
  · bv_omega
  · bv_omega
  · bv_omega
  · bv_omega
  · bv_omega
  · decide
  · decide
  · decide
  · decide

/-! ## The header -/

/-- A digit is no line break. -/
theorem not_mem_numBuf (fuel val : Nat) : 10 ∉ numBuf fuel val := by
  induction fuel generalizing val with
  | zero => exact List.not_mem_nil
  | succ fuel ih =>
      unfold numBuf
      split
      · have hdigit : ∀ d < 10, (10 : UInt8) ≠ (d + 48).toUInt8 := by decide
        exact fun h => (List.mem_cons.1 h).elim (hdigit _ (Nat.mod_lt _ (by decide))) (ih _)
      · exact List.not_mem_nil

/-- So the number in the header does not break its line. -/
theorem not_mem_intBuf (v : BitVec 32) : 10 ∉ intBuf v := by
  unfold intBuf
  split
  · decide
  · exact not_mem_numBuf _ _

/-- The bar at the top is one line, if the name of the file is. -/
theorem header_line {y : Yano} (hname : 10 ∉ cstr y.currentFilename) :
    10 ∉ cstr y.header ∧ strlen y.header < 2 ^ 28 := by
  have hheader : y.header = str "  YANO Editor  |  File: " ++ (cstr y.currentFilename ++
      (str "  |  " ++ (convInt ⟨0, false, false⟩ (BitVec.ofNat 32 y.len) ++ str " bytes"))) := by
    rw [← convStr_plain]
    rfl
  have hint : 10 ∉ convInt ⟨0, false, false⟩ (BitVec.ofNat 32 y.len) := by
    unfold convInt
    simp only [List.mem_append, List.mem_reverse, not_or, Nat.zero_sub, List.replicate_zero]
    refine ⟨⟨?_, List.not_mem_nil⟩, not_mem_intBuf _⟩
    split
    · decide
    · exact List.not_mem_nil
  have hname' : (cstr y.currentFilename).length ≤ 31 := length_cstr_le y.filename_end
  have hdigits := length_convInt_le ⟨0, false, false⟩ (BitVec.ofNat 32 y.len)
  have hall : 10 ∉ y.header := by
    rw [hheader]
    simp only [List.mem_append, not_or]
    exact ⟨by decide, hname, by decide, hint, by decide⟩
  refine ⟨fun h => hall ((List.takeWhile_sublist _).subset h), ?_⟩
  refine Nat.lt_of_le_of_lt (strlen_le_length _) ?_
  have h1 : (str "  YANO Editor  |  File: ").length = 24 := rfl
  have h2 : (str "  |  ").length = 5 := rfl
  have h3 : (str " bytes").length = 6 := rfl
  have h4 : max (0 : Nat) 10 = 10 := rfl
  dsimp only at hdigits
  rw [hheader]
  simp only [List.length_append, h1, h2, h3]
  omega

/-! ## Reading -/

/-- No printable character fills its cell. -/
theorem exists_clear : ∀ c ∈ printable, ∃ row, row < 8 ∧ ∃ col, col < 8 ∧
    glyphBit c row col = false := by
  decide +kernel

/-- A block shows no character: every glyph leaves some pixel of its cell to the background. -/
theorem readCell_block {px py : Nat} {bg : BitVec 32}
    (h : ∀ row < 8, ∀ col < 8, s.colour (px + col) (py + row) ≠ bg) :
    readCell s px py bg = none := by
  unfold readCell
  rw [List.find?_eq_none]
  intro c hc hall
  obtain ⟨row, hrow, col, hcol, hbit⟩ := exists_clear c hc
  have hseen := List.all_eq_true.1 (List.all_eq_true.1 hall row (List.mem_range.2 hrow)) col
    (List.mem_range.2 hcol)
  rw [hbit, beq_iff_eq, bne_eq_false_iff_eq] at hseen
  exact h row hrow col hcol hseen

/-- A cell shows its character, or a blank if there is none. -/
theorem readCell_text {px py : Nat} {char : Option UInt8} (hchar : char.getD 32 ∈ printable)
    (h : ∀ i < 8, ∀ j < 8, s.colour (px + j) (py + i) =
      (char.map fun c => if glyphBit c i j then 0xFFFFFF else editorBg).getD editorBg) :
    readCell s px py editorBg = some (char.getD 32) := by
  refine readCell_eq hchar fun i hi j hj => ?_
  rw [h i hi j hj]
  cases char with
  | none =>
      have hblank : ∀ i < 8, ∀ j < 8, ¬glyphBit 32 i j = true := by decide
      exact iff_of_false (fun h => h rfl) (hblank i hi j hj)
  | some c =>
      rw [Option.map_some, Option.getD_some, Option.getD_some]
      split
      · next hbit => exact iff_of_true (by decide) hbit
      · next hbit => exact iff_of_false (fun h => h rfl) hbit

/-- What a cell of a row shows: its character or a blank, or behind the last row the cursor. -/
def shownCell (line : List UInt8) (last : Bool) (k : Nat) : Option UInt8 :=
  if last ∧ k = line.length then none else some (line.getD k 32)

/-- A line of text is not in the rows of pixels above and below it. -/
theorem textLayer_far {text : List UInt8} (htext : 10 ∉ text) {y : BitVec 32} {py : Nat}
    (hpy : py < 2 ^ 32) (hfar : y.toNat + 8 ≤ py ∨ py < y.toNat ∧ y.toNat < 2 ^ 31) (px : Nat)
    (x fg bg : BitVec 32) : textLayer text x y fg bg (pointOf px py) = none := by
  refine Option.not_isSome_iff_eq_none.1 fun hsome => ?_
  have hrow := (textLayer_isSome htext hsome).2
  dsimp only [pointOf] at hrow
  bv_omega

/-- A pixel of a cell. -/
def cellPixel (w : Window τ δ) (k r i j : Nat) : Point :=
  pointOf (w.x.toNat + 12 + 8 * k + j) (w.y.toNat + 48 + 14 * r + i)

section
variable {k r i j : Nat}

/-- The text in a cell of a row above the bar of the shortcuts. -/
theorem contentLayer_cell (hg : s.Geometry) (hon : EditorOnScreen s w) (text : List UInt8)
    (hk : k < columns w) (hr : 14 * r + 92 ≤ w.h.toNat) (hi : i < 8) (hj : j < 8) :
    contentLayer w text (cellPixel w k r i j) =
      (charAt (editorRows w text) k r).map fun c =>
        if glyphBit c i j then 0xFFFFFF else editorBg := by
  obtain ⟨hsmallx, hsmally⟩ := hon.small hg
  have hwidth := hon.width
  have hdrawn : r < drawnRows w := by
    unfold drawnRows
    omega
  unfold columns at hk
  have hcell := linesLayer_cell (by decide : 8 ≤ 14) ((editorRows w text).take (drawnRows w))
    (x := w.x + 12) (y := w.y + 48) 0xFFFFFF editorBg (p := cellPixel w k r i j) (k := k) (l := r)
    (by unfold cellPixel pointOf; bv_omega) (by unfold cellPixel pointOf; bv_omega) hi hj
  rw [contentLayer, hcell, charAt, List.getD_eq_getElem?_getD, List.getD_eq_getElem?_getD,
    List.getElem?_take, if_pos hdrawn]

/-- The block is in the cell behind the text, or nowhere if that cell is below the last row that is
drawn. -/
theorem cursorLayer_cell (hg : s.Geometry) (hon : EditorOnScreen s w) (text : List UInt8)
    (hk : k < columns w) (hr : 14 * r + 92 ≤ w.h.toNat) (hi : i < 8) (hj : j < 8) :
    cursorLayer w text (cellPixel w k r i j) =
      if cursor 10 (columns w) 0 0 text = (k, r) then some 0xFFFFFF else none := by
  obtain ⟨hsmallx, hsmally⟩ := hon.small hg
  have hwidth := hon.width
  have hdrawn : r < drawnRows w := by
    unfold drawnRows
    omega
  have hcursor : (cursor 10 (columns w) 0 0 text).1 < columns w := cursor_lt (Nat.succ_pos _)
  unfold cursorLayer cellPixel
  generalize cursor 10 (columns w) 0 0 text = place at *
  obtain ⟨c, q⟩ := place
  unfold columns at hk hcursor
  dsimp only at hcursor ⊢
  simp only [Prod.mk.injEq]
  by_cases hq : q < drawnRows w
  · rw [if_pos hq]
    unfold drawnRows at hq
    have hx : (w.x + 12 + BitVec.ofNat 32 (8 * c)).toNat = w.x.toNat + 12 + 8 * c := by bv_omega
    have hy : (w.y + 48 + BitVec.ofNat 32 (14 * q)).toNat = w.y.toNat + 48 + 14 * q := by bv_omega
    have h8 : (8 : BitVec 32).toNat = 8 := rfl
    have h12 : (12 : BitVec 32).toNat = 12 := rfl
    unfold fill
    refine if_congr ((inRect_pointOf (by omega) (by omega) (by omega) (by omega)).trans ?_) rfl rfl
    omega
  · rw [if_neg hq, if_neg (by rintro ⟨-, rfl⟩; exact hq hdrawn)]

/-- The colour of a pixel in a row above the bar of the shortcuts. -/
theorem editorLayers_cell (hg : s.Geometry) (hon : EditorOnScreen s w) {y : Yano}
    (hheader : 10 ∉ cstr y.header) (hk : k < columns w) (hr : 14 * r + 92 ≤ w.h.toNat) (hi : i < 8)
    (hj : j < 8) :
    stack (editorLayers y w) (cellPixel w k r i j) =
      some (if cursor 10 (columns w) 0 0 y.text = (k, r) then 0xFFFFFF
        else ((charAt (editorRows w y.text) k r).map fun c =>
          if glyphBit c i j then 0xFFFFFF else editorBg).getD editorBg) := by
  obtain ⟨hsmallx, hsmally⟩ := hon.small hg
  have hwidth := hon.width
  have hheight := hon.height
  have hcontent := contentLayer_cell hg hon y.text hk hr hi hj
  have hcursor := cursorLayer_cell hg hon y.text hk hr hi hj
  unfold columns at hk
  unfold cellPixel at *
  have hpx : w.x.toNat + 12 + 8 * k + j < 2 ^ 32 := by omega
  have hpy : w.y.toNat + 48 + 14 * r + i < 2 ^ 32 := by omega
  have hx6 : (w.x + 6).toNat = w.x.toNat + 6 := by bv_omega
  have hy26 : (w.y + 26).toNat = w.y.toNat + 26 := by bv_omega
  have hw12 : (w.w - 12).toNat = w.w.toNat - 12 := by bv_omega
  have hh32 : (w.h - 32).toNat = w.h.toNat - 32 := by bv_omega
  have hfoot : (w.y + w.h - 36).toNat = w.y.toNat + w.h.toNat - 36 := by bv_omega
  have h16 : (16 : BitVec 32).toNat = 16 := rfl
  have h30 : (30 : BitVec 32).toNat = 30 := rfl
  have hbackground : fill (InRect (w.x + 6) (w.y + 26) (w.w - 12) (w.h - 32)) editorBg
      (pointOf (w.x.toNat + 12 + 8 * k + j) (w.y.toNat + 48 + 14 * r + i)) = some editorBg := by
    refine if_pos ((inRect_pointOf (by omega) (by omega) hpx hpy).2 ?_)
    omega
  have hbar : fill (InRect (w.x + 6) (w.y + 26) (w.w - 12) 16) 0xDDDDDD
      (pointOf (w.x.toNat + 12 + 8 * k + j) (w.y.toNat + 48 + 14 * r + i)) = none :=
    if_neg (mt (inRect_pointOf (by omega) (by omega) hpx hpy).1 (by omega))
  have hshortcuts : fill (InRect (w.x + 6) (w.y + w.h - 36) (w.w - 12) 30) 0xDDDDDD
      (pointOf (w.x.toNat + 12 + 8 * k + j) (w.y.toNat + 48 + 14 * r + i)) = none :=
    if_neg (mt (inRect_pointOf (by omega) (by omega) hpx hpy).1 (by omega))
  unfold editorLayers
  simp only [stack_cons, stack_nil, overlay]
  rw [hbackground, hbar, hshortcuts, textLayer_far hheader hpy (by bv_omega),
    textLayer_far (by decide) hpy (by bv_omega), textLayer_far (by decide) hpy (by bv_omega),
    hcontent, hcursor]
  split
  · rfl
  · cases charAt (editorRows w y.text) k r with
    | none => rfl
    | some c => rfl

end

/-- What is typed is printable, or a newline: the editor stores no other key. -/
theorem chars_typed {cap : Nat} (keys : List UInt8) {text : List UInt8}
    (h : ∀ c ∈ text, c = 10 ∨ c ∈ printable) :
    ∀ c ∈ run (capped cap) text (keyEdits keys), c = 10 ∨ c ∈ printable := by
  have hpush : ∀ {text : List UInt8} {d : UInt8}, (∀ c ∈ text, c = 10 ∨ c ∈ printable) →
      (d = 10 ∨ d ∈ printable) → ∀ c ∈ capped cap text (.push d), c = 10 ∨ c ∈ printable := by
    intro text d htext hd c hc
    rw [capped_push] at hc
    split at hc
    · rcases List.mem_append.1 hc with hc | hc
      · exact htext c hc
      · rwa [List.mem_singleton.1 hc]
    · exact htext c hc
  have hprintable : ∀ n < 127, 32 ≤ n → n.toUInt8 ∈ printable := by decide
  induction keys generalizing text with
  | nil => exact h
  | cons key keys ih =>
      rw [keyEdits_cons, run_append]
      refine ih ?_
      unfold keyEdit
      split
      · exact hpush h (.inl rfl)
      · split
        · exact fun c hc => h c (List.dropLast_subset text hc)
        · split
          · next hkey =>
              have hmem := hprintable key.toNat (UInt8.lt_iff_toNat_lt.1 hkey.2)
                (UInt8.le_iff_toNat_le.1 hkey.1)
              rw [Nat.toUInt8, UInt8.ofNat_toNat] at hmem
              exact hpush h (.inr hmem)
          · exact h

/-- A cell of a row above the bar of the shortcuts, behind the last row too. -/
theorem yanoDraw_cell (hg : s.Geometry) (hon : EditorOnScreen s w) {y : Yano}
    (hname : 10 ∉ cstr y.currentFilename) (hchars : ∀ c ∈ y.text, c = 10 ∨ c ∈ printable)
    {k r : Nat} (hk : k < columns w) (hr : 14 * r + 92 ≤ w.h.toNat) :
    readCell (yanoDraw y w s) (w.x.toNat + 12 + 8 * k) (w.y.toNat + 48 + 14 * r) editorBg =
      if cursor 10 (columns w) 0 0 y.text = (k, r) then none
      else some ((charAt (editorRows w y.text) k r).getD 32) := by
  have hzero : 0 ∉ y.text := fun h => (hchars 0 h).elim (by decide) (by decide)
  obtain ⟨hheader, hshort⟩ := header_line hname
  have hdraws := yanoDraw_draws hg hon hzero hshort
  have hcolour : ∀ i < 8, ∀ j < 8, (yanoDraw y w s).colour (w.x.toNat + 12 + 8 * k + j)
      (w.y.toNat + 48 + 14 * r + i) =
        if cursor 10 (columns w) 0 0 y.text = (k, r) then 0xFFFFFF
        else ((charAt (editorRows w y.text) k r).map fun c =>
          if glyphBit c i j then 0xFFFFFF else editorBg).getD editorBg := by
    intro i hi j hj
    have hv : s.Visible (w.x.toNat + 12 + 8 * k + j) (w.y.toNat + 48 + 14 * r + i) := by
      have hright := hon.right
      have hbottom := hon.bottom
      have hwidth := hon.width
      have hheight := hon.height
      unfold columns at hk
      exact ⟨by omega, by omega⟩
    have hlayers := editorLayers_cell hg hon hheader hk hr hi hj
    unfold cellPixel at hlayers
    rw [hdraws.colour hv, hlayers, Option.getD_some]
  by_cases hblock : cursor 10 (columns w) 0 0 y.text = (k, r)
  · rw [if_pos hblock]
    refine readCell_block fun i hi j hj => ?_
    rw [hcolour i hi j hj, if_pos hblock]
    decide
  · rw [if_neg hblock]
    refine readCell_text ?_ fun i hi j hj => (hcolour i hi j hj).trans (if_neg hblock)
    cases hc : charAt (editorRows w y.text) k r with
    | none => decide
    | some c =>
        have hrows : (editorRows w y.text).flatten = y.text.filter (· ≠ 10) := flatten_rows ..
        have hmem : c ∈ (editorRows w y.text).flatten := mem_flatten_of_charAt hc
        rw [hrows, List.mem_filter, decide_eq_true_iff] at hmem
        exact (hchars c hmem.1).resolve_left hmem.2

end

end

/-- After any keys in the editor on a printable text, whatever the screen showed before, each row
of the window above the bar of the shortcuts reads as a row of the text with the keys applied,
wrapped at the width of the window: its characters, the cursor behind the last row, and blanks. The
rows below the last one are blank, and the rows together hold the text without its newlines. -/
theorem editor_screen_reads {τ δ : Type} {s : Fb} (hg : s.Geometry) {w : Window τ δ}
    (hon : EditorOnScreen s w) {y : Yano} (hname : 10 ∉ cstr y.currentFilename)
    (hchars : ∀ c ∈ y.text, c = 10 ∨ c ∈ printable) (keys : List UInt8) {text : List UInt8}
    (htext : text = run (capped (yanoBufSize - 1)) y.text (keyEdits keys)) :
    (∀ r chars, (editorRows w text)[r]? = some chars → 14 * r + 92 ≤ w.h.toNat →
      readRow (yanoDraw (run Yano.typeKey y keys) w s) (w.x.toNat + 12)
          (w.y.toNat + 48 + 14 * r) editorBg (columns w) =
        (List.range (columns w)).map (shownCell chars (r + 1 == (editorRows w text).length))) ∧
      (∀ r, (editorRows w text).length ≤ r → 14 * r + 92 ≤ w.h.toNat →
        readRow (yanoDraw (run Yano.typeKey y keys) w s) (w.x.toNat + 12)
            (w.y.toNat + 48 + 14 * r) editorBg (columns w) =
          List.replicate (columns w) (some 32)) ∧
      (editorRows w text).flatten = text.filter (· ≠ 10) := by
  have htyped : (run Yano.typeKey y keys).text = text := (text_typeKeys keys y).trans htext.symm
  have hchars' : ∀ c ∈ text, c = 10 ∨ c ∈ printable := by
    rw [htext]
    exact chars_typed keys hchars
  have hname' : 10 ∉ cstr (run Yano.typeKey y keys).currentFilename := by
    rwa [run_typeKey_currentFilename]
  generalize run Yano.typeKey y keys = y' at *
  subst htyped
  refine ⟨fun r chars hline hr => ?_, fun r hlast hr => ?_, flatten_rows ..⟩
  · refine List.map_congr_left fun k hk => ?_
    rw [yanoDraw_cell hg hon hname' hchars' (List.mem_range.1 hk) hr, charAt,
      List.getD_eq_getElem?_getD, hline, Option.getD_some, shownCell, List.getD_eq_getElem?_getD]
    refine if_congr ((cursor_eq_iff hline).trans (and_congr_left' ?_)) rfl rfl
    rw [beq_iff_eq]
    rfl
  · refine List.eq_replicate_iff.2 ⟨?_, fun c hc => ?_⟩
    · rw [readRow, List.length_map, List.length_range]
    obtain ⟨k, hk, rfl⟩ := List.mem_map.1 hc
    have hcursor : cursor 10 (columns w) 0 0 y'.text ≠ (k, r) := by
      intro he
      have hlt := cursor_row_lt 10 (columns w) y'.text
      rw [he] at hlt
      exact absurd hlast (Nat.not_le.2 hlt)
    rw [yanoDraw_cell hg hon hname' hchars' (List.mem_range.1 hk) hr, if_neg hcursor, charAt,
      List.getD_eq_getElem?_getD, List.getElem?_eq_none hlast]
    rfl

/-- An empty file in the editor. -/
def emptyEditor : Yano where
  buf := fun _ => 0
  len := 0
  currentFilename := str "notes" ++ List.replicate 27 0
  windowTitle := str "yano - notes"
  filename_length := rfl
  filename_end := rfl

/-- The window of `yano_launch`. -/
def editorWindow : Window Unit Unit :=
  ⟨180, 100, 600, 400, (), 0xC0C0C0, true, false, false, some (), 0⟩

/-- Two lines are typed: the second row shows `yano`, with the cursor behind it and blanks after
that. -/
theorem editor_screen_reads_typed :
    readRow (yanoDraw (run Yano.typeKey emptyEditor (str "hello\nyano")) editorWindow
      (screenOf 1024 768)) 192 162 editorBg 72 =
      (str "yano").map some ++ none :: List.replicate 67 (some 32) :=
  (editor_screen_reads (s := screenOf 1024 768) ⟨by decide, by decide⟩ (w := editorWindow)
    ⟨by decide, by decide, by decide, by decide⟩ (y := emptyEditor) (by decide)
    (fun _ h => nomatch h) (str "hello\nyano")
    (by decide : str "hello\nyano" = run _ emptyEditor.text (keyEdits (str "hello\nyano")))).1 1
    (str "yano") (by decide) (by decide)

end OnkenOS
