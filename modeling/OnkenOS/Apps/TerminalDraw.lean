import Mathlib.Data.List.DropRight
import OnkenOS.Apps.TerminalFits
import OnkenOS.Gui.Window

/-!
# What the terminal shows

`terminal_draw`: the wheel moves `term_scroll_offset`, which is then clamped to the lines there
are, and as many lines of the history are printed as fit above the bottom of the window. The
number of rows that the division gives is the number that the loop admits (`paintRows_eq`), so
after any messages, clears, wheel motions and redraws the rows are the consecutive lines that the
offset asks for (`terminal_shows_lines`).
-/

namespace OnkenOS

open Machine

/-! ## `terminal_draw` -/

/-- A call of `fb_rect` or `fb_print`. -/
inductive Paint where
  | rect (x y w h c : BitVec 32)
  | print (s : List UInt8) (x y fg bg : BitVec 32)

/-- `term_scroll_offset += mouse_scroll_delta * 3;` -/
def addScroll (t : Terminal) (delta : BitVec 8) : Terminal :=
  { t with termScrollOffset := t.termScrollOffset + delta.toInt * 3 }

/-- `max_visible`. -/
def maxVisible (h : BitVec 32) : Nat := ((h - 60) / 12).toNat

/-- `max_scroll`. -/
def maxScroll (t : Terminal) (h : BitVec 32) : Nat :=
  if t.termHistory.length > maxVisible h then t.termHistory.length - maxVisible h else 0

/-- `term_scroll_offset`, clamped. -/
def clampScroll (t : Terminal) (h : BitVec 32) : Terminal :=
  let offset := if t.termScrollOffset < 0 then 0 else t.termScrollOffset
  { t with
    termScrollOffset := if offset > maxScroll t h then maxScroll t h else offset }

/-- `start`. -/
def startRow (t : Terminal) (h : BitVec 32) : Nat :=
  let start := maxScroll t h - t.termScrollOffset
  if start < 0 then 0 else start.toNat

section
variable {τ δ : Type}

/-- The loop over the history, and the `sy` it ends with. -/
def paintRows (w : Window τ δ) (sy : BitVec 32) : List HistoryLine → List Paint × BitVec 32
  | [] => ([], sy)
  | line :: lines =>
      if sy + 12 > w.y + w.h - 30 then ([], sy)
      else
        let (rows, sy') := paintRows w (sy + 12) lines
        (.print line.text (w.x + 10) sy line.color 0x111111 :: rows, sy')

/-- The prompt. -/
def paintPrompt (w : Window τ δ) (t : Terminal) (sy : BitVec 32) : List Paint :=
  let dir := BitVec.ofNat 32 (strlen t.currentDir)
  [.print (str "root@onken:") (w.x + 10) sy 0x50E3C2 0x111111,
    .print t.currentDir (w.x + 10 + 11 * 8) sy 0x4A90E2 0x111111,
    .print (str "$ ") (w.x + 10 + (11 + dir) * 8) sy 0xBD10E0 0x111111,
    .print t.cmdBuf (w.x + 10 + (13 + dir) * 8) sy 0xFFFFFF 0x111111]

/-- What `terminal_draw` leaves: the two variables it writes, and what it paints. -/
structure Drawn where
  term : Terminal
  mouseScrollDelta : BitVec 8
  background : Paint
  rows : List Paint
  prompt : List Paint

/-- `terminal_draw`, of the window `w`; `active` is `wm_get_active() == w`. -/
def terminalDraw (t : Terminal) (mouseScrollDelta : BitVec 8) (active : Bool) (w : Window τ δ) :
    Drawn :=
  let (t, mouseScrollDelta) :=
    if active ∧ mouseScrollDelta ≠ 0 then (addScroll t mouseScrollDelta, 0)
    else (t, mouseScrollDelta)
  let t := clampScroll t w.h
  let (rows, sy) := paintRows w (w.y + 30) (t.termHistory.drop (startRow t w.h))
  { term := t
    mouseScrollDelta := mouseScrollDelta
    background := .rect (w.x + 6) (w.y + 26) (w.w - 12) (w.h - 32) 0x111111
    rows := rows
    prompt := paintPrompt w t sy }

/-! ## Rows -/

/-- There is room for a row, and the rectangle of the window does not wrap. -/
structure RowsFit (w : Window τ δ) : Prop where
  height : 72 ≤ w.h.toNat
  bottom : w.y.toNat + w.h.toNat < 2 ^ 32

/-- The row with number `i`. -/
def rowOf (w : Window τ δ) (i : Nat) (line : HistoryLine) : Paint :=
  .print line.text (w.x + 10) (w.y + 30 + 12 * BitVec.ofNat 32 i) line.color 0x111111

variable {w : Window τ δ}

/-- If there is room for a row the division is that of numbers: no sign, no wrap. -/
theorem maxVisible_eq (hw : RowsFit w) : maxVisible w.h = (w.h.toNat - 60) / 12 := by
  have hheight := hw.height
  have hsub : (w.h - 60).toNat = w.h.toNat - 60 :=
    BitVec.toNat_sub_of_le (BitVec.le_def.2 (le_trans (by decide) hheight))
  rw [maxVisible, BitVec.toNat_udiv, hsub]
  rfl

/-- A row has room exactly when it is one of the first `max_visible`. -/
theorem row_fits_iff (hw : RowsFit w) {i : Nat} (hi : i ≤ maxVisible w.h) :
    w.y + 30 + 12 * BitVec.ofNat 32 i + 12 > w.y + w.h - 30 ↔ maxVisible w.h ≤ i := by
  have hheight := hw.height
  have hbottom := hw.bottom
  rw [maxVisible_eq hw] at hi ⊢
  have hlimit : (w.y + w.h - 30).toNat = w.y.toNat + w.h.toNat - 30 := by bv_omega
  have hrow : (w.y + 30 + 12 * BitVec.ofNat 32 i + 12).toNat = w.y.toNat + 42 + 12 * i := by
    have hmul : (12 * BitVec.ofNat 32 i).toNat = 12 * i := by
      rw [BitVec.toNat_mul, BitVec.toNat_ofNat]
      change 12 * (i % 2 ^ 32) % 2 ^ 32 = 12 * i
      omega
    bv_omega
  rw [gt_iff_lt, BitVec.lt_def, hlimit, hrow]
  omega

/-- The loop prints the first lines that fit, each in the row below the one before. By induction on
the lines that are left. -/
theorem paintRows_eq (hw : RowsFit w) (lines : List HistoryLine) {i : Nat}
    (hi : i ≤ maxVisible w.h) :
    (paintRows w (w.y + 30 + 12 * BitVec.ofNat 32 i) lines).1 =
      (lines.take (maxVisible w.h - i)).mapIdx fun k => rowOf w (i + k) := by
  induction lines generalizing i with
  | nil => simp [paintRows]
  | cons line lines ih =>
      rw [paintRows]
      by_cases hfull : maxVisible w.h ≤ i
      · rw [if_pos ((row_fits_iff hw hi).2 hfull), Nat.sub_eq_zero_of_le hfull]
        rfl
      · have hnext : w.y + 30 + 12 * BitVec.ofNat 32 i + 12 =
            w.y + 30 + 12 * BitVec.ofNat 32 (i + 1) := by
          rw [BitVec.ofNat_add, BitVec.mul_add, ← BitVec.add_assoc]
          rfl
        have hrows := ih (i := i + 1) (by omega)
        have hleft : maxVisible w.h - i = maxVisible w.h - (i + 1) + 1 := by omega
        rw [if_neg (mt (row_fits_iff hw hi).1 hfull), hnext, hleft, List.take_succ_cons,
          List.mapIdx_cons]
        dsimp only
        rw [hrows]
        simp only [Nat.add_zero, Nat.add_assoc, Nat.add_comm 1]
        rfl

/-! ## The offset -/

/-- The history can be scrolled by as many lines as do not fit. -/
theorem maxScroll_eq (t : Terminal) (h : BitVec 32) :
    maxScroll t h = t.termHistory.length - maxVisible h := by
  rw [maxScroll]
  split <;> omega

/-- After the clamp the offset is between zero and that. -/
theorem clampScroll_range (t : Terminal) (h : BitVec 32) :
    0 ≤ (clampScroll t h).termScrollOffset ∧
      (clampScroll t h).termScrollOffset ≤ maxScroll t h := by
  rw [clampScroll]
  dsimp only
  split <;> split <;> omega

/-- The first line that is shown is that far from the top of the history. -/
theorem startRow_eq {t : Terminal} {h : BitVec 32} (ht : t.termScrollOffset ≤ maxScroll t h) :
    (startRow t h : Int) = maxScroll t h - t.termScrollOffset := by
  rw [startRow]
  split <;> omega

end

/-! ## Runs -/

/-- The terminal and the wheel motion that waits for it. -/
structure View where
  term : Terminal
  mouseScrollDelta : BitVec 8

/-- What happens to the terminal between two redraws, and the redraws. -/
inductive ViewEvent (τ δ : Type) where
  /-- `term_history_add`. -/
  | add (msg : List UInt8) (color : BitVec 32)
  /-- The command `clear`. -/
  | clear
  /-- The driver leaves a wheel motion. -/
  | wheel (delta : BitVec 8)
  /-- `terminal_draw`. -/
  | draw (active : Bool) (w : Window τ δ)

section
variable {τ δ : Type}

/-- One event. -/
def viewStep (s : View) : ViewEvent τ δ → View
  | .add msg color => { s with term := termHistoryAdd s.term msg color }
  | .clear => { s with term := (cmdClear ⟨s.term, Files.zero, false, []⟩).term }
  | .wheel delta => { s with mouseScrollDelta := delta }
  | .draw active w =>
      let d := terminalDraw s.term s.mouseScrollDelta active w
      ⟨d.term, d.mouseScrollDelta⟩

/-- The messages since the last clear, each cut to 127 bytes. -/
def sinceClear (log : List HistoryLine) : ViewEvent τ δ → List HistoryLine
  | .add msg color => log ++ [⟨(cstr msg).take 127, color⟩]
  | .clear => []
  | .wheel _ | .draw .. => log

/-- The lines with the numbers from `start` on, as many as there is room for. -/
def shownLines (history : List HistoryLine) (visible : Nat) (start : Int) : List HistoryLine :=
  (history.drop start.toNat).take (min history.length visible)

/-- What a redraw shows of the stored lines. -/
structure Shows (history : List HistoryLine) (w : Window τ δ) (d : Drawn) : Prop where
  history_eq : d.term.termHistory = history
  offset_nonneg : 0 ≤ d.term.termScrollOffset
  offset_le : d.term.termScrollOffset ≤ max 0 ((history.length : Int) - maxVisible w.h)
  rows : d.rows = (shownLines history (maxVisible w.h)
    (maxScroll d.term w.h - d.term.termScrollOffset)).mapIdx (rowOf w)
  length_rows : d.rows.length = min history.length (maxVisible w.h)
  newest : d.term.termScrollOffset = 0 → (shownLines history (maxVisible w.h)
    (maxScroll d.term w.h - d.term.termScrollOffset)).getLast? = history.getLast?
  oldest : d.term.termScrollOffset = maxScroll d.term w.h → (shownLines history (maxVisible w.h)
    (maxScroll d.term w.h - d.term.termScrollOffset)).head? = history.head?

section
variable {history : List HistoryLine} {visible : Nat} {start : Int}

/-- As many lines are shown as there is room for, or all of them. -/
theorem length_shownLines (h : start ≤ (history.length - visible : Nat)) :
    (shownLines history visible start).length = min history.length visible := by
  rw [shownLines, List.length_take, List.length_drop]
  omega

/-- Without an offset the last message is at the bottom. -/
theorem shownLines_last (hvisible : 0 < visible) :
    (shownLines history visible (history.length - visible : Nat)).getLast? =
      history.getLast? := by
  have hall : shownLines history visible (history.length - visible : Nat) =
      history.drop (history.length - visible) := by
    refine List.take_of_length_le ?_
    rw [List.length_drop, Int.toNat_natCast]
    omega
  rw [hall, List.getLast?_drop]
  cases history with
  | nil => simp
  | cons line lines =>
      rw [if_neg]
      rw [List.length_cons]
      omega

/-- With the largest offset the first stored message is at the top. -/
theorem shownLines_first (hvisible : 0 < visible) :
    (shownLines history visible 0).head? = history.head? := by
  cases history with
  | nil => rfl
  | cons line lines =>
      have hsome : min (lines.length + 1) visible = min lines.length (visible - 1) + 1 := by omega
      rw [shownLines, List.length_cons, hsome]
      rfl

end

/-- The variables a redraw leaves: the history is the old one, the offset is clamped, and the wheel
motion is cleared. -/
theorem terminalDraw_term (t : Terminal) (mouseScrollDelta : BitVec 8) (active : Bool)
    (w : Window τ δ) : ∃ t' : Terminal, t'.termHistory = t.termHistory ∧
      (terminalDraw t mouseScrollDelta active w).term = clampScroll t' w.h ∧
      (terminalDraw t mouseScrollDelta active w).rows = (paintRows w (w.y + 30)
        (t.termHistory.drop (startRow (clampScroll t' w.h) w.h))).1 := by
  rw [terminalDraw]
  by_cases hscroll : active ∧ mouseScrollDelta ≠ 0
  · rw [if_pos hscroll]
    exact ⟨addScroll t mouseScrollDelta, rfl, rfl, rfl⟩
  · rw [if_neg hscroll]
    exact ⟨t, rfl, rfl, rfl⟩

/-- The rows that are painted are the lines from the clamped offset on, in their places. -/
theorem paintRows_shown {w : Window τ δ} (hw : RowsFit w) {t : Terminal}
    (ht : t.termScrollOffset ≤ maxScroll t w.h) :
    (paintRows w (w.y + 30) (t.termHistory.drop (startRow t w.h))).1 =
      (shownLines t.termHistory (maxVisible w.h)
        (maxScroll t w.h - t.termScrollOffset)).mapIdx (rowOf w) := by
  have hpaint := paintRows_eq hw (t.termHistory.drop (startRow t w.h)) (Nat.zero_le _)
  have hfirst : w.y + 30 + 12 * BitVec.ofNat 32 0 = w.y + 30 := by simp
  rw [hfirst] at hpaint
  rw [hpaint, ← startRow_eq ht, shownLines, Int.toNat_natCast, Nat.sub_zero]
  simp only [Nat.zero_add]
  -- no more lines are left than the history has
  rw [List.take_eq_take_iff.2]
  rw [List.length_drop]
  omega

/-- A redraw, whatever the offset and the wheel motion before it: the offset is clamped, and the
rows are the consecutive lines that it stands for. -/
theorem terminalDraw_shows {w : Window τ δ} (hw : RowsFit w) (t : Terminal)
    (mouseScrollDelta : BitVec 8) (active : Bool) :
    Shows t.termHistory w (terminalDraw t mouseScrollDelta active w) := by
  obtain ⟨t', hhistory, hterm, hrows⟩ := terminalDraw_term t mouseScrollDelta active w
  have hroom : 0 < maxVisible w.h := by
    have hheight := hw.height
    rw [maxVisible_eq hw]
    omega
  have hclamped : (clampScroll t' w.h).termHistory = t.termHistory := hhistory
  obtain ⟨hnonneg, hle⟩ := clampScroll_range t' w.h
  have hmax : maxScroll (clampScroll t' w.h) w.h = t.termHistory.length - maxVisible w.h := by
    rw [maxScroll_eq, hclamped]
  have hmax' : maxScroll t' w.h = t.termHistory.length - maxVisible w.h := by
    rw [maxScroll_eq, hhistory]
  have hshown := paintRows_shown hw (t := clampScroll t' w.h) (by omega)
  rw [hclamped, ← hrows] at hshown
  refine ⟨?_, ?_, ?_, ?_, ?_, ?_, ?_⟩
  · rw [hterm]
    exact hclamped
  · rw [hterm]
    exact hnonneg
  · rw [hterm]
    omega
  · rw [hshown, hterm]
  · rw [hshown, List.length_mapIdx, length_shownLines]
    omega
  · intro hoffset
    rw [hterm] at hoffset ⊢
    rw [hoffset, hmax, Int.sub_zero]
    exact shownLines_last hroom
  · intro hoffset
    rw [hterm] at hoffset ⊢
    rw [hoffset, Int.sub_self]
    exact shownLines_first hroom

/-- What the newest `n` entries are after another one: it is appended, and the oldest is dropped if
there were `n` already. -/
theorem rtake_append_singleton {α : Type} (l : List α) (a : α) {n : Nat} (hn : 0 < n) :
    (l ++ [a]).rtake n =
      if (l.rtake n).length < n then l.rtake n ++ [a] else (l.rtake n).tail ++ [a] := by
  have hlen : (l.rtake n).length = l.length - (l.length - n) := List.length_drop
  have hdrop : (l ++ [a]).rtake n = l.drop (l.length + 1 - n) ++ [a] := by
    rw [List.rtake, List.length_append, List.length_singleton,
      List.drop_append_of_le_length (by omega)]
  rw [hdrop, hlen]
  split
  · rw [List.rtake, show l.length + 1 - n = l.length - n by omega]
  · rw [List.rtake, List.tail_drop, show l.length + 1 - n = l.length - n + 1 by omega]

/-- The stored lines are the newest of the messages since the last clear. -/
theorem viewStep_history {s : View} {log : List HistoryLine}
    (h : s.term.termHistory = log.rtake maxHistory) (e : ViewEvent τ δ) :
    (viewStep s e).term.termHistory = (sinceClear log e).rtake maxHistory := by
  cases e with
  | add msg color =>
      rw [sinceClear, rtake_append_singleton log _ (by decide), ← h]
      rfl
  | clear => simp [viewStep, sinceClear, cmdClear]
  | wheel delta => exact h
  | draw active w =>
      obtain ⟨t', hhistory, hterm, -⟩ := terminalDraw_term s.term s.mouseScrollDelta active w
      rw [viewStep, hterm]
      exact hhistory.trans h

/-- For all messages, clears, wheel motions and redraws on a terminal that starts without lines, the
history is the last 40 messages since the last clear, and a redraw of a window with room for a row
clamps the offset and shows the consecutive lines it stands for. The history by induction on the
events; what a redraw shows needs no history before it. -/
theorem terminal_shows_lines (s : View) (hs : s.term.termHistory = [])
    (es : List (ViewEvent τ δ)) (active : Bool) {w : Window τ δ} (hw : RowsFit w) :
    Shows ((run sinceClear [] es).rtake maxHistory) w
      (terminalDraw (run viewStep s es).term (run viewStep s es).mouseScrollDelta active w) := by
  have hhistory : (run viewStep s es).term.termHistory =
      (run sinceClear [] es).rtake maxHistory :=
    run_simulation (R := fun (s : View) (log : List HistoryLine) =>
      s.term.termHistory = log.rtake maxHistory) (fun _ _ e h => viewStep_history h e) es hs
  rw [← hhistory]
  exact terminalDraw_shows hw _ _ active

end

/-- The window that `terminal_launch` adds. -/
def launchedWindow : Window Unit Unit :=
  ⟨200, 80, 750, 520, (), 0xC0C0C0, true, false, false, some (), 0⟩

/-- The same window with room for three rows. -/
def lowWindow : Window Unit Unit := { launchedWindow with h := 96 }

/-- Eight messages. -/
def eightLines : List HistoryLine :=
  [⟨str "one", 0xFFFFFF⟩, ⟨str "two", 0xFFFFFF⟩, ⟨str "three", 0xFFFFFF⟩, ⟨str "four", 0xFFFFFF⟩,
    ⟨str "five", 0xFFFFFF⟩, ⟨str "six", 0xFFFFFF⟩, ⟨str "seven", 0xFFFFFF⟩, ⟨str "eight", 0xFFFFFF⟩]

/-- Eight messages, and one notch of the wheel: the rows leave out the three newest lines and show
the three before them. -/
theorem terminal_shows_lines_scrolled :
    let es : List (ViewEvent Unit Unit) :=
      (eightLines.map fun line => .add line.text line.color) ++ [.wheel 1]
    let d := terminalDraw (run viewStep ⟨Terminal.static, 0⟩ es).term 1 true lowWindow
    Shows eightLines lowWindow d ∧ d.term.termScrollOffset = 3 ∧
      d.rows = [rowOf lowWindow 0 ⟨str "three", 0xFFFFFF⟩,
        rowOf lowWindow 1 ⟨str "four", 0xFFFFFF⟩, rowOf lowWindow 2 ⟨str "five", 0xFFFFFF⟩] := by
  intro es d
  have hshows : Shows eightLines lowWindow d :=
    terminal_shows_lines ⟨Terminal.static, 0⟩ rfl es true ⟨by decide, by decide⟩
  have hoffset : d.term.termScrollOffset = 3 := by decide +kernel
  have hmax : maxScroll d.term lowWindow.h = 5 := by decide +kernel
  refine ⟨hshows, hoffset, ?_⟩
  rw [hshows.rows, hoffset, hmax]
  rfl

end OnkenOS
