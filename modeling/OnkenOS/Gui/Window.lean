import OnkenOS.Lib.Run
import OnkenOS.Lib.Slots

/-!
# The window manager

`gui/window.c`. The array `windows[0 .. window_count-1]` is a list, a `window_t*` into it is a
slot number, and `dragging_window_idx == -1` is `none`. An `int` is an `Int`, a `uint32_t` a
`BitVec 32` whose `(int)` cast is `toInt`.

The title and the draw function are pointers that this module stores and never follows, so
their types are parameters. `serial` is the one field the source does not have: it names the
`wm_add_window` call that created the window, travels with the struct copies, and is read by
no branch. It lets the statements below speak of one window across the rotations of the array.
-/

namespace OnkenOS

open Slots

/-- `MAX_WINDOWS`. -/
def maxWindows : Nat := 16

/-- `window_t`. -/
structure Window (τ δ : Type) where
  x : BitVec 32
  y : BitVec 32
  w : BitVec 32
  h : BitVec 32
  title : τ
  color : BitVec 32
  active : Bool
  closed : Bool
  minimized : Bool
  drawContent : Option δ
  serial : Nat
  deriving DecidableEq

/-- The static variables of `window.c`. -/
structure Wm (τ δ : Type) where
  windows : List (Window τ δ)
  activeWindow : Option Nat
  draggingWindowIdx : Option Nat
  dragOffX : Int
  dragOffY : Int
  deriving DecidableEq

section
variable {τ δ : Type}

/-- `window_count`. -/
def Wm.windowCount (s : Wm τ δ) : Nat := s.windows.length

/-- The static initialisers, before `wm_init` has run. -/
def Wm.static : Wm τ δ := ⟨[], none, none, 0, 0⟩

/-- `wm_init`. -/
def wmInit (s : Wm τ δ) : Wm τ δ := { s with windows := [], activeWindow := none }

/-! ## The active flag -/

/-- `windows[i].active = b`. -/
def setActive (ws : List (Window τ δ)) (i : Nat) (b : Bool) : List (Window τ δ) :=
  ws.modify i fun w => { w with active := b }

/-- `if (active_window) active_window->active = 0;` -/
def clearActive (ws : List (Window τ δ)) : Option Nat → List (Window τ δ)
  | none => ws
  | some a => setActive ws a false

/-- `!windows[i].closed`, for a slot below `window_count`. -/
def isOpen (ws : List (Window τ δ)) (i : Nat) : Bool :=
  match ws[i]? with
  | some w => !w.closed
  | none => false

/-- The loop that hands the focus to the last open slot, which both the close gadget and
`wm_cycle_depth` run after `active_window = 0`. -/
def activateTopmost (s : Wm τ δ) (ws : List (Window τ δ)) : Wm τ δ :=
  match findDown (isOpen ws) ws.length with
  | none => { s with windows := ws, activeWindow := none }
  | some i => { s with windows := setActive ws i true, activeWindow := some i }

/-! ## The operations -/

/-- `wm_focus_window`, at the address of a slot or at null. -/
def wmFocusWindow (s : Wm τ δ) (p : Option Nat) : Wm τ δ :=
  match p with
  | none => s
  | some idx =>
    match s.windows[idx]? with
    | none => s
    | some w =>
      if w.closed then s
      else
        let ws := moveToFront (clearActive s.windows s.activeWindow) idx
        { s with windows := setActive ws 0 true, activeWindow := some 0 }

/-- `wm_add_window`. -/
def wmAddWindow (s : Wm τ δ) (x y w h : BitVec 32) (title : τ) (drawFn : Option δ) :
    Wm τ δ :=
  if maxWindows ≤ s.windowCount then s
  else
    let new : Window τ δ :=
      { x := x, y := y, w := w, h := h, title := title, color := 0xC0C0C0
        active := true, closed := false, minimized := false, drawContent := drawFn
        serial := s.windowCount }
    { s with
      windows := clearActive (s.windows ++ [new]) s.activeWindow
      activeWindow := some s.windowCount }

/-- `wm_cycle_depth`. The flag is cleared through `active_window` after the rotation, when
the pointer still holds the old slot. -/
def wmCycleDepth (s : Wm τ δ) : Wm τ δ :=
  match s.activeWindow with
  | none => s
  | some a =>
    if s.windowCount ≤ 1 then s
    else
      match (List.range s.windowCount).find? (· == a) with
      | none => s
      | some activeIdx => activateTopmost s (setActive (moveToFront s.windows activeIdx) a false)

/-! ## Hit tests -/

/-- The title bar strip the active window is tested against first. -/
def Window.OnTitlebar (w : Window τ δ) (mx my : Int) : Prop :=
  w.x.toInt ≤ mx ∧ mx ≤ w.x.toInt + w.w.toInt ∧ w.y.toInt ≤ my ∧ my ≤ w.y.toInt + 24

/-- The close box. -/
def Window.OnCloseBox (w : Window τ δ) (mx my : Int) : Prop :=
  w.x.toInt + 6 ≤ mx ∧ mx ≤ w.x.toInt + 20 ∧ w.y.toInt + 6 ≤ my ∧ my ≤ w.y.toInt + 20

/-- The depth gadget. -/
def Window.OnDepthGadget (w : Window τ δ) (mx my : Int) : Prop :=
  w.x.toInt + w.w.toInt - 20 ≤ mx ∧ mx ≤ w.x.toInt + w.w.toInt - 6 ∧
    w.y.toInt + 6 ≤ my ∧ my ≤ w.y.toInt + 20

/-- The minimize box. -/
def Window.OnMinimizeBox (w : Window τ δ) (mx my : Int) : Prop :=
  w.x.toInt + w.w.toInt - 38 ≤ mx ∧ mx ≤ w.x.toInt + w.w.toInt - 24 ∧
    w.y.toInt + 6 ≤ my ∧ my ≤ w.y.toInt + 20

/-- `click_h`. -/
def Window.clickH (w : Window τ δ) : BitVec 32 := if w.minimized then 24 else w.h

/-- The area an inactive window is tested against; the sums are `uint32_t` sums. -/
def Window.OnClickArea (w : Window τ δ) (mx my : Int) : Prop :=
  w.x.toInt ≤ mx ∧ mx ≤ (w.x + w.w).toInt ∧ w.y.toInt ≤ my ∧ my ≤ (w.y + w.clickH).toInt

instance (w : Window τ δ) (mx my : Int) : Decidable (w.OnTitlebar mx my) :=
  inferInstanceAs (Decidable (_ ∧ _))
instance (w : Window τ δ) (mx my : Int) : Decidable (w.OnCloseBox mx my) :=
  inferInstanceAs (Decidable (_ ∧ _))
instance (w : Window τ δ) (mx my : Int) : Decidable (w.OnDepthGadget mx my) :=
  inferInstanceAs (Decidable (_ ∧ _))
instance (w : Window τ δ) (mx my : Int) : Decidable (w.OnMinimizeBox mx my) :=
  inferInstanceAs (Decidable (_ ∧ _))
instance (w : Window τ δ) (mx my : Int) : Decidable (w.OnClickArea mx my) :=
  inferInstanceAs (Decidable (_ ∧ _))

/-- `active_window && !active_window->closed`, with the window. -/
def Wm.openActive (s : Wm τ δ) : Option (Nat × Window τ δ) :=
  match s.activeWindow with
  | none => none
  | some a =>
    match s.windows[a]? with
    | none => none
    | some w => if w.closed then none else some (a, w)

/-- Slot `i` passes the tests of the second loop of `wm_handle_mouse`. -/
def Wm.clickable (s : Wm τ δ) (mx my : Int) (i : Nat) : Bool :=
  match s.windows[i]? with
  | none => false
  | some w => !w.closed && s.activeWindow != some i && decide (w.OnClickArea mx my)

/-! ## The mouse handler -/

/-- The drag branch. -/
def Wm.dragTo (s : Wm τ δ) (d : Nat) (mx my : Int) : Wm τ δ :=
  { s with windows := s.windows.modify d fun w =>
      { w with x := BitVec.ofInt 32 (mx - s.dragOffX), y := BitVec.ofInt 32 (my - s.dragOffY) } }

/-- The close box branch, at the active slot `a`. -/
def Wm.pressClose (s : Wm τ δ) (a : Nat) : Wm τ δ :=
  activateTopmost s (s.windows.modify a fun w => { w with closed := true })

/-- The minimize box branch, at the active slot `a`. -/
def Wm.pressMinimize (s : Wm τ δ) (a : Nat) : Wm τ δ :=
  { s with windows := s.windows.modify a fun w => { w with minimized := !w.minimized } }

/-- The title bar branch, at the active slot `a` holding `w`. -/
def Wm.pressDrag (s : Wm τ δ) (a : Nat) (w : Window τ δ) (mx my : Int) : Wm τ δ :=
  { s with
    draggingWindowIdx := some a
    dragOffX := mx - w.x.toInt
    dragOffY := my - w.y.toInt }

/-- What a press on the title bar strip of the active window does. -/
def Wm.pressTitlebar (s : Wm τ δ) (a : Nat) (w : Window τ δ) (mx my : Int) : Wm τ δ :=
  if w.OnCloseBox mx my then s.pressClose a
  else if w.OnDepthGadget mx my then wmCycleDepth s
  else if w.OnMinimizeBox mx my then s.pressMinimize a
  else s.pressDrag a w mx my

/-- The body of the second loop, at the slot `i` that was hit. Here `mx - w->x` is a
`uint32_t` difference. -/
def Wm.pressOther (s : Wm τ δ) (i : Nat) (mx my : Int) : Wm τ δ :=
  let s' := { s with
    windows := setActive (clearActive s.windows s.activeWindow) i true
    activeWindow := some i }
  match s.windows[i]? with
  | none => s'
  | some w =>
    if my ≤ w.y.toInt + 24 then
      { s' with
        draggingWindowIdx := some i
        dragOffX := (BitVec.ofInt 32 mx - w.x).toInt
        dragOffY := (BitVec.ofInt 32 my - w.y).toInt }
    else s'

/-- The second loop of `wm_handle_mouse`. -/
def Wm.pressOthers (s : Wm τ δ) (mx my : Int) : Wm τ δ :=
  match findDown (s.clickable mx my) s.windowCount with
  | none => s
  | some i => s.pressOther i mx my

/-- `wm_handle_mouse`. -/
def wmHandleMouse (s : Wm τ δ) (mx my : Int) (leftClick : Bool) : Wm τ δ :=
  if !leftClick then { s with draggingWindowIdx := none }
  else
    match s.draggingWindowIdx with
    | some d => s.dragTo d mx my
    | none =>
      match s.openActive with
      | some (a, w) =>
        if w.OnTitlebar mx my then s.pressTitlebar a w mx my else s.pressOthers mx my
      | none => s.pressOthers mx my

/-! ## Painting -/

/-- A call that `wm_draw_all` makes: the frame of a slot, or its content. -/
inductive DrawCall where
  | frame (slot : Nat)
  | content (slot : Nat)
  deriving DecidableEq, Repr

/-- `draw_window_frame(w)` and then `w->draw_content(w)`, for the window in a slot. -/
def drawCalls (w : Window τ δ) (i : Nat) : List DrawCall :=
  .frame i :: if !w.minimized && w.drawContent.isSome then [.content i] else []

/-- What the first loop of `wm_draw_all` draws for slot `i`. -/
def Wm.drawInactive (s : Wm τ δ) (i : Nat) : List DrawCall :=
  match s.windows[i]? with
  | none => []
  | some w => if w.closed || s.activeWindow == some i then [] else drawCalls w i

/-- `wm_draw_all`: the open inactive windows in slot order, then the active window. -/
def wmDrawAll (s : Wm τ δ) : List DrawCall :=
  (List.range s.windowCount).flatMap s.drawInactive ++
    match s.openActive with
    | some (a, w) => drawCalls w a
    | none => []

/-- `border_h` of `draw_window_frame`. -/
def Window.borderH (w : Window τ δ) : BitVec 32 := if w.minimized then 26 else w.h

/-- The frame `draw_window_frame` paints holds the point: the rectangle at `x`, `y` of width
`w` and height `border_h`. -/
def Window.FrameHas (w : Window τ δ) (mx my : Int) : Prop :=
  w.x.toInt ≤ mx ∧ mx < w.x.toInt + w.w.toNat ∧
    w.y.toInt ≤ my ∧ my < w.y.toInt + w.borderH.toNat

instance (w : Window τ δ) (mx my : Int) : Decidable (w.FrameHas mx my) :=
  inferInstanceAs (Decidable (_ ∧ _))

/-! ## Runs -/

/-- What can happen to the window manager: the calls of its interface, an application setting
`closed` on the window `wm_get_active` answers, and the taskbar clearing `minimized`. -/
inductive WmEvent (τ δ : Type) where
  | addWindow (x y w h : BitVec 32) (title : τ) (drawFn : Option δ)
  | focusWindow (slot : Nat)
  | cycleDepth
  | handleMouse (mx my : Int) (leftClick : Bool)
  | closeActive
  | restore (slot : Nat)

/-- `active_w->closed = 1`, as `yano` and the terminal do it. -/
def wmCloseActive (s : Wm τ δ) : Wm τ δ :=
  match s.activeWindow with
  | none => s
  | some a => { s with windows := s.windows.modify a fun w => { w with closed := true } }

/-- `wins[i].minimized = 0`, as the taskbar does it. -/
def wmRestore (s : Wm τ δ) (i : Nat) : Wm τ δ :=
  { s with windows := s.windows.modify i fun w => { w with minimized := false } }

/-- One event. -/
def wmStep (s : Wm τ δ) : WmEvent τ δ → Wm τ δ
  | .addWindow x y w h title drawFn => wmAddWindow s x y w h title drawFn
  | .focusWindow i => wmFocusWindow s (some i)
  | .cycleDepth => wmCycleDepth s
  | .handleMouse mx my leftClick => wmHandleMouse s mx my leftClick
  | .closeActive => wmCloseActive s
  | .restore i => wmRestore s i

/-- The state after `wm_init` and a list of events. -/
def wmRun (es : List (WmEvent τ δ)) : Wm τ δ := Machine.run wmStep (wmInit Wm.static) es

/-- A state some run reaches. -/
def Wm.Reached (s : Wm τ δ) : Prop := Machine.Reachable wmStep (wmInit Wm.static) s

end

end OnkenOS
