import OnkenOS.Gui.Handover
import OnkenOS.Shell.Desktop

/-!
# Reachable desktops

What every run of `shell_loop` keeps: the windows are well formed, and nothing is being dragged
while the button is up.
-/

namespace OnkenOS

section
variable {scr : Screen} {d : Desktop} {mx my : Int}

/-- A launch writes the window table and the calls, and no variable of `shell_loop`. -/
theorem launch_eq (d : Desktop) (name : List UInt8) : ∃ wm calls,
    d.launch name = { d with wm := wm, calls := calls } := by
  unfold Desktop.launch
  split
  · exact ⟨d.wm, d.calls, rfl⟩
  · exact ⟨_, _, rfl⟩

/-- What every reachable desktop satisfies: nothing is being dragged while the button is up. -/
structure Desktop.Inv (d : Desktop) : Prop where
  wf : d.wm.WF
  icon : d.lastMbl = false → d.draggingIconIdx = none
  window : d.lastMbl = false → d.wm.draggingWindowIdx = none

/-- A launch adds one window, or none if the table is full. -/
theorem launchApp_wf (h : d.wm.WF) (l : Launch) : (d.launchApp l).wm.WF :=
  wmStep_wf d.wm (launchWindow l) h

/-- The same by name: a name that is not in the registry launches nothing. -/
theorem launch_wf (h : d.wm.WF) (name : List UInt8) : (d.launch name).wm.WF := by
  unfold Desktop.launch
  split
  · exact h
  · exact launchApp_wf h _

/-- A launch neither starts nor ends a drag. -/
theorem launch_drag (d : Desktop) (l : Launch) :
    (d.launchApp l).wm.draggingWindowIdx = d.wm.draggingWindowIdx := by
  change (wmAddWindow d.wm _ _ _ _ _ _).draggingWindowIdx = _
  unfold wmAddWindow
  split <;> rfl

/-- The loop over the icons does not touch the windows. -/
theorem iconDragging_wm (left : Bool) : (iconDragging scr d mx my left).wm = d.wm := by
  unfold iconDragging
  split
  · split
    · rfl
    · split
      · split <;> rfl
      · rfl
  · rfl

/-- `shell_loop` passes the mouse on to `wm_handle_mouse`, or drags an icon and passes nothing on.
-/
theorem routeMouse_wf (h : d.wm.WF) (left : Bool) : (routeMouse d mx my left).wm.WF := by
  unfold routeMouse
  split
  · exact h
  · exact wmHandleMouse_wf h mx my left

/-- A click in the content of a window launches at most one application. -/
theorem clickContent_wf (h : d.wm.WF) : (d.clickContent mx my).wm.WF := by
  unfold Desktop.clickContent
  split
  · next c _ =>
      cases c with
      | openFile l => exact launchApp_wf h l
      | _ => exact h
  · exact h

/-- A click in the start menu or on the taskbar launches at most one application, or restores a
window and focuses it. -/
theorem clickMenuOrTaskbar_wf (h : d.wm.WF) : (d.clickMenuOrTaskbar scr mx my).wm.WF := by
  unfold Desktop.clickMenuOrTaskbar Desktop.clickStartMenu
  split
  · split
    · exact launch_wf h _
    · split <;> exact h
  · split
    · next i _ =>
        exact wmStep_wf (wmStep d.wm (.restore i)) (.focusWindow i) (wmStep_wf d.wm (.restore i) h)
    · exact h

/-- A press, at whatever control, keeps the table well formed: one case for each branch of
`shell_loop`. -/
theorem clickPress_wf (h : d.wm.WF) : (clickPress scr d mx my).wm.WF := by
  unfold clickPress Desktop.clickContextMenu
  split
  · split
    · dsimp only
      split
      · exact h
      · split
        · exact h
        · exact launch_wf (d := d.react .contextMenu) h _
    · exact h
  · split
    · exact launch_wf (d := d.react .desktop) h _
    · split
      · exact h
      · exact clickContent_wf (clickMenuOrTaskbar_wf h)

/-- A press of the right button writes the variables of the context menu only. -/
theorem rightPress_eq (d : Desktop) (mx my : Int) (right : Bool) : ∃ x y v,
    rightPress d mx my right = { d with menuX := x, menuY := y, menuVisible := v } := by
  unfold rightPress
  split
  · exact ⟨mx, my, true, rfl⟩
  · exact ⟨d.menuX, d.menuY, d.menuVisible, rfl⟩

/-- An iteration on the mouse keeps the table well formed, from its parts in the order of the
source. -/
theorem mouseIteration_wf (h : d.wm.WF) (left right : Bool) :
    (mouseIteration scr d mx my left right).wm.WF := by
  have hroute : (routeMouse (iconDragging scr { d with reacted := [] } mx my left)
      mx my left).wm.WF := routeMouse_wf (by rw [iconDragging_wm]; exact h) left
  unfold mouseIteration
  dsimp only
  obtain ⟨x, y, v, he⟩ := rightPress_eq _ mx my right
  rw [he]
  dsimp only
  split
  · exact clickPress_wf hroute
  · exact hroute

/-- Releasing the button ends every drag, of an icon and of a window. -/
theorem mouseIteration_release (right : Bool) :
    (mouseIteration scr d mx my false right).draggingIconIdx = none ∧
      (mouseIteration scr d mx my false right).wm.draggingWindowIdx = none := by
  unfold mouseIteration
  dsimp only
  obtain ⟨x, y, v, he⟩ := rightPress_eq _ mx my right
  rw [he]
  exact ⟨rfl, rfl⟩

/-- Every event keeps the invariant: when the button is up, `wm_handle_mouse` has ended the drag. -/
theorem desktopStep_inv (d : Desktop) (e : DesktopEvent) (h : d.Inv) :
    (desktopStep scr d e).Inv := by
  cases e with
  | superKey => exact ⟨h.wf, h.icon, h.window⟩
  | altTab =>
      exact ⟨wmCycleDepth_wf h.wf, h.icon, fun hl => (cycleDepth_drag h.wf).trans (h.window hl)⟩
  | mouse mx my left right =>
      refine ⟨mouseIteration_wf h.wf left right, ?_, ?_⟩
      · rintro (rfl : left = false)
        exact (mouseIteration_release right).1
      · rintro (rfl : left = false)
        exact (mouseIteration_release right).2
  | appLaunch l =>
      exact ⟨launchApp_wf h.wf l, h.icon, fun hl => (launch_drag d l).trans (h.window hl)⟩
  | appClose =>
      refine ⟨wmCloseActive_wf h.wf, h.icon, fun hl => ?_⟩
      change (wmCloseActive d.wm).draggingWindowIdx = none
      unfold wmCloseActive
      split <;> exact h.window hl
  | appWrites files => exact ⟨h.wf, h.icon, h.window⟩

/-- It holds when the loop begins, with one terminal in the table and the button up. -/
theorem bootDesktop_inv (logoPng : List UInt8) : (bootDesktop logoPng).Inv := by
  unfold bootDesktop
  generalize vfsInit logoPng = files
  refine ⟨launch_wf wmInit_wf _, fun _ => ?_, fun _ => ?_⟩
  · obtain ⟨wm, calls, he⟩ := launch_eq _ (str "terminal")
    rw [he]
  · unfold Desktop.launch
    split
    · rfl
    · exact launch_drag _ _

/-- So it holds of every desktop that is reached. -/
theorem Desktop.Reached.inv {logoPng : List UInt8} (hr : d.Reached scr logoPng) : d.Inv :=
  Machine.Reachable.invariant hr (bootDesktop_inv logoPng) desktopStep_inv

end

end OnkenOS
