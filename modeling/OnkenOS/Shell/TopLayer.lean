import OnkenOS.Shell.DesktopInv
import OnkenOS.Shell.WindowPress

/-!
# A press and the layer on top

One iteration of `shell_loop` tests a press against the icons, the windows, the context menu, the
icons again, the START button, the start menu, the taskbar and the controls of the active window,
in an order of its own that is not the order of painting. `OnlyTopReacts` says that only the layer
painted last at the point answers; `PressGuard` lists, test by test, what the desktop must look
like before the press for that to be so.
-/

namespace OnkenOS

/-! ## The property and its condition -/

/-- Every layer that answers a new left press is the one painted last at that point. -/
def OnlyTopReacts (scr : Screen) (d : Desktop) (mx my : Int) (right : Bool) : Prop :=
  ∀ l ∈ (mouseIteration scr d mx my true right).reacted, d.topLayer scr mx my = l

/-- The icon whose drag a press starts. -/
def Desktop.grabs (d : Desktop) (mx my : Int) : Option (Icon × Nat) :=
  if d.clickedWindow mx my then none else d.iconAt mx my

/-- How many windows have a button when the taskbar is tested: one less if the press has just closed
the active window. -/
def Desktop.openLeft (d : Desktop) (mx my : Int) : Nat :=
  if d.grabs mx my = none ∧ d.wm.closes mx my = true then openCount d.wm.windows - 1
  else openCount d.wm.windows

/-- The press is on one of the first `n` taskbar buttons. -/
def OnTaskbarButton (scr : Screen) (n : Nat) (mx my : Int) : Prop :=
  (scr.fbHeight.toInt - 38 ≤ my ∧ my ≤ scr.fbHeight.toInt - 8) ∧
    ∃ k < n, 120 + 145 * (k : Int) ≤ mx ∧ mx ≤ 120 + 145 * (k : Int) + 140

/-- The active window after an application has started, if the table has room. -/
def Desktop.launched (d : Desktop) (name : List UInt8) : Option (Window (List UInt8) AppEntry) :=
  match appFind shellRegistry name with
  | none => d.wm.getActive
  | some app =>
    if maxWindows ≤ d.wm.windowCount then d.wm.getActive
    else
      let (x, y, w, h) := launchRect ⟨app, none⟩
      some
        { x := x, y := y, w := w, h := h, title := launchTitle ⟨app, none⟩, color := 0xC0C0C0
          active := true, closed := false, minimized := false, drawContent := some app
          serial := d.wm.windowCount }

/-- The window whose controls are tested: the one that the start menu has just opened, the one of
the taskbar button, or else the active window. -/
def Desktop.frontWindow (scr : Screen) (d : Desktop) (mx my : Int) :
    Option (Window (List UInt8) AppEntry) :=
  if d.InStartMenu scr mx my then
    match startMenuItem scr my with
    | some name => d.launched name
    | none => d.wm.getActive
  else
    match d.taskbarAt scr mx my with
    | some i => d.wm.windows[i]?
    | none => d.wm.getActive

/-- The press reaches the tests behind the context menu and the icons. -/
def Desktop.Passes (d : Desktop) (mx my : Int) : Prop :=
  d.menuVisible = false ∧ d.launcherAt mx my = none

/-- Whatever a test of the iteration accepts is painted last at that point. -/
structure PressGuard (scr : Screen) (d : Desktop) (mx my : Int) : Prop where
  dragging : (d.grabs mx my).isSome → d.topLayer scr mx my = .desktop
  routing : d.grabs mx my = none → d.wm.Acts mx my → d.topLayer scr mx my = .windows
  contextMenu : d.menuVisible = true → d.OnContextMenu mx my →
    d.topLayer scr mx my = .contextMenu
  launcher : d.menuVisible = false → (d.launcherAt mx my).isSome →
    d.topLayer scr mx my = .desktop
  startButton : d.Passes mx my → OnStartButton scr mx my → d.topLayer scr mx my = .taskbar
  startMenu : d.Passes mx my → ¬ OnStartButton scr mx my → d.InStartMenu scr mx my →
    d.topLayer scr mx my = .startMenu
  taskbar : d.Passes mx my → ¬ OnStartButton scr mx my → ¬ d.InStartMenu scr mx my →
    OnTaskbarButton scr (d.openLeft mx my) mx my → d.topLayer scr mx my = .taskbar
  controls : d.Passes mx my → ¬ OnStartButton scr mx my →
    (controlAt d.files d.currentTab (d.frontWindow scr mx my) mx my).isSome →
      d.topLayer scr mx my = .windows

/-! ## Which layers answer -/

section
variable {scr : Screen} {d : Desktop} {mx my : Int} {right : Bool}

/-- A launch is what a layer does on a press, and no answer of its own. -/
@[simp] theorem launch_reacted (d : Desktop) (name : List UInt8) :
    (d.launch name).reacted = d.reacted := by
  obtain ⟨wm, calls, he⟩ := launch_eq d name
  rw [he]

/-- A control of a window is part of the window, which has answered already. -/
theorem press_reacted (d : Desktop) (c : Control) : (d.press c).reacted = d.reacted := by
  cases c <;> rfl

/-- The layers that answer in the click handling. -/
def Desktop.clickLayers (scr : Screen) (d : Desktop) (mx my : Int) : List Layer :=
  if d.menuVisible then if d.OnContextMenu mx my then [.contextMenu] else []
  else if (d.launcherAt mx my).isSome then [.desktop]
  else if OnStartButton scr mx my then [.taskbar]
  else
    (if d.InStartMenu scr mx my then [.startMenu]
      else if (d.taskbarAt scr mx my).isSome then [.taskbar] else []) ++
    if (controlAt d.files d.currentTab (d.frontWindow scr mx my) mx my).isSome then [.windows]
    else []

/-- The context menu answers a press in its box, and a press elsewhere only closes it. -/
theorem clickContextMenu_reacted : (d.clickContextMenu mx my).reacted =
    d.reacted ++ if d.OnContextMenu mx my then [.contextMenu] else [] := by
  unfold Desktop.clickContextMenu
  split
  · dsimp only
    split
    · rfl
    · split
      · rfl
      · exact launch_reacted _ _
  · exact (List.append_nil _).symm

/-- The start menu answers every press in its area, on an item or not. -/
theorem clickStartMenu_reacted :
    (d.clickStartMenu scr my).reacted = d.reacted ++ [.startMenu] := by
  unfold Desktop.clickStartMenu
  split
  · exact congrArg (· ++ _) (launch_reacted _ _)
  · split <;> rfl

/-- The taskbar is looked at only if the start menu did not take the press. -/
theorem clickMenuOrTaskbar_reacted : (d.clickMenuOrTaskbar scr mx my).reacted = d.reacted ++
    if d.InStartMenu scr mx my then [.startMenu]
      else if (d.taskbarAt scr mx my).isSome then [.taskbar] else [] := by
  unfold Desktop.clickMenuOrTaskbar
  split
  · exact clickStartMenu_reacted
  · cases d.taskbarAt scr mx my with
    | none => exact (List.append_nil _).symm
    | some i => rfl

/-- The click handling of the menus leaves what the controls depend on, windows apart. -/
theorem clickMenuOrTaskbar_reads (scr : Screen) (d : Desktop) (mx my : Int) :
    (d.clickMenuOrTaskbar scr mx my).files = d.files ∧
      (d.clickMenuOrTaskbar scr mx my).currentTab = d.currentTab := by
  unfold Desktop.clickMenuOrTaskbar Desktop.clickStartMenu
  split
  · split
    · next name _ =>
        obtain ⟨wm, calls, he⟩ := launch_eq d name
        rw [he]
        exact ⟨rfl, rfl⟩
    · split <;> exact ⟨rfl, rfl⟩
  · split <;> exact ⟨rfl, rfl⟩

/-- The window of a launched application is the active one, if there was room for it. -/
theorem getActive_launch (h : d.wm.WF) (name : List UInt8) :
    (d.launch name).wm.getActive = d.launched name := by
  unfold Desktop.launch Desktop.launched
  cases appFind shellRegistry name with
  | none => rfl
  | some app => exact getActive_addWindow h _ _ _ _ _ _

/-- The controls do not read the flags that the taskbar changes, so they are those of the window
that was found under the press. -/
theorem controlAt_front (h : d.wm.WF) :
    controlAt d.files d.currentTab (d.clickMenuOrTaskbar scr mx my).wm.getActive mx my =
      controlAt d.files d.currentTab (d.frontWindow scr mx my) mx my := by
  unfold Desktop.clickMenuOrTaskbar Desktop.frontWindow Desktop.clickStartMenu
  split
  · cases startMenuItem scr my with
    | some name => exact congrArg (controlAt d.files d.currentTab · mx my) (getActive_launch h name)
    | none =>
        dsimp only
        split <;> rfl
  · cases ht : d.taskbarAt scr mx my with
    | none => rfl
    | some i =>
        obtain ⟨w, hw, ho⟩ : ∃ w, d.wm.windows[i]? = some w ∧ w.closed = false := by
          unfold Desktop.taskbarAt at ht
          split at ht
          · exact (taskbarSlot_open ht).2
          · cases ht
        have hfocus := getActive_focusWindow hw ho
        dsimp only [Desktop.clickTaskbar, Desktop.react]
        rw [hfocus, hw]
        rfl

/-- The click handling adds the layers whose test accepts the press, in the order of the tests. -/
theorem clickPress_reacted (scr : Screen) (mx my : Int) (h : d.wm.WF) :
    (clickPress scr d mx my).reacted = d.reacted ++ d.clickLayers scr mx my := by
  unfold clickPress Desktop.clickLayers
  split
  · exact clickContextMenu_reacted
  · cases d.launcherAt mx my with
    | some icon => exact launch_reacted _ _
    | none =>
        simp only [Option.isSome_none, Bool.false_eq_true, if_false]
        split
        · rfl
        · obtain ⟨hfiles, htab⟩ := clickMenuOrTaskbar_reads scr d mx my
          rw [← List.append_assoc, ← clickMenuOrTaskbar_reacted, ← controlAt_front h]
          unfold Desktop.leaveStartMenu Desktop.clickContent
          rw [hfiles, htab]
          split
          · next c hc =>
              rw [hc]
              exact congrArg (· ++ _) (press_reacted _ c)
          · next hc =>
              rw [hc]
              exact (List.append_nil _).symm

/-! ## From the press to the click handling -/

/-- The windows when the click handling starts. -/
def Desktop.routedWm (d : Desktop) (mx my : Int) : Wm (List UInt8) AppEntry :=
  if d.grabs mx my = none then wmHandleMouse d.wm mx my true else d.wm

/-- The layers that answer before the click handling. -/
def Desktop.routedLayers (d : Desktop) (mx my : Int) : List Layer :=
  if d.grabs mx my = none then if wmHandleMouse d.wm mx my true = d.wm then [] else [.windows]
  else [.desktop]

/-- The desktop when the click handling starts, for some icon that is being dragged or none. -/
def Desktop.routed (d : Desktop) (mx my : Int) (i : Option Nat) (ox oy : Int) : Desktop :=
  { d with
    wm := d.routedWm mx my, draggingIconIdx := i, dragIconOffX := ox, dragIconOffY := oy
    reacted := d.routedLayers mx my }

/-- A new press starts a drag on an icon that the active window does not cover. -/
theorem iconDragging_press (scr : Screen) (mx my : Int) (hl : d.lastMbl = false)
    (hi : d.draggingIconIdx = none) :
    iconDragging scr d mx my true =
      match d.grabs mx my with
      | some (icon, i) =>
        { d.react .desktop with
          draggingIconIdx := some i, dragIconOffX := mx - icon.x, dragIconOffY := my - icon.y }
      | none => d := by
  unfold iconDragging Desktop.grabs
  rw [if_pos rfl, hi]
  dsimp only
  cases d.clickedWindow mx my with
  | true => rw [if_neg (by simp), if_pos rfl]
  | false =>
      rw [if_pos ⟨rfl, by simp [hl]⟩]
      cases d.iconAt mx my <;> rfl

/-- Icon dragging and window routing change the windows and nothing the click handling reads. -/
theorem routeMouse_eq (scr : Screen) (mx my : Int) (hl : d.lastMbl = false)
    (hi : d.draggingIconIdx = none) :
    ∃ i ox oy, routeMouse (iconDragging scr { d with reacted := [] } mx my true) mx my true =
      d.routed mx my i ox oy := by
  have hdrag := iconDragging_press (d := { d with reacted := [] }) scr mx my hl hi
  have hgrabs : Desktop.grabs { d with reacted := [] } mx my = d.grabs mx my := rfl
  rw [hgrabs] at hdrag
  rw [hdrag]
  unfold Desktop.routed Desktop.routedWm Desktop.routedLayers
  cases d.grabs mx my with
  | some p => exact ⟨some p.2, mx - p.1.x, my - p.1.y, rfl⟩
  | none =>
      refine ⟨none, d.dragIconOffX, d.dragIconOffY, ?_⟩
      unfold routeMouse
      dsimp only
      rw [hi, if_pos rfl, if_pos rfl]
      rfl

/-! ## The exact condition -/

/-- Before the click handling an icon whose drag starts answers, or the windows do, if the press
changes something there. -/
theorem routedLayers_iff (h : d.Inv) (hl : d.lastMbl = false) {t : Layer} :
    (∀ l ∈ d.routedLayers mx my, t = l) ↔
      ((d.grabs mx my).isSome → t = .desktop) ∧
        (d.grabs mx my = none → d.wm.Acts mx my → t = .windows) := by
  have hself := wmHandleMouse_eq_self_iff h.wf (h.window hl) mx my
  unfold Desktop.routedLayers
  cases d.grabs mx my with
  | some p => simp
  | none =>
      by_cases hacts : d.wm.Acts mx my
      · have hne : wmHandleMouse d.wm mx my true ≠ d.wm := fun he => hself.1 he hacts
        simp [hne, hacts]
      · simp [hself.2 hacts, hacts]

/-- The taskbar is tested after the press may have closed a window. -/
theorem taskbarAt_routed (scr : Screen) (mx my : Int) (h : d.Inv) (hl : d.lastMbl = false)
    {e : Desktop} (he : e.wm = d.routedWm mx my) :
    (e.taskbarAt scr mx my).isSome ↔ OnTaskbarButton scr (d.openLeft mx my) mx my := by
  have hcount : openCount e.wm.windows = d.openLeft mx my := by
    rw [he]
    unfold Desktop.routedWm Desktop.openLeft
    by_cases hg : d.grabs mx my = none
    · rw [if_pos hg, openCount_press h.wf (h.window hl)]
      simp only [hg, true_and]
    · rw [if_neg hg, if_neg (fun hp => hg hp.1)]
  unfold Desktop.taskbarAt OnTaskbarButton
  split
  · next hy => rw [taskbarSlot_isSome, hcount, and_iff_right hy]
  · next hy => exact iff_of_false (by simp) (fun hp => hy hp.1)

/-- When all layers that answer in the click handling are the layer `t`, test by test. -/
theorem clickLayers_iff {t : Layer} : (∀ l ∈ d.clickLayers scr mx my, t = l) ↔
    (d.menuVisible = true → d.OnContextMenu mx my → t = .contextMenu) ∧
    (d.menuVisible = false → (d.launcherAt mx my).isSome → t = .desktop) ∧
    (d.Passes mx my → OnStartButton scr mx my → t = .taskbar) ∧
    (d.Passes mx my → ¬ OnStartButton scr mx my → d.InStartMenu scr mx my → t = .startMenu) ∧
    (d.Passes mx my → ¬ OnStartButton scr mx my → ¬ d.InStartMenu scr mx my →
      (d.taskbarAt scr mx my).isSome → t = .taskbar) ∧
    (d.Passes mx my → ¬ OnStartButton scr mx my →
      (controlAt d.files d.currentTab (d.frontWindow scr mx my) mx my).isSome → t = .windows) := by
  unfold Desktop.clickLayers Desktop.Passes
  cases d.menuVisible with
  | true => simp
  | false =>
      cases d.launcherAt mx my with
      | some icon => simp
      | none =>
          by_cases hs : OnStartButton scr mx my
          · simp [hs]
          · by_cases hm : d.InStartMenu scr mx my <;> simp [hs, hm, or_imp, forall_and]

/-- The layers that answer in one iteration: those of the dragging and the routing, and those of the
click handling, which starts in a desktop that differs in the windows. -/
theorem mouseIteration_reacted (scr : Screen) (mx my : Int) (h : d.Inv) (hl : d.lastMbl = false)
    (right : Bool) :
    ∃ i ox oy, (mouseIteration scr d mx my true right).reacted = d.routedLayers mx my ++
      (d.routed mx my i ox oy).clickLayers scr mx my := by
  obtain ⟨i, ox, oy, he⟩ := routeMouse_eq scr mx my hl (h.icon hl)
  have hwf : (d.routedWm mx my).WF := by
    unfold Desktop.routedWm
    split
    · exact wmHandleMouse_wf h.wf mx my true
    · exact h.wf
  refine ⟨i, ox, oy, ?_⟩
  have hclick := clickPress_reacted (d := d.routed mx my i ox oy) scr mx my hwf
  unfold mouseIteration
  dsimp only
  rw [he, if_pos ⟨rfl, by simp [Desktop.routed, hl]⟩]
  obtain ⟨x, y, v, hright⟩ := rightPress_eq _ mx my right
  rw [hright]
  exact hclick

/-- A press goes only to the layer on top exactly when every test that accepts it belongs to that
layer: `shell_loop` makes its tests in an order of its own, and several of them may accept one
press. -/
theorem desktop_press_top_iff (logoPng : List UInt8) (hr : d.Reached scr logoPng)
    (hnew : d.lastMbl = false) (right : Bool) :
    OnlyTopReacts scr d mx my right ↔ PressGuard scr d mx my := by
  have hinv := hr.inv
  obtain ⟨i, ox, oy, hreacted⟩ :=
    mouseIteration_reacted scr mx my hinv hnew right
  have hbar := taskbarAt_routed scr mx my hinv hnew
    (e := d.routed mx my i ox oy) rfl
  -- where the windows may not answer, they have not changed
  have hfront : (d.grabs mx my = none → d.wm.Acts mx my → d.topLayer scr mx my = .windows) →
      d.topLayer scr mx my ≠ .windows →
        (d.routed mx my i ox oy).frontWindow scr mx my = d.frontWindow scr mx my := by
    intro hrouting htop
    have hsame : d.routedWm mx my = d.wm := by
      unfold Desktop.routedWm
      split
      · next hg =>
          exact (wmHandleMouse_eq_self_iff hinv.wf (hinv.window hnew) mx my).2 fun ha =>
            htop (hrouting hg ha)
      · rfl
    unfold Desktop.routed
    rw [hsame]
    rfl
  unfold OnlyTopReacts
  rw [hreacted, List.forall_mem_append, routedLayers_iff hinv hnew, clickLayers_iff]
  constructor
  · rintro ⟨⟨hdragging, hrouting⟩, hcontext, hlauncher, hstart, hmenu, htaskbar, hcontrols⟩
    refine ⟨hdragging, hrouting, hcontext, hlauncher, hstart, hmenu, ?_, ?_⟩
    · exact fun hp hs hm hb => htaskbar hp hs hm (hbar.2 hb)
    · intro hp hs hc
      by_contra htop
      exact htop (hcontrols hp hs (by rw [hfront hrouting htop]; exact hc))
  · rintro ⟨hdragging, hrouting, hcontext, hlauncher, hstart, hmenu, htaskbar, hcontrols⟩
    refine ⟨⟨hdragging, hrouting⟩, hcontext, hlauncher, hstart, hmenu, ?_, ?_⟩
    · exact fun hp hs hm hb => htaskbar hp hs hm (hbar.1 hb)
    · intro hp hs hc
      by_contra htop
      rw [hfront hrouting htop] at hc
      exact htop (hcontrols hp hs hc)

/-- At boot, a press on START reaches the taskbar alone. -/
theorem desktop_press_top_start : PressGuard ⟨1024, 768⟩ (bootDesktop []) 50 745 :=
  (desktop_press_top_iff [] (Machine.Reachable.refl _ _) rfl false).1 (by
    unfold OnlyTopReacts
    decide +kernel)

/-- The context menu opened on the title bar of the terminal: a press on its first entry also starts
to drag the terminal. -/
theorem desktop_press_top_fails : ¬ ∀ (scr : Screen) (logoPng : List UInt8) (d : Desktop),
    d.Reached scr logoPng → d.lastMbl = false → ∀ (mx my : Int) (right : Bool),
      OnlyTopReacts scr d mx my right := by
  intro h
  have hr : (desktopStep ⟨1024, 768⟩ (bootDesktop []) (.mouse 300 90 false true)).Reached
      ⟨1024, 768⟩ [] := (Machine.Reachable.refl _ _).step _
  have htop := h _ _ _ hr rfl 310 95 false .windows (by decide +kernel)
  revert htop
  decide +kernel

/-! ## The two cases the law is for -/

/-- The layers in the order in which they are painted. -/
def Layer.rank : Layer → Nat
  | .desktop => 0
  | .windows => 1
  | .taskbar => 2
  | .contextMenu => 3
  | .startMenu => 4

/-- No painted layer is above the one on top. -/
theorem rank_le_topLayer {l : Layer} (h : l ∈ d.layersAt scr mx my) :
    l.rank ≤ (d.topLayer scr mx my).rank := by
  unfold Desktop.topLayer
  unfold Desktop.layersAt at h ⊢
  revert h
  cases l <;> split_ifs <;> simp [Layer.rank]

/-- The layers that answer include the icons when one is grabbed, and the windows when the routing
changes them. -/
theorem routedLayers_reacted (hinv : d.Inv) (hnew : d.lastMbl = false) {l : Layer}
    (hl : l ∈ d.routedLayers mx my) : l ∈ (mouseIteration scr d mx my true right).reacted := by
  obtain ⟨i, ox, oy, he⟩ := mouseIteration_reacted scr mx my hinv hnew right
  rw [he]
  exact List.mem_append_left _ hl

/-- Where the desktop is not on top, a press that only the top layer answers drags no icon and is
answered by none. -/
theorem OnlyTopReacts.not_grabs (h : OnlyTopReacts scr d mx my right) (hinv : d.Inv)
    (hnew : d.lastMbl = false) (htop : d.topLayer scr mx my ≠ .desktop) :
    d.grabs mx my = none ∧ .desktop ∉ (mouseIteration scr d mx my true right).reacted := by
  have hicons : .desktop ∉ (mouseIteration scr d mx my true right).reacted :=
    fun hmem => htop (h _ hmem)
  refine ⟨?_, hicons⟩
  by_contra hg
  exact hicons (routedLayers_reacted hinv hnew (by simp [Desktop.routedLayers, hg]))

/-- Inside an open window, a press neither launches an icon nor starts to drag one. -/
theorem OnlyTopReacts.window (h : OnlyTopReacts scr d mx my right) (hinv : d.Inv)
    (hnew : d.lastMbl = false) {w : Window (List UInt8) AppEntry} (hw : w ∈ d.wm.windows)
    (ho : w.closed = false) (hf : w.FrameHas mx my) :
    d.grabs mx my = none ∧ .desktop ∉ (mouseIteration scr d mx my true right).reacted := by
  refine h.not_grabs hinv hnew fun htop => ?_
  have hmem : .windows ∈ d.layersAt scr mx my := by
    simp [Desktop.layersAt, topPainted_ne_none hw ho hf]
  have hrank := rank_le_topLayer hmem
  rw [htop] at hrank
  exact absurd hrank (by decide)

/-- Inside a visible menu, a press changes nothing through `wm_handle_mouse` and launches no
icon. -/
theorem OnlyTopReacts.menu (h : OnlyTopReacts scr d mx my right) (hinv : d.Inv)
    (hnew : d.lastMbl = false) {l : Layer} (hl : l ∈ d.layersAt scr mx my)
    (hmenu : l = .contextMenu ∨ l = .startMenu) : d.routedWm mx my = d.wm ∧
      d.grabs mx my = none ∧ .desktop ∉ (mouseIteration scr d mx my true right).reacted := by
  have hrank : 3 ≤ (d.topLayer scr mx my).rank := by
    have hle := rank_le_topLayer hl
    rcases hmenu with rfl | rfl
    · exact hle
    · exact Nat.le_of_succ_le hle
  obtain ⟨hg, hicons⟩ := h.not_grabs hinv hnew fun htop => by
    rw [htop] at hrank
    exact absurd hrank (by decide)
  refine ⟨?_, hg, hicons⟩
  unfold Desktop.routedWm
  rw [if_pos hg]
  by_contra hne
  have hmem : .windows ∈ d.routedLayers mx my := by simp [Desktop.routedLayers, hg, hne]
  rw [h _ (routedLayers_reacted hinv hnew hmem)] at hrank
  exact absurd hrank (by decide)

end

end OnkenOS
