import OnkenOS.Apps.Files
import OnkenOS.Apps.Yano
import OnkenOS.Drivers.Ps2
import OnkenOS.Gui.HitTest
import OnkenOS.Kernel.FsInit

/-!
# The desktop

`shell_loop` of `shell/shell.c`: the Super key and Alt+Tab, the mouse part of an iteration and
the order in which the render pass paints. The variables that only decide whether a frame is drawn
again (`full_redraw`, `last_mx`, `last_my`) are left out, and so are the clock, the workbench bar
and the task switcher, which take no press.

`reacted` is the one field the source does not have, and no branch reads it: it records which
layer of the screen answered the press of an iteration. Closing an open menu by a press elsewhere is
not an answer of the menu.
-/

namespace OnkenOS

/-- `icon_t`, without the label and the colour that `draw_icon` reads. -/
structure Icon where
  x : Int
  y : Int
  w : Int
  h : Int
  appName : List UInt8
deriving DecidableEq

/-- `icons`, as it is initialised. -/
def initialIcons : List Icon :=
  [⟨60, 60, 64, 64, str "browser"⟩, ⟨60, 160, 64, 64, str "terminal"⟩,
   ⟨60, 260, 64, 64, str "files"⟩]

/-- What the render pass paints, in its order. The wallpaper and the icons are one layer. -/
inductive Layer where
  | desktop
  | windows
  | taskbar
  | contextMenu
  | startMenu
deriving DecidableEq, Repr

/-- A call that leaves the shell. -/
inductive ShellCall where
  | launch (l : Launch)
  | renderWallpaper
  | soundEnqueue (frequency durationMs : Nat)
  | soundStop
  | outw (port val : Nat)
deriving DecidableEq

/-- The variables `shell_loop` works on, its own and those of the modules it calls, and the calls
it has made. -/
structure Desktop where
  wm : Wm (List UInt8) AppEntry
  files : Files
  icons : List Icon
  draggingIconIdx : Option Nat
  dragIconOffX : Int
  dragIconOffY : Int
  startMenuVisible : Bool
  menuVisible : Bool
  menuX : Int
  menuY : Int
  uiTheme : Int
  wallpaperMode : Int
  currentTab : Int
  playerSelectedBtn : Int
  lastMbl : Bool
  lastMbr : Bool
  calls : List ShellCall
  reacted : List Layer

/-- A layer answers the press. -/
def Desktop.react (d : Desktop) (l : Layer) : Desktop := { d with reacted := d.reacted ++ [l] }

/-! ## Launching -/

/-- Where the `launch` functions put their windows: `x`, `y`, `w`, `h`. -/
def launchRects : List (List UInt8 × BitVec 32 × BitVec 32 × BitVec 32 × BitVec 32) :=
  [(str "terminal", 200, 80, 750, 520), (str "files", 200, 150, 600, 400),
   (str "yano", 180, 100, 600, 400), (str "htop", 150, 150, 600, 320),
   (str "settings", 250, 200, 420, 320), (str "sysinfo", 200, 100, 500, 300),
   (str "imageviewer", 150, 100, 400, 340), (str "player", 100, 200, 420, 240),
   (str "browser", 150, 100, 800, 500)]

/-- The title `launch` gives the window. The editor prints the file's name into its own. -/
def launchTitle (l : Launch) : List UInt8 :=
  if l.app.name = str "yano" then str "yano - " ++ launchedFile l.args
  else l.app.title

/-- The place and size of the window. -/
def launchRect (l : Launch) : BitVec 32 × BitVec 32 × BitVec 32 × BitVec 32 :=
  (launchRects.lookup l.app.name).getD (0, 0, 0, 0)

/-- The `wm_add_window` call of a `launch` function. -/
def launchWindow (l : Launch) : WmEvent (List UInt8) AppEntry :=
  let (x, y, w, h) := launchRect l
  .addWindow x y w h (launchTitle l) (some l.app)

/-- `app->launch(args)`, as far as the shell sees it. -/
def Desktop.launchApp (d : Desktop) (l : Launch) : Desktop :=
  { d with wm := wmStep d.wm (launchWindow l), calls := d.calls ++ [.launch l] }

/-- `app_entry_t* app = app_find(name); if (app) app->launch(0);` -/
def Desktop.launch (d : Desktop) (name : List UInt8) : Desktop :=
  match appFind shellRegistry name with
  | none => d
  | some app => d.launchApp ⟨app, none⟩

/-! ## Icons -/

/-- The box of an icon, which starts a drag. -/
def Icon.OnIcon (i : Icon) (mx my : Int) : Prop :=
  i.x ≤ mx ∧ mx ≤ i.x + i.w ∧ i.y ≤ my ∧ my ≤ i.y + i.h

/-- The box and the label below it, which launch. -/
def Icon.OnLauncher (i : Icon) (mx my : Int) : Prop :=
  i.x ≤ mx ∧ mx ≤ i.x + i.w ∧ i.y ≤ my ∧ my ≤ i.y + i.h + 16

instance (i : Icon) (mx my : Int) : Decidable (i.OnIcon mx my) :=
  inferInstanceAs (Decidable (_ ∧ _))
instance (i : Icon) (mx my : Int) : Decidable (i.OnLauncher mx my) :=
  inferInstanceAs (Decidable (_ ∧ _))

/-- `clicked_window`: only the active window is tested. -/
def Desktop.clickedWindow (d : Desktop) (mx my : Int) : Bool :=
  match d.wm.openActive with
  | none => false
  | some (_, w) => decide (w.OnClickArea mx my)

/-- The first icon a press can drag, with its number. -/
def Desktop.iconAt (d : Desktop) (mx my : Int) : Option (Icon × Nat) :=
  d.icons.zipIdx.find? fun p => decide (p.1.OnIcon mx my)

/-- The first icon a press can launch. -/
def Desktop.launcherAt (d : Desktop) (mx my : Int) : Option Icon :=
  d.icons.find? fun i => decide (i.OnLauncher mx my)

/-- `if (v < lo) v = lo;` and then `if (v > hi) v = hi;` -/
def keepWithin (lo hi v : Int) : Int :=
  let v := if v < lo then lo else v
  if v > hi then hi else v

/-- The drag in progress, of icon `i`. -/
def Desktop.dragIcon (scr : Screen) (d : Desktop) (i : Nat) (mx my : Int) : Desktop :=
  { d with icons := d.icons.modify i fun icon =>
      { icon with
        x := keepWithin 10 (scr.fbWidth.toInt - 80) (mx - d.dragIconOffX)
        y := keepWithin 26 (scr.fbHeight.toInt - 120) (my - d.dragIconOffY) } }

/-- The desktop icon dragging logic. -/
def iconDragging (scr : Screen) (d : Desktop) (mx my : Int) (left : Bool) : Desktop :=
  if left then
    match d.draggingIconIdx with
    | some i => d.dragIcon scr i mx my
    | none =>
      if d.clickedWindow mx my = false ∧ left ≠ d.lastMbl then
        match d.iconAt mx my with
        | some (icon, i) =>
          { d.react .desktop with
            draggingIconIdx := some i
            dragIconOffX := mx - icon.x
            dragIconOffY := my - icon.y }
        | none => d
      else d
  else { d with draggingIconIdx := none }

/-! ## Window routing -/

/-- The call of `wm_handle_mouse`. -/
def routeMouse (d : Desktop) (mx my : Int) (left : Bool) : Desktop :=
  match d.draggingIconIdx with
  | some _ => d
  | none =>
    let wm := wmHandleMouse d.wm mx my left
    { d with wm := wm, reacted := if wm = d.wm then d.reacted else d.reacted ++ [.windows] }

/-! ## Menus and taskbar -/

/-- The context menu's box. -/
def Desktop.OnContextMenu (d : Desktop) (mx my : Int) : Prop :=
  d.menuX ≤ mx ∧ mx ≤ d.menuX + 150 ∧ d.menuY ≤ my ∧ my ≤ d.menuY + 80

instance (d : Desktop) (mx my : Int) : Decidable (d.OnContextMenu mx my) :=
  inferInstanceAs (Decidable (_ ∧ _))

/-- A press while the context menu is open. -/
def Desktop.clickContextMenu (d : Desktop) (mx my : Int) : Desktop :=
  let d' : Desktop :=
    if d.OnContextMenu mx my then
      let d := d.react .contextMenu
      let clickOffsetY := my - d.menuY
      if clickOffsetY < 27 then d
      else if clickOffsetY < 54 then
        { d with
          wallpaperMode := if d.wallpaperMode = 1 then 0 else 1
          calls := d.calls ++ [.renderWallpaper] }
      else d.launch (str "settings")
    else d
  { d' with menuVisible := false }

/-- A box between two distances from the lower edge of the screen, bounds included. -/
def FromBottom (scr : Screen) (x₀ x₁ top bottom : Int) (mx my : Int) : Prop :=
  x₀ ≤ mx ∧ mx ≤ x₁ ∧ scr.fbHeight.toInt - top ≤ my ∧ my ≤ scr.fbHeight.toInt - bottom

instance (scr : Screen) (x₀ x₁ top bottom mx my : Int) :
    Decidable (FromBottom scr x₀ x₁ top bottom mx my) :=
  inferInstanceAs (Decidable (_ ∧ _))

/-- The START button. -/
def OnStartButton (scr : Screen) (mx my : Int) : Prop := FromBottom scr 10 110 38 8 mx my

/-- The area of the start menu. -/
def OnStartMenu (scr : Screen) (mx my : Int) : Prop := FromBottom scr 10 210 400 50 mx my

instance (scr : Screen) (mx my : Int) : Decidable (OnStartButton scr mx my) :=
  inferInstanceAs (Decidable (FromBottom ..))
instance (scr : Screen) (mx my : Int) : Decidable (OnStartMenu scr mx my) :=
  inferInstanceAs (Decidable (FromBottom ..))

/-- The items of the start menu that launch: the distances of their rows from the lower edge. -/
def startMenuItems : List (Int × Int × List UInt8) :=
  [(348, 320, str "browser"), (308, 280, str "sysinfo"), (268, 240, str "files"),
   (228, 200, str "settings"), (188, 160, str "player"), (148, 120, str "imageviewer")]

/-- The item on the row of the press. -/
def startMenuItem (scr : Screen) (my : Int) : Option (List UInt8) :=
  (startMenuItems.find? fun (top, bottom, _) =>
    decide (scr.fbHeight.toInt - top ≤ my ∧ my ≤ scr.fbHeight.toInt - bottom)).map (·.2.2)

/-- A press in the area of the open start menu. -/
def Desktop.clickStartMenu (scr : Screen) (d : Desktop) (my : Int) : Desktop :=
  let d' : Desktop :=
    match startMenuItem scr my with
    | some name => d.launch name
    | none =>
      if scr.fbHeight.toInt - 98 ≤ my ∧ my ≤ scr.fbHeight.toInt - 70 then
        { d with calls := d.calls ++ [.outw 0x604 0x2000, .outw 0xB004 0x2000] }
      else d
  { d' with startMenuVisible := false, reacted := d'.reacted ++ [.startMenu] }

/-- The loop over the taskbar buttons, at slot `i` with the next button at `tbX`. -/
def taskbarSlot {τ δ : Type} (mx : Int) : List (Window τ δ) → Int → Nat → Option Nat
  | [], _, _ => none
  | w :: ws, tbX, i =>
    if w.closed then taskbarSlot mx ws tbX (i + 1)
    else if tbX ≤ mx ∧ mx ≤ tbX + 140 then some i
    else taskbarSlot mx ws (tbX + 145) (i + 1)

/-- The taskbar button under the press, by the slot of its window. -/
def Desktop.taskbarAt (scr : Screen) (d : Desktop) (mx my : Int) : Option Nat :=
  if scr.fbHeight.toInt - 38 ≤ my ∧ my ≤ scr.fbHeight.toInt - 8 then
    taskbarSlot mx d.wm.windows 120 0
  else none

/-- A press on the taskbar button of slot `i`. -/
def Desktop.clickTaskbar (d : Desktop) (i : Nat) : Desktop :=
  { d.react .taskbar with wm := wmFocusWindow (wmRestore d.wm i) (some i) }

/-- The start menu is open and the press is in its area. -/
def Desktop.InStartMenu (scr : Screen) (d : Desktop) (mx my : Int) : Prop :=
  d.startMenuVisible = true ∧ OnStartMenu scr mx my

instance (scr : Screen) (d : Desktop) (mx my : Int) : Decidable (d.InStartMenu scr mx my) :=
  inferInstanceAs (Decidable (_ ∧ _))

/-- The start menu, or else the taskbar buttons. -/
def Desktop.clickMenuOrTaskbar (scr : Screen) (d : Desktop) (mx my : Int) : Desktop :=
  if d.InStartMenu scr mx my then d.clickStartMenu scr my
  else
    match d.taskbarAt scr mx my with
    | some i => d.clickTaskbar i
    | none => d

/-! ## Controls inside windows -/

/-- What a press on a control of a window asks for. -/
inductive Control where
  | tab (n : Int)
  | theme (n : Int)
  | wallpaper (n : Int)
  | testSound
  | tune
  | successAlert
  | mute
  | openFile (l : Launch)

section
variable {δ : Type}

/-- A box placed relative to the window, bounds included. -/
def Window.InBox (w : Window (List UInt8) δ) (x₀ x₁ y₀ y₁ mx my : Int) : Prop :=
  w.x.toInt + x₀ ≤ mx ∧ mx ≤ w.x.toInt + x₁ ∧ w.y.toInt + y₀ ≤ my ∧ my ≤ w.y.toInt + y₁

instance (w : Window (List UInt8) δ) (x₀ x₁ y₀ y₁ mx my : Int) :
    Decidable (w.InBox x₀ x₁ y₀ y₁ mx my) :=
  inferInstanceAs (Decidable (_ ∧ _))

/-- The Settings window. A press on the row of tabs is on none of the buttons, so no press meets
the tab it has just switched to. -/
def settingsControl (currentTab : Int) (w : Window (List UInt8) δ) (mx my : Int) :
    Option Control :=
  if w.InBox 10 110 30 55 mx my then some (.tab 0)
  else if w.InBox 115 215 30 55 mx my then some (.tab 1)
  else if w.InBox 220 320 30 55 mx my then some (.tab 2)
  else if currentTab = 0 then
    if w.InBox 20 200 90 120 mx my then some (.theme 1)
    else if w.InBox 20 200 130 160 mx my then some (.theme 0)
    else if w.InBox 20 200 200 230 mx my then some (.wallpaper 1)
    else if w.InBox 20 200 240 270 mx my then some (.wallpaper 0)
    else none
  else if currentTab = 2 then
    if w.InBox 20 200 160 190 mx my then some .testSound else none
  else none

/-- The Sound Player window. -/
def playerControl (w : Window (List UInt8) δ) (mx my : Int) : Option Control :=
  if w.InBox 20 200 70 100 mx my then some .tune
  else if w.InBox 220 400 70 100 mx my then some .successAlert
  else if w.InBox 20 400 120 150 mx my then some .mute
  else none

/-- The control of the active window under the press, for the three titles the shell knows. -/
def controlAt (files : Files) (currentTab : Int) (activeW : Option (Window (List UInt8) δ))
    (mx my : Int) : Option Control :=
  match activeW with
  | none => none
  | some w =>
    if w.closed then none
    else if strcmp w.title (str "Settings") = 0 then settingsControl currentTab w mx my
    else if strcmp w.title (str "Sound Player") = 0 then playerControl w mx my
    else (filesClick shellRegistry files (some w) mx my).map .openFile

end

/-- The body of a control's branch. -/
def Desktop.press (d : Desktop) : Control → Desktop
  | .tab n => { d with currentTab := n }
  | .theme n => { d with uiTheme := n, calls := d.calls ++ [.renderWallpaper] }
  | .wallpaper n => { d with wallpaperMode := n, calls := d.calls ++ [.renderWallpaper] }
  | .testSound => { d with calls := d.calls ++ [.soundEnqueue 1000 200] }
  | .tune =>
    { d with
      playerSelectedBtn := 0
      calls := d.calls ++
        [.soundEnqueue 261 150, .soundEnqueue 0 50, .soundEnqueue 329 150, .soundEnqueue 0 50,
         .soundEnqueue 392 150, .soundEnqueue 0 50, .soundEnqueue 523 300] }
  | .successAlert =>
    { d with
      playerSelectedBtn := 1
      calls := d.calls ++
        [.soundEnqueue 523 100, .soundEnqueue 0 20, .soundEnqueue 659 100, .soundEnqueue 0 20,
         .soundEnqueue 784 100, .soundEnqueue 0 20, .soundEnqueue 1046 250] }
  | .mute => { d with playerSelectedBtn := 2, calls := d.calls ++ [.soundStop] }
  | .openFile l => d.launchApp l

/-- `wm_get_active()`, dereferenced. -/
def Wm.getActive {τ δ : Type} (s : Wm τ δ) : Option (Window τ δ) :=
  s.activeWindow.bind fun a => s.windows[a]?

/-- The click handlers of the active window. -/
def Desktop.clickContent (d : Desktop) (mx my : Int) : Desktop :=
  match controlAt d.files d.currentTab d.wm.getActive mx my with
  | some c => (d.press c).react .windows
  | none => d

/-! ## A press -/

/-- `if (start_menu_visible && mouse_x > 210) start_menu_visible = 0;` -/
def Desktop.leaveStartMenu (d : Desktop) (mx : Int) : Desktop :=
  { d with startMenuVisible := d.startMenuVisible && !decide (mx > 210) }

/-- The click handling of a new press, up to `end_click_processing`. -/
def clickPress (scr : Screen) (d : Desktop) (mx my : Int) : Desktop :=
  if d.menuVisible then d.clickContextMenu mx my
  else
    match d.launcherAt mx my with
    | some icon => { (d.react .desktop).launch icon.appName with startMenuVisible := false }
    | none =>
      if OnStartButton scr mx my then
        { d.react .taskbar with startMenuVisible := !d.startMenuVisible }
      else ((d.clickMenuOrTaskbar scr mx my).clickContent mx my).leaveStartMenu mx

/-- The right button opens the context menu. -/
def rightPress (d : Desktop) (mx my : Int) (right : Bool) : Desktop :=
  if right = true ∧ right ≠ d.lastMbr then { d with menuX := mx, menuY := my, menuVisible := true }
  else d

/-- The mouse part of an iteration of `shell_loop`. -/
def mouseIteration (scr : Screen) (d : Desktop) (mx my : Int) (left right : Bool) : Desktop :=
  let d := iconDragging scr { d with reacted := [] } mx my left
  let d := routeMouse d mx my left
  let d := if left = true ∧ left ≠ d.lastMbl then clickPress scr d mx my else d
  { rightPress d mx my right with lastMbl := left, lastMbr := right }

/-! ## Painting -/

/-- Rows `top` to `top + h`, columns `x` to `x + w`, as `fb_rect` fills them. -/
def Filled (x w top h : Nat) (mx my : Int) : Prop :=
  x ≤ mx ∧ mx < x + w ∧ top ≤ my ∧ my < top + h

instance (x w top h : Nat) (mx my : Int) : Decidable (Filled x w top h mx my) :=
  inferInstanceAs (Decidable (_ ∧ _))

/-- The layers the render pass paints at the point, in its order. -/
def Desktop.layersAt (scr : Screen) (d : Desktop) (mx my : Int) : List Layer :=
  [.desktop] ++
  (if d.wm.topPainted mx my ≠ none then [.windows] else []) ++
  (if Filled 0 scr.fbWidth.toNat (scr.fbHeight - 45).toNat 45 mx my then [.taskbar] else []) ++
  (if d.menuVisible = true ∧ d.menuX ≤ mx ∧ mx < d.menuX + 150 ∧ d.menuY ≤ my ∧ my < d.menuY + 80
    then [.contextMenu] else []) ++
  (if d.startMenuVisible = true ∧ Filled 10 200 (scr.fbHeight - 400).toNat 350 mx my
    then [.startMenu] else [])

/-- The layer painted last at the point. -/
def Desktop.topLayer (scr : Screen) (d : Desktop) (mx my : Int) : Layer :=
  (d.layersAt scr mx my).getLast?.getD .desktop

/-! ## Runs -/

/-- What can happen to the desktop: the parts of an iteration of `shell_loop`, and what an
application does to the windows and the disk when it starts or handles a key. -/
inductive DesktopEvent where
  | superKey
  | altTab
  | mouse (mx my : Int) (left right : Bool)
  | appLaunch (l : Launch)
  | appClose
  | appWrites (files : Files)

/-- One event. -/
def desktopStep (scr : Screen) (d : Desktop) : DesktopEvent → Desktop
  | .superKey => { d with startMenuVisible := !d.startMenuVisible }
  | .altTab => { d with wm := wmCycleDepth d.wm }
  | .mouse mx my left right => mouseIteration scr d mx my left right
  | .appLaunch l => d.launchApp l
  | .appClose => { d with wm := wmCloseActive d.wm }
  | .appWrites files => { d with files := files }

/-- The desktop when `shell_loop` enters its loop. -/
def bootDesktop (logoPng : List UInt8) : Desktop :=
  let d : Desktop :=
    { wm := wmInit Wm.static, files := vfsInit logoPng, icons := initialIcons
      draggingIconIdx := none, dragIconOffX := 0, dragIconOffY := 0
      startMenuVisible := false, menuVisible := false, menuX := 0, menuY := 0
      uiTheme := 1, wallpaperMode := 1, currentTab := 0, playerSelectedBtn := -1
      lastMbl := false, lastMbr := false, calls := [], reacted := [] }
  d.launch (str "terminal")

/-- A desktop some run reaches. -/
def Desktop.Reached (scr : Screen) (logoPng : List UInt8) (d : Desktop) : Prop :=
  Machine.Reachable (desktopStep scr) (bootDesktop logoPng) d

end OnkenOS
