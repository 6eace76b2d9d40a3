import OnkenOS.Apps.TerminalFits
import OnkenOS.Apps.Yano
import OnkenOS.Gui.Reorder
import OnkenOS.Kernel.Scheduler
import OnkenOS.Shell.Desktop

/-!
# The applications together

The `launch` functions of the applications, with the window each one opens and the task it creates,
and the keys that `shell_loop` hands to the application of the active window. The state is that of
the modules they touch.

`openedOn` and `lastFile` are the fields the source does not have, and no branch reads them:
`openedOn` is the file `yano_launch` was called for when it opened a window, by the serial number of
the window, and `lastFile` the file of its last call.
-/

namespace OnkenOS

open Machine

/-- The `const char*` of a window's title: a literal, or `window_title` of `yano.c`. -/
inductive Title where
  | literal (s : List UInt8)
  | yano
deriving DecidableEq

/-- The static variables of the modules. A draw function is named by its application. -/
structure Os where
  wm : Wm Title (List UInt8)
  sched : Scheduler
  files : Files
  term : Terminal
  yano : Yano
  currentImage : List UInt8
  openedOn : Nat → Option (List UInt8)
  lastFile : Option (List UInt8)

namespace Os

/-! ## Launching -/

/-- `wm_add_window(x, y, w, h, title, name##_draw); sys_create_task(name, 1);` -/
def openWindow (s : Os) (x y w h : BitVec 32) (title : Title) (name : List UInt8) : Os :=
  { s with
    wm := wmAddWindow s.wm x y w h title (some name)
    sched := (taskCreate s.sched name 1).1 }

/-- `browser_launch`. -/
def browserLaunch (s : Os) : Os :=
  s.openWindow 150 100 800 500 (.literal (str "Onken Browser")) (str "browser")

/-- `files_launch`. -/
def filesLaunch (s : Os) : Os :=
  s.openWindow 200 150 600 400 (.literal (str "File Explorer")) (str "files")

/-- `htop_launch`. -/
def htopLaunch (s : Os) : Os :=
  s.openWindow 150 150 600 320 (.literal (str "htop")) (str "htop")

/-- `player_launch`. -/
def playerLaunch (s : Os) : Os :=
  s.openWindow 100 200 420 240 (.literal (str "Sound Player")) (str "player")

/-- `settings_launch`. -/
def settingsLaunch (s : Os) : Os :=
  s.openWindow 250 200 420 320 (.literal (str "Settings")) (str "settings")

/-- `sysinfo_launch`. -/
def sysinfoLaunch (s : Os) : Os :=
  s.openWindow 200 100 500 300 (.literal (str "System Info")) (str "sysinfo")

/-- `imageviewer_launch`. -/
def imageviewerLaunch (s : Os) (args : Option (List UInt8)) : Os :=
  let image :=
    match args with
    | some args =>
        if strlen args > 0 then (strncpy s.currentImage args 31).set 31 0
        else strncpy s.currentImage (str "logo.png") 31
    | none => strncpy s.currentImage (str "logo.png") 31
  { s with currentImage := image }.openWindow 150 100 400 340 (.literal (str "Image Viewer"))
    (str "imageviewer")

/-- `yano_launch`. -/
def yanoLaunch (s : Os) (args : Option (List UInt8)) : Os :=
  let e := OnkenOS.yanoLaunch ⟨s.yano, s.files, false⟩ args
  { s with
    yano := e.yano
    files := e.files
    openedOn :=
      if s.wm.windowCount < maxWindows then
        Function.update s.openedOn s.wm.windowCount (some (launchedFile args))
      else s.openedOn
    lastFile := some (launchedFile args) }.openWindow 180 100 600 400 .yano (str "yano")

/-- What a command of the terminal finds, as far as it launches nothing. -/
def plainEnv (hw : Hardware) : Env := ⟨shellRegistry, hw, fun _ _ files => files⟩

/-- `terminal_launch`. -/
def terminalLaunch (hw : Hardware) (s : Os) : Os :=
  let s := s.openWindow 200 80 750 520 (.literal (str "Onken Terminal")) (str "terminal")
  { s with term := (OnkenOS.terminalLaunch (plainEnv hw) ⟨s.term, s.files, false, []⟩).term }

/-- The `launch` functions by the names of their applications. -/
def launchFns (hw : Hardware) : List (List UInt8 × (Os → Option (List UInt8) → Os)) :=
  [(str "terminal", fun s _ => s.terminalLaunch hw), (str "files", fun s _ => s.filesLaunch),
   (str "yano", yanoLaunch), (str "htop", fun s _ => s.htopLaunch),
   (str "settings", fun s _ => s.settingsLaunch), (str "sysinfo", fun s _ => s.sysinfoLaunch),
   (str "imageviewer", imageviewerLaunch), (str "player", fun s _ => s.playerLaunch),
   (str "browser", fun s _ => s.browserLaunch)]

/-- `app->launch(args)`. -/
def launch (hw : Hardware) (s : Os) (l : Launch) : Os :=
  match (launchFns hw).lookup l.app.name with
  | some f => f s l.args
  | none => s

/-! ## Keys -/

/-- The string a title points to. -/
def titleText (s : Os) : Title → List UInt8
  | .literal t => t
  | .yano => s.yano.windowTitle

/-- `app_find_by_title`. -/
def appFindByTitle (entries : List AppEntry) (title : List UInt8) : Option AppEntry :=
  entries.find? fun a =>
    strcmp a.title title == 0 || strncmp a.title title (strlen a.title) == 0

/-- `yano_handle_key`. -/
def yanoKey (s : Os) (ctrl : Bool) (c : UInt8) : Os :=
  let e := yanoHandleKey ⟨s.yano, s.files, false⟩ ctrl c
  { s with
    yano := e.yano
    files := e.files
    wm := if e.closed then wmCloseActive s.wm else s.wm }

/-- What a command of the terminal does to the other modules. -/
def effect (hw : Hardware) (s : Os) : Effect → Os
  | .launch app args => s.launch hw ⟨app, args⟩
  | .destroyTask pid => { s with sched := taskDestroy s.sched (BitVec.ofNat 32 pid) }
  | .sprintf _ _ => s
  | .print _ _ => s

/-- What a key of the terminal finds. -/
def env (hw : Hardware) (s : Os) : Env where
  registry := shellRegistry
  hw := hw
  launch app args files := (({ s with files := files } : Os).launch hw ⟨app, args⟩).files

/-- `terminal_handle_key`. A command that launches an application does nothing else to the other
modules, so what it does there is done after it. -/
def terminalKey (hw : Hardware) (s : Os) (c : UInt8) : Os :=
  let sh := terminalHandleKey (s.env hw) true c ⟨s.term, s.files, false, []⟩
  let s := sh.effects.foldl (effect hw) s
  { s with
    term := sh.term
    files := sh.files
    wm := if sh.closed then wmCloseActive s.wm else s.wm }

/-- `app->handle_key(c)`: of the other applications it is null. -/
def handleKey (hw : Hardware) (s : Os) (ctrl : Bool) (c : UInt8) (app : AppEntry) : Os :=
  if app.name = str "yano" then s.yanoKey ctrl c
  else if app.name = str "terminal" then s.terminalKey hw c
  else s

/-- The keystroke dispatcher of `shell_loop`. -/
def dispatchKey (hw : Hardware) (s : Os) (ctrl : Bool) (c : UInt8) : Os :=
  if c = 0 then s
  else
    match s.wm.openActive with
    | none => s
    | some (_, w) =>
        match appFindByTitle shellRegistry.entries (s.titleText w.title) with
        | none => s
        | some app => s.handleKey hw ctrl c app

end Os

/-! ## Runs -/

/-- What can happen: an application is launched, the user works with the windows, a key is
pressed, the timer ticks. -/
inductive OsEvent where
  | launch (hw : Hardware) (name : List UInt8) (args : Option (List UInt8))
  | gui (e : WmEvent Title (List UInt8))
  | key (hw : Hardware) (ctrl : Bool) (c : UInt8)
  | tick

/-- One event. Windows are added by the applications only. -/
def osStep (s : Os) : OsEvent → Os
  | .launch hw name args =>
      match appFind shellRegistry name with
      | none => s
      | some app => s.launch hw ⟨app, args⟩
  | .gui (.addWindow _ _ _ _ _ _) => s
  | .gui e => { s with wm := wmStep s.wm e }
  | .key hw ctrl c => s.dispatchKey hw ctrl c
  | .tick => { s with sched := schedulerTick s.sched }

/-- The static initialisers of `yano.c`. -/
def Yano.static : Yano where
  buf := fun _ => 0
  len := 0
  currentFilename := str "new.txt" ++ List.replicate 25 0
  windowTitle := str "yano - new.txt"
  filename_length := rfl
  filename_end := rfl

/-- After `scheduler_init` and the start of `shell_loop`, up to the launch of the terminal. -/
def Os.init (logoPng : List UInt8) : Os where
  wm := wmInit Wm.static
  sched := schedulerInit Scheduler.static
  files := vfsInit logoPng
  term := Terminal.static
  yano := Yano.static
  currentImage := str "sunset.bmp" ++ List.replicate 22 0
  openedOn := fun _ => none
  lastFile := none

/-- When the loop of `shell_loop` begins. -/
def Os.boot (hw : Hardware) (logoPng : List UInt8) : Os := (Os.init logoPng).terminalLaunch hw

/-- Booting leaves the files that `vfs_init` stores. -/
theorem boot_files (hw : Hardware) (logoPng : List UInt8) :
    (Os.boot hw logoPng).files = vfsInit logoPng := by
  simp only [Os.boot, Os.terminalLaunch, Os.openWindow, Os.init]

/-! ## What a launch does -/

/-- The title of an application's windows. -/
def launchedTitle (app : AppEntry) : Title :=
  if app.name = str "yano" then .yano else .literal app.title

/-- What every launch does, and which parts of the state only one application touches. -/
structure Launched (s s' : Os) (l : Launch) : Prop where
  wm : s'.wm = wmAddWindow s.wm (launchRect l).1 (launchRect l).2.1 (launchRect l).2.2.1
    (launchRect l).2.2.2 (launchedTitle l.app) (some l.app.name)
  sched : s'.sched = (taskCreate s.sched l.app.name 1).1
  term : l.app.name ≠ str "terminal" → s'.term = s.term
  files : l.app.name ≠ str "yano" → s'.files = s.files
  yano : l.app.name ≠ str "yano" → s'.yano = s.yano
  openedOn : l.app.name ≠ str "yano" → s'.openedOn = s.openedOn
  lastFile : l.app.name ≠ str "yano" → s'.lastFile = s.lastFile

/-- Every application launches in the same way: a window, a task, and what it does of its own. -/
theorem launch_launched (hw : Hardware) (s : Os) {l : Launch} (happ : l.app ∈ systemApps) :
    Launched s (s.launch hw l) l := by
  obtain ⟨app, args⟩ := l
  dsimp only at happ
  simp only [systemApps, List.mem_cons, List.not_mem_nil, or_false] at happ
  rcases happ with rfl | rfl | rfl | rfl | rfl | rfl | rfl | rfl | rfl
  · exact ⟨rfl, rfl, fun h => absurd rfl h, fun _ => rfl, fun _ => rfl, fun _ => rfl, fun _ => rfl⟩
  · exact ⟨rfl, rfl, fun _ => rfl, fun _ => rfl, fun _ => rfl, fun _ => rfl, fun _ => rfl⟩
  · exact ⟨rfl, rfl, fun _ => rfl, fun h => absurd rfl h, fun h => absurd rfl h,
      fun h => absurd rfl h, fun h => absurd rfl h⟩
  · exact ⟨rfl, rfl, fun _ => rfl, fun _ => rfl, fun _ => rfl, fun _ => rfl, fun _ => rfl⟩
  · exact ⟨rfl, rfl, fun _ => rfl, fun _ => rfl, fun _ => rfl, fun _ => rfl, fun _ => rfl⟩
  · exact ⟨rfl, rfl, fun _ => rfl, fun _ => rfl, fun _ => rfl, fun _ => rfl, fun _ => rfl⟩
  · exact ⟨rfl, rfl, fun _ => rfl, fun _ => rfl, fun _ => rfl, fun _ => rfl, fun _ => rfl⟩
  · exact ⟨rfl, rfl, fun _ => rfl, fun _ => rfl, fun _ => rfl, fun _ => rfl, fun _ => rfl⟩
  · exact ⟨rfl, rfl, fun _ => rfl, fun _ => rfl, fun _ => rfl, fun _ => rfl, fun _ => rfl⟩

/-- What has a `launch` function is an application of the registry. -/
theorem exists_systemApp (hw : Hardware) (name : List UInt8)
    (h : (Os.launchFns hw).lookup name ≠ none) : ∃ a ∈ systemApps, a.name = name := by
  by_contra hnot
  refine h (List.lookup_eq_none_iff.2 fun e he => ?_)
  rw [bne_iff_ne]
  rintro rfl
  have hnames : (Os.launchFns hw).map Prod.fst = systemApps.map AppEntry.name := rfl
  have hmem : e.1 ∈ (Os.launchFns hw).map Prod.fst := List.mem_map_of_mem he
  rw [hnames] at hmem
  exact hnot (List.mem_map.1 hmem)

/-- A launch is that of an application of the system, or nothing. -/
theorem launch_cases (hw : Hardware) (s : Os) (l : Launch) :
    s.launch hw l = s ∨
      ∃ l' : Launch, l'.app ∈ systemApps ∧ s.launch hw l = s.launch hw l' := by
  cases hfn : (Os.launchFns hw).lookup l.app.name with
  | none =>
      left
      unfold Os.launch
      rw [hfn]
  | some f =>
      obtain ⟨a, ha, hname⟩ := exists_systemApp hw l.app.name (by simp [hfn])
      refine .inr ⟨⟨a, l.args⟩, ha, ?_⟩
      unfold Os.launch
      rw [hname]

section
variable {l : Launch}

/-- Launching the terminal prints its banner and begins an empty line. -/
theorem launch_terminal (hw : Hardware) (s : Os) (h : l.app.name = str "terminal") :
    (s.launch hw l).term =
      (terminalLaunch (Os.plainEnv hw) ⟨s.term, s.files, false, []⟩).term := by
  unfold Os.launch
  rw [h]
  rfl

/-- Launching the editor is `yano_launch`, from wherever it is called. -/
theorem launch_yano (hw : Hardware) (s : Os) (h : l.app.name = str "yano") :
    s.launch hw l = s.yanoLaunch l.args := by
  unfold Os.launch
  rw [h]
  rfl

end

/-! ## Keys that are typed -/

section
variable {s : Os} {ctrl : Bool} {c : UInt8}

/-- A key goes to the application that the title of the active window names. -/
theorem dispatchKey_eq (hw : Hardware) (hc : c ≠ 0) {a : Nat} {w : Window Title (List UInt8)}
    (hopen : s.wm.openActive = some (a, w)) {app : AppEntry}
    (happ : Os.appFindByTitle shellRegistry.entries (s.titleText w.title) = some app) :
    s.dispatchKey hw ctrl c = s.handleKey hw ctrl c app := by
  simp only [Os.dispatchKey, if_neg hc, hopen, happ]

/-- A printable character goes to the line of the terminal. -/
theorem terminalKey_char (hw : Hardware) (hc : 32 ≤ c ∧ c < 127) :
    s.terminalKey hw c = { s with term := typeChar s.term c } := by
  simp only [Os.terminalKey, terminalHandleKey_char hc]
  rfl

end

/-! ## What a step keeps -/

/-- A property that every launch, every change of the windows, of the tasks, of the terminal and the
RAM disk and every key of the editor keeps. -/
structure Kept (P : Os → Prop) : Prop where
  launch : ∀ hw s l, l.app ∈ systemApps → P s → P (s.launch hw l)
  gui : ∀ s e, (∀ x y w h title fn, e ≠ .addWindow x y w h title fn) → P s →
    P { s with wm := wmStep s.wm e }
  destroy : ∀ s pid, P s → P { s with sched := taskDestroy s.sched pid }
  tick : ∀ s, P s → P { s with sched := schedulerTick s.sched }
  term : ∀ s term files, P s → P { s with term := term, files := files }
  yano : ∀ s ctrl c, P s → P (s.yanoKey ctrl c)

section
variable {P : Os → Prop} {s : Os}

/-- An effect of a command is a launch, a change of the tasks, or nothing outside the terminal. -/
theorem effect_keeps (hkept : Kept P) (hw : Hardware) (h : P s) (e : Effect) :
    P (Os.effect hw s e) := by
  cases e with
  | sprintf => exact h
  | print => exact h
  | destroyTask pid => exact hkept.destroy s _ h
  | launch app args =>
      rcases launch_cases hw s ⟨app, args⟩ with he | ⟨l, hl, he⟩
      · exact (congrArg P he).mpr h
      · exact (congrArg P he).mpr (hkept.launch hw s l hl h)

/-- So a list of effects keeps the property, by induction. -/
theorem effects_keep (hkept : Kept P) (hw : Hardware) (es : List Effect) :
    ∀ {s : Os}, P s → P (es.foldl (Os.effect hw) s) := by
  induction es with
  | nil => exact fun h => h
  | cons e es ih => exact fun h => ih (effect_keeps hkept hw h e)

/-- A key in a terminal keeps it: the terminal and the files change first, then the effects follow.
-/
theorem terminalKey_keeps (hkept : Kept P) (hw : Hardware) (h : P s) (c : UInt8) :
    P (s.terminalKey hw c) := by
  unfold Os.terminalKey
  dsimp only
  generalize terminalHandleKey (s.env hw) true c ⟨s.term, s.files, false, []⟩ = sh
  have hafter := hkept.term _ sh.term sh.files (effects_keep hkept hw sh.effects h)
  split
  · exact hkept.gui _ .closeActive (by simp) hafter
  · exact hafter

/-- Every key keeps it: the terminal's, the editor's and one that no application takes. -/
theorem dispatchKey_keeps (hkept : Kept P) (hw : Hardware) (h : P s) (ctrl : Bool) (c : UInt8) :
    P (s.dispatchKey hw ctrl c) := by
  unfold Os.dispatchKey
  split
  · exact h
  · split
    · exact h
    · split
      · exact h
      · unfold Os.handleKey
        split
        · exact hkept.yano s ctrl c h
        · split
          · exact terminalKey_keeps hkept hw h c
          · exact h

/-- Every step keeps such a property: one case for each event, from what the modules do. -/
theorem osStep_keeps (hkept : Kept P) (s : Os) (e : OsEvent) (h : P s) : P (osStep s e) := by
  cases e with
  | launch hw name args =>
      cases happ : appFind shellRegistry name with
      | none =>
          simp only [osStep, happ]
          exact h
      | some app =>
          simp only [osStep, happ]
          exact hkept.launch hw s ⟨app, args⟩ (appFind_mem happ) h
  | gui e =>
      cases e with
      | addWindow => exact h
      | focusWindow i => exact hkept.gui s _ (by simp) h
      | cycleDepth => exact hkept.gui s _ (by simp) h
      | handleMouse mx my left => exact hkept.gui s _ (by simp) h
      | closeActive => exact hkept.gui s _ (by simp) h
      | restore i => exact hkept.gui s _ (by simp) h
  | key hw ctrl c => exact dispatchKey_keeps hkept hw h ctrl c
  | tick => exact hkept.tick s h

end

/-- The tasks stay a list that ends, in every run from the boot. -/
theorem Os.linked {hw : Hardware} {logoPng : List UInt8} {s : Os}
    (h : Reachable osStep (Os.boot hw logoPng) s) : s.sched.Linked := by
  have hboot : (Os.boot hw logoPng).sched.Linked :=
    (tasks_taskCreate (schedulerInit_linked Scheduler.static) _ _).1
  have hkept : Kept fun s => s.sched.Linked :=
    { launch := fun hw s l hl hs => by
        rw [(launch_launched hw s hl).sched]
        exact (tasks_taskCreate hs _ _).1
      gui := fun s e _ hs => hs
      destroy := fun s pid hs => taskDestroy_linked hs pid
      tick := fun s hs => schedulerTick_linked hs
      term := fun s term files hs => hs
      yano := fun s ctrl c hs => hs }
  have hstep : ∀ (s : Os) e, s.sched.Linked → (osStep s e).sched.Linked := osStep_keeps hkept
  exact h.invariant hboot hstep

end OnkenOS
