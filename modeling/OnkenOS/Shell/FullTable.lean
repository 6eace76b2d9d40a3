import OnkenOS.Gui.Capacity
import OnkenOS.Kernel.FsStore
import OnkenOS.Shell.Os

/-!
# Launching with a full window table

`wm_add_window` returns without a word when the table is full, and no `launch` function asks. So
the launch does all the rest: it adds the task, the terminal starts over, and the editor shows its
file, in the windows that are open. `launch_full` says what changes and what does not.
-/

namespace OnkenOS

open Machine

/-! ## The terminal -/

/-- `term_history_add`, on the lines. -/
def historyAdd (lines : List HistoryLine) (msg : List UInt8) (color : BitVec 32) :
    List HistoryLine :=
  if lines.length < maxHistory then lines ++ [⟨(cstr msg).take 127, color⟩]
  else lines.tail ++ [⟨(cstr msg).take 127, color⟩]

section
variable (s : Shell) (size : Nat) (color : BitVec 32) (msg format : String) (args : List Arg)

/-- A message goes into the history as it stands. -/
theorem say_history :
    (s.say msg color).term.termHistory = historyAdd s.term.termHistory (str msg) color := rfl

/-- What `xsprintf` makes of a format goes into the history. -/
theorem printf_history : (s.printf size color format args).term.termHistory =
    historyAdd s.term.termHistory ((xsprintf (str format) args).getD []) color := rfl

/-- Printing leaves the files. -/
theorem printf_files : (s.printf size color format args).files = s.files := rfl

end

/-- The system information is added to the lines, and depends on nothing else of the terminal. -/
theorem showFastfetch_history (env : Env) {s s' : Shell}
    (hlines : s.term.termHistory = s'.term.termHistory) (hfiles : s.files = s'.files) :
    (showFastfetch env s).term.termHistory = (showFastfetch env s').term.termHistory := by
  simp only [showFastfetch, say_history, printf_history, say_files, printf_files, hlines, hfiles]

/-! ## What is left of a launch -/

/-- A launch of `l` that opened no window, from `s` to `s'`. -/
structure LaunchedUnseen (hw : Hardware) (s s' : Os) (l : Launch) : Prop where
  wm : s'.wm = s.wm
  tasks : s'.sched.tasks = s.sched.tasks ++ [newTask s.sched l.app.name 1]
  term_kept : l.app.name ≠ str "terminal" → s'.term = s.term
  files_kept : l.app.name ≠ str "yano" → s'.files = s.files
  yano_kept : l.app.name ≠ str "yano" → s'.yano = s.yano
  line_cleared : l.app.name = str "terminal" → s'.term.EditsLine []
  history_cleared : l.app.name = str "terminal" → ∀ t, s'.term.termHistory =
    (terminalLaunch (Os.plainEnv hw) ⟨t, s.files, false, []⟩).term.termHistory
  filename : l.app.name = str "yano" → cstr s'.yano.currentFilename = launchedFile l.args
  text : l.app.name = str "yano" → s'.yano.text = launchedText s.files l.args
  files_created : l.app.name = str "yano" → s'.files = s.files ∨
    vfsOpen s.files (launchedFile l.args) = none ∧
      s'.files = (vfsCreate s.files s'.yano.currentFilename).1

section
variable {s : Os} {l : Launch}

/-- A launch with a full table, in every state that is reached: no window is added and the windows
stay as they are, but the rest of the launch goes on. It creates its task, the terminal clears its
line, and the editor opens its file, creating it on the RAM disk if need be. -/
theorem launch_full {hw₀ : Hardware} {logoPng : List UInt8}
    (hreach : Reachable osStep (Os.boot hw₀ logoPng) s) (hfull : maxWindows ≤ s.wm.windowCount)
    (hw : Hardware) (happ : l.app ∈ shellRegistry.entries) :
    LaunchedUnseen hw s (s.launch hw l) l := by
  have hl := launch_launched hw s (shellRegistry.mem_systemApps l.app happ)
  have hyano : l.app.name = str "yano" → (s.launch hw l).yano =
      (yanoLaunch ⟨s.yano, s.files, false⟩ l.args).yano ∧
      (s.launch hw l).files = (yanoLaunch ⟨s.yano, s.files, false⟩ l.args).files := by
    intro h
    rw [launch_yano hw s h]
    exact ⟨rfl, rfl⟩
  have hloads := yanoLaunch_loads ⟨s.yano, s.files, false⟩ l.args
  refine
    { wm := ?_, tasks := ?_, term_kept := hl.term, files_kept := hl.files, yano_kept := hl.yano
      line_cleared := ?_, history_cleared := ?_, filename := ?_, text := ?_, files_created := ?_ }
  · rw [hl.wm, wmAddWindow_full hfull]
  · rw [hl.sched]
    exact (tasks_taskCreate (Os.linked hreach) _ _).2
  · intro h
    rw [launch_terminal hw s h]
    exact terminalLaunch_line _ _
  · intro h t
    rw [launch_terminal hw s h]
    exact showFastfetch_history _ rfl rfl
  · intro h
    rw [(hyano h).1]
    exact hloads.1
  · intro h
    rw [(hyano h).1]
    exact hloads.2.1
  · intro h
    rw [(hyano h).1, (hyano h).2]
    exact hloads.2.2

end

/-! ## A full table -/

/-- A File Explorer. -/
def fileExplorer : Launch := ⟨⟨str "files", str "File Explorer", str "File Manager"⟩, none⟩

/-- A terminal. -/
def newTerminal : Launch := ⟨⟨str "terminal", str "Onken Terminal", str "Command Shell"⟩, none⟩

/-- An editor. -/
def editorOn (name : List UInt8) : Launch :=
  ⟨⟨str "yano", str "yano", str "Text Editor"⟩, some name⟩

/-- The File Explorer is launched once more. -/
def filesEvent (hw : Hardware) : OsEvent := .launch hw (str "files") none

/-- The event launches the File Explorer. -/
theorem osStep_files (hw : Hardware) (s : Os) : osStep s (filesEvent hw) = s.filesLaunch := rfl

/-- `wm_add_window` counts the window it adds, up to the size of the table. -/
theorem windowCount_wmAddWindow {τ δ : Type} (s : Wm τ δ) (x y w h : BitVec 32) (title : τ)
    (drawFn : Option δ) :
    min maxWindows (s.windowCount + 1) ≤ (wmAddWindow s x y w h title drawFn).windowCount := by
  unfold wmAddWindow
  split
  · omega
  · simp [Wm.windowCount]

/-- Launching the File Explorer again and again fills the table, and touches only the windows and
the tasks. -/
theorem run_filesLaunch (hw : Hardware) (n : Nat) (s : Os) :
    min maxWindows (s.wm.windowCount + n) ≤
        (run osStep s (List.replicate n (filesEvent hw))).wm.windowCount ∧
      (run osStep s (List.replicate n (filesEvent hw))).files = s.files ∧
      (run osStep s (List.replicate n (filesEvent hw))).term = s.term ∧
      (run osStep s (List.replicate n (filesEvent hw))).yano = s.yano := by
  induction n generalizing s with
  | zero => exact ⟨Nat.min_le_right _ _, rfl, rfl, rfl⟩
  | succ n ih =>
      obtain ⟨hcount, hfiles, hterm, hyano⟩ := ih s.filesLaunch
      have hadd : min maxWindows (s.wm.windowCount + 1) ≤ s.filesLaunch.wm.windowCount :=
        windowCount_wmAddWindow s.wm _ _ _ _ _ _
      rw [List.replicate_succ, run_cons, osStep_files]
      exact ⟨by omega, hfiles, hterm, hyano⟩

/-- A character is typed into the terminal of the boot, and the table is filled. -/
def fullEvents (hw : Hardware) : List OsEvent :=
  .key hw false 97 :: List.replicate maxWindows (filesEvent hw)

/-- The state after these events: a full table, and a terminal whose line has one character. -/
theorem run_fullEvents (hw : Hardware) (logoPng : List UInt8) :
    maxWindows ≤ (run osStep (Os.boot hw logoPng) (fullEvents hw)).wm.windowCount ∧
      (run osStep (Os.boot hw logoPng) (fullEvents hw)).files = vfsInit logoPng ∧
      (run osStep (Os.boot hw logoPng) (fullEvents hw)).term =
        typeChar (Os.boot hw logoPng).term 97 ∧
      (run osStep (Os.boot hw logoPng) (fullEvents hw)).yano = Yano.static := by
  have hopen : ∃ w, (Os.boot hw logoPng).wm.openActive = some (0, w) ∧
      w.title = .literal (str "Onken Terminal") := ⟨_, rfl, rfl⟩
  have happ : Os.appFindByTitle shellRegistry.entries (str "Onken Terminal") =
      some ⟨str "terminal", str "Onken Terminal", str "Command Shell"⟩ := by decide
  have hkey : osStep (Os.boot hw logoPng) (.key hw false 97) =
      { Os.boot hw logoPng with term := typeChar (Os.boot hw logoPng).term 97 } := by
    obtain ⟨w, hopen, htitle⟩ := hopen
    change (Os.boot _ logoPng).dispatchKey _ false 97 = _
    rw [dispatchKey_eq _ (by decide) hopen (by rw [htitle]; exact happ)]
    exact terminalKey_char _ (by decide)
  obtain ⟨hcount, hfiles, hterm, hyano⟩ :=
    run_filesLaunch hw maxWindows (osStep (Os.boot hw logoPng) (.key hw false 97))
  rw [fullEvents, run_cons]
  rw [hkey] at hcount hfiles hterm hyano ⊢
  refine ⟨by omega, ?_, hterm, hyano⟩
  rw [hfiles]
  dsimp only
  exact boot_files hw logoPng

/-- One more launch in that state, of the File Explorer: its window is not added. -/
theorem launch_full_files :
    LaunchedUnseen Env.zero.hw (run osStep (Os.boot Env.zero.hw []) (fullEvents Env.zero.hw))
      ((run osStep (Os.boot Env.zero.hw []) (fullEvents Env.zero.hw)).launch Env.zero.hw
        fileExplorer) fileExplorer :=
  launch_full ⟨fullEvents Env.zero.hw, rfl⟩ (run_fullEvents Env.zero.hw []).1 Env.zero.hw
    (by decide)

/-- A name that the first files do not have: eight names, and seven of them at most are taken. -/
theorem exists_new_name (logoPng : List UInt8) :
    ∃ k : Fin 8, vfsOpen (vfsInit logoPng) [k.val.toUInt8 + 1] = none := by
  by_contra hall
  have hsome : ∀ k : Fin 8, ∃ i, vfsOpen (vfsInit logoPng) [k.val.toUInt8 + 1] = some i := by
    intro k
    cases hopen : vfsOpen (vfsInit logoPng) [k.val.toUInt8 + 1] with
    | none => exact absurd ⟨k, hopen⟩ hall
    | some i => exact ⟨i, rfl⟩
  have hbelow := usedBelow_vfsInit logoPng
  generalize vfsInit logoPng = files at hsome hbelow
  choose slot hslot using hsome
  have hview : ∀ k, (files (slot k)).used = true ∧
      cstr (files (slot k)).name = cstr [k.val.toUInt8 + 1] := by
    intro k
    obtain ⟨hused, hentry⟩ := fileView_eq_some.1 (findFile_eq_some (hslot k))
    exact ⟨hused, congrArg Prod.fst hentry⟩
  have hnames : ∀ j k : Fin 8, cstr [j.val.toUInt8 + 1] = cstr [k.val.toUInt8 + 1] → j = k := by
    decide
  have hinj : Function.Injective fun k : Fin 8 =>
      (⟨(slot k).val, hbelow _ (hview k).1⟩ : Fin 7) := by
    intro j k hjk
    have heq : slot j = slot k := Fin.ext (congrArg (fun i : Fin 7 => i.val) hjk)
    refine hnames j k ?_
    rw [← (hview j).2, ← (hview k).2, heq]
  have hcard := Fintype.card_le_of_injective _ hinj
  simp at hcard

section
variable {s : Os} {l : Launch}

/-- Every launch changes the list of the tasks, by the one it creates. -/
theorem launch_tasks_ne (hlinked : s.sched.Linked) (hw : Hardware) (happ : l.app ∈ systemApps) :
    (s.launch hw l).sched.tasks ≠ s.sched.tasks := by
  intro heq
  have hlen := congrArg List.length heq
  rw [(launch_launched hw s happ).sched, (tasks_taskCreate hlinked _ _).2] at hlen
  simp at hlen

/-- A launched terminal has an empty line, even if another terminal was being typed into: they share
their variables. -/
theorem newTerminal_cmdLen (hw : Hardware) (s : Os) :
    (s.launch hw newTerminal).term.cmdLen = 0 := by
  rw [launch_terminal hw s rfl, (terminalLaunch_line _ _).length]
  rfl

/-- The editor on a name that has no file: the file is created. -/
theorem editorOn_files_ne {name : List UInt8} (hlen : strlen name > 0)
    (hopen : vfsOpen s.files ((cstr name).take 31) = none) {i : Fin maxFiles}
    (hfree : (s.files i).used = false) (hw : Hardware) :
    (s.launch hw (editorOn name)).files ≠ s.files := by
  rw [launch_yano hw s rfl]
  have hcreates := yanoLaunch_creates ⟨s.yano, s.files, false⟩ hlen hopen
  have hcur := (yanoLaunch_loads ⟨s.yano, s.files, false⟩ (some name)).1
  rw [launchedFile, if_pos hlen, ← cstr_take] at hcur
  intro heq
  exact vfsCreate_ne ((vfsOpen_congr hcur).trans hopen) hfree (hcreates.symm.trans heq)

/-- A launched editor has the file of its argument open, even if another editor had one: they share
their variables. -/
theorem editorOn_filename (hw : Hardware) (s : Os) (name : List UInt8) :
    cstr (s.launch hw (editorOn name)).yano.currentFilename = launchedFile (some name) := by
  rw [launch_yano hw s rfl]
  exact (yanoLaunch_loads ⟨s.yano, s.files, false⟩ (some name)).1

end

/-- With a full table the File Explorer gets a task, the terminal loses its line, and the editor
changes the RAM disk and loses its file. -/
theorem full_launch_changes : ∃ s : Os,
    Reachable osStep (Os.boot Env.zero.hw []) s ∧ maxWindows ≤ s.wm.windowCount ∧
      (∃ l : Launch, l.app ∈ shellRegistry.entries ∧
        (s.launch Env.zero.hw l).sched.tasks ≠ s.sched.tasks) ∧
      (∃ l : Launch, l.app ∈ shellRegistry.entries ∧
        (s.launch Env.zero.hw l).term.cmdLen ≠ s.term.cmdLen) ∧
      ∃ l : Launch, l.app ∈ shellRegistry.entries ∧ (s.launch Env.zero.hw l).files ≠ s.files ∧
        cstr (s.launch Env.zero.hw l).yano.currentFilename ≠ cstr s.yano.currentFilename := by
  obtain ⟨hfull, hfiles, hterm, hyano⟩ := run_fullEvents Env.zero.hw []
  have hreach : Reachable osStep (Os.boot Env.zero.hw [])
      (run osStep (Os.boot Env.zero.hw []) (fullEvents Env.zero.hw)) := ⟨_, rfl⟩
  have hlinked := Os.linked hreach
  obtain ⟨k, hk⟩ := exists_new_name []
  have hbelow := usedBelow_vfsInit []
  rw [← hfiles] at hk hbelow
  generalize run osStep (Os.boot Env.zero.hw []) (fullEvents Env.zero.hw) = s at *
  have hname : ∀ k : Fin 8, strlen [k.val.toUInt8 + 1] > 0 ∧
      (cstr [k.val.toUInt8 + 1]).take 31 = [k.val.toUInt8 + 1] ∧
      launchedFile (some [k.val.toUInt8 + 1]) ≠ cstr Yano.static.currentFilename := by decide
  obtain ⟨hlen, hcut, hnew⟩ := hname k
  have hyanoApp : (⟨str "yano", str "yano", str "Text Editor"⟩ : AppEntry) ∈
      shellRegistry.entries := by decide
  have hslot : (s.files 7).used = false := hbelow.free (by decide)
  refine ⟨s, hreach, hfull, ⟨fileExplorer, by decide, ?_⟩, ⟨newTerminal, by decide, ?_⟩,
    ⟨editorOn [k.val.toUInt8 + 1], hyanoApp, ?_, ?_⟩⟩
  · exact launch_tasks_ne hlinked Env.zero.hw (by decide)
  · rw [newTerminal_cmdLen, hterm]
    decide
  · exact editorOn_files_ne hlen (by rw [hcut]; exact hk) hslot Env.zero.hw
  · rw [editorOn_filename, hyano]
    exact hnew

end OnkenOS
