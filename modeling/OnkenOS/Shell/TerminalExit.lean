import OnkenOS.Apps.TerminalActs
import OnkenOS.Apps.TerminalWords
import OnkenOS.Gui.Capacity
import OnkenOS.Shell.EditorWindows

/-!
# The task that `exit` destroys

`exit` destroys the task 43, whatever terminal it is typed in. The pids count the tasks that are
created, and only sixteen launches open a window, so the task of a window has one of the pids 4 to
19 (`TasksOwned`). A terminal's `exit` never destroys the task that was created for it
(`exit_keeps_own`).
-/

namespace OnkenOS

open Linked Machine

/-! ## Histories -/

/-- The system with, for each window by its serial number, the block of the task that the launch of
this window created. -/
structure Hist where
  os : Os
  owner : Nat → Option Nat

/-- An event. A launch that adds a window creates a task, in the next free block. -/
def Hist.step (h : Hist) (e : OsEvent) : Hist where
  os := osStep h.os e
  owner :=
    if h.os.wm.windowCount < (osStep h.os e).wm.windowCount then
      Function.update h.owner h.os.wm.windowCount (some h.os.sched.blocks.length)
    else h.owner

/-- When the loop of `shell_loop` begins: one terminal was launched. -/
def Hist.boot (hw : Hardware) (logoPng : List UInt8) : Hist where
  os := Os.boot hw logoPng
  owner := Function.update (fun _ => none) 0 (some (Os.init logoPng).sched.blocks.length)

/-- Enter is pressed while the terminal window `w` is the active one, and the line starts with
`exit`. -/
structure RunsExit (s : Os) (c : UInt8) (w : Window Title (List UInt8)) : Prop where
  enter : c = 10 ∨ c = 13
  active : ∃ a, s.wm.openActive = some (a, w)
  title : w.title = .literal (str "Onken Terminal")
  line : ∃ line rest, s.term.EditsLine line ∧
    strtok (str " ") (some line) = (some (str "exit"), rest)

/-- The list loses the task in the block `own` and no other. -/
def RemovesOnly (s s' : Scheduler) (own : Nat) : Prop :=
  ∃ ps, IsChain Task.next s.blocks s.taskList ps ∧
    IsChain Task.next s'.blocks s'.taskList (ps.filter (· ≠ own))

/-! ## What an event does to the tasks -/

/-- What an event does to the tasks, and to the number of windows. -/
inductive TaskChange (s s' : Os) : Prop where
  | keep (sched : s'.sched = s.sched) (count : s'.wm.windowCount = s.wm.windowCount)
  | tick (sched : s'.sched = schedulerTick s.sched) (count : s'.wm.windowCount = s.wm.windowCount)
  | destroy (sched : s'.sched = taskDestroy s.sched 43)
      (count : s'.wm.windowCount = s.wm.windowCount)
  | create (name : List UInt8) (sched : s'.sched = (taskCreate s.sched name 1).1)
      (count : s'.wm.windowCount = min maxWindows (s.wm.windowCount + 1))

section
variable {s : Os} {wm : Wm Title (List UInt8)}

/-- Only an event that adds a window changes `window_count`. -/
theorem windowCount_wmStep (h : wm.WF) {e : WmEvent Title (List UInt8)} (he : created wm e = []) :
    (wmStep wm e).windowCount = wm.windowCount := by
  have hidents := congrArg List.length (wmStep_idents h e)
  rw [he, List.append_nil, (rotated_perm _ _).length_eq, List.length_map, List.length_map]
    at hidents
  exact hidents

/-- `window_count` goes up by one with every window that is added, until the table is full. -/
theorem windowCount_addWindow (h : wm.WF) (x y w hh : BitVec 32) (title : Title)
    (drawFn : Option (List UInt8)) : (wmAddWindow wm x y w hh title drawFn).windowCount =
      min maxWindows (wm.windowCount + 1) := by
  have hle : wm.windowCount ≤ maxWindows := h.count_le
  rcases Nat.lt_or_ge wm.windowCount maxWindows with hroom | hfull
  · have hidents := congrArg List.length (wmAddWindow_map wm x y w hh title drawFn)
    simp only [created, if_pos hroom, List.length_append, List.length_map,
      List.length_singleton] at hidents
    rw [Nat.min_eq_right hroom]
    exact hidents
  · rw [wmAddWindow_full hfull, Nat.min_eq_left (by omega)]
    omega

/-- A launch creates one task, also where the table has no room for its window. -/
theorem launch_change (hwf : s.wm.WF) (hw : Hardware) {l : Launch} (hl : l.app ∈ systemApps) :
    TaskChange s (s.launch hw l) := by
  have hlaunched := launch_launched hw s hl
  refine .create l.app.name hlaunched.sched ?_
  rw [hlaunched.wm]
  exact windowCount_addWindow hwf _ _ _ _ _ _

/-- The other effects do nothing outside the terminal. -/
theorem foldl_effect_acts (hw : Hardware) (es : List Effect) (s : Os) :
    es.foldl (Os.effect hw) s = (es.filter Effect.acts).foldl (Os.effect hw) s := by
  induction es generalizing s with
  | nil => rfl
  | cons e es ih =>
      cases e with
      | sprintf size out => exact ih s
      | print msg color => exact ih s
      | launch app args => exact ih _
      | destroyTask pid => exact ih _

/-- What a key does outside the terminal is at most one launch or one `task_destroy(43)`. -/
theorem acts_change (hwf : s.wm.WF) (hw : Hardware) {acts : List Effect} (h : KeyActs acts) :
    TaskChange s (acts.foldl (Os.effect hw) s) ∧ (acts.foldl (Os.effect hw) s).wm.WF := by
  rcases h with rfl | ⟨app, happ, args, rfl⟩ | rfl
  · exact ⟨.keep rfl rfl, hwf⟩
  · have hl : (⟨app, args⟩ : Launch).app ∈ systemApps := happ
    refine ⟨launch_change hwf hw hl, ?_⟩
    have hwm := (launch_launched hw s hl).wm
    change (s.launch hw ⟨app, args⟩).wm.WF
    rw [hwm]
    exact wmAddWindow_wf hwf _ _ _ _ _ _
  · exact ⟨.destroy rfl rfl, hwf⟩

/-! ## What an event does -/

/-- The windows stay well formed: a launch adds a window, and nothing else but the window events
touches them. -/
theorem wf_kept : Kept fun s => s.wm.WF where
  launch hw s l hl h := by
    rw [(launch_launched hw s hl).wm]
    exact wmAddWindow_wf h _ _ _ _ _ _
  gui _ e _ h := wmStep_wf _ e h
  destroy _ _ h := h
  tick _ h := h
  term _ _ _ h := h
  yano s ctrl c h := by
    rcases yanoKey_cases s ctrl c with ⟨-, he⟩ | ⟨-, -, he | he⟩ | ⟨-, -, he⟩
    · exact (congrArg (fun s : Os => s.wm.WF) he).mpr h
    · exact (congrArg (fun s : Os => s.wm.WF) he).mpr (wmStep_wf _ .closeActive h)
    · exact (congrArg (fun s : Os => s.wm.WF) he).mpr h
    · exact (congrArg (fun s : Os => s.wm.WF) he).mpr h

/-- Closing a window afterwards changes neither the tasks nor the number of windows. -/
theorem TaskChange.gui {s' : Os} (h : TaskChange s s') {wm : Wm Title (List UInt8)}
    (hcount : wm.windowCount = s'.wm.windowCount) (term : Terminal) (files : Files) :
    TaskChange s { s' with term := term, files := files, wm := wm } := by
  cases h with
  | keep hsched hc => exact .keep hsched (hcount.trans hc)
  | tick hsched hc => exact .tick hsched (hcount.trans hc)
  | destroy hsched hc => exact .destroy hsched (hcount.trans hc)
  | create name hsched hc => exact .create name hsched (hcount.trans hc)

/-- A key in a terminal changes the tasks as its effects do; setting `closed` does not reach them.
-/
theorem terminalKey_change (hwf : s.wm.WF) (hw : Hardware) (c : UInt8) :
    TaskChange s (s.terminalKey hw c) := by
  obtain ⟨acts, hacts, he⟩ :=
    terminalHandleKey_acts (s.env hw) true c ⟨s.term, s.files, false, []⟩
  unfold Os.terminalKey
  dsimp only
  generalize terminalHandleKey (s.env hw) true c ⟨s.term, s.files, false, []⟩ = sh at he ⊢
  obtain ⟨hchange, hwf'⟩ := acts_change hwf hw hacts
  have heffects : sh.effects.foldl (Os.effect hw) s = acts.foldl (Os.effect hw) s := by
    rw [foldl_effect_acts]
    exact congrArg (List.foldl (Os.effect hw) s) he
  rw [heffects]
  refine hchange.gui ?_ _ _
  split
  · exact windowCount_wmStep hwf' (e := .closeActive) rfl
  · rfl

/-- Every key does at most one of the changes, whatever the active window is. -/
theorem dispatchKey_change (hwf : s.wm.WF) (hw : Hardware) (ctrl : Bool) (c : UInt8) :
    TaskChange s (s.dispatchKey hw ctrl c) := by
  have hself : TaskChange s s := .keep rfl rfl
  unfold Os.dispatchKey
  split
  · exact hself
  · split
    · exact hself
    · split
      · exact hself
      · unfold Os.handleKey
        split
        · refine .keep rfl ?_
          unfold Os.yanoKey
          dsimp only
          split
          · exact windowCount_wmStep hwf (e := .closeActive) rfl
          · rfl
        · split
          · exact terminalKey_change hwf hw c
          · exact hself

/-- **What an event does to the tasks**: at most one of a launch, a `task_destroy(43)` and a tick.
-/
theorem osStep_change (hwf : s.wm.WF) (e : OsEvent) : TaskChange s (osStep s e) := by
  cases e with
  | launch hw name args =>
      cases happ : appFind shellRegistry name with
      | none =>
          simp only [osStep, happ]
          exact .keep rfl rfl
      | some app =>
          simp only [osStep, happ]
          exact launch_change hwf hw (appFind_mem happ)
  | gui e =>
      cases e with
      | addWindow => exact .keep rfl rfl
      | focusWindow | cycleDepth | handleMouse | closeActive | restore =>
          exact .keep rfl (windowCount_wmStep hwf rfl)
  | key hw ctrl c => exact dispatchKey_change hwf hw ctrl c
  | tick => exact .tick rfl rfl

end

/-! ## A task in the list -/

/-- The list has the task in the block `q`, and `pid` is its number. -/
def Scheduler.Lists (s : Scheduler) (q : Nat) (pid : BitVec 32) : Prop :=
  (∃ ps, IsChain Task.next s.blocks s.taskList ps ∧ q ∈ ps) ∧
    (s.blocks[q]?).map Task.pid = some pid

section
variable {s : Scheduler} {q : Nat} {pid : BitVec 32}

/-- The pid can be read off what is copied of a task. -/
theorem map_pid_copy (o : Option Task) : (o.map Task.copy).map Task.pid = o.map Task.pid := by
  cases o with
  | none => rfl
  | some t => rfl

/-- Equal up to what a tick writes, two tasks have the same pid. -/
theorem map_pid_of_copy {o o' : Option Task} (h : o.map Task.copy = o'.map Task.copy) :
    o.map Task.pid = o'.map Task.pid := by
  rw [← map_pid_copy, h, map_pid_copy]

/-- A new task is put into the list next to the others, so a task that was listed still is. -/
theorem Scheduler.Lists.create (h : s.Lists q pid) (name : List UInt8) (isKernel : BitVec 8) :
    (taskCreate s name isKernel).1.Lists q pid := by
  obtain ⟨⟨ps, hps, hq⟩, hpid⟩ := h
  obtain ⟨hchain, hkeep, -⟩ := taskCreate_chain hps name isKernel
  refine ⟨⟨_, hchain, List.mem_append_left _ hq⟩, ?_⟩
  exact (map_pid_of_copy (hkeep q hq)).trans hpid

/-- The task that is created is in the list, in its new block and with the next pid. -/
theorem lists_newTask (h : s.Linked) (name : List UInt8) (isKernel : BitVec 8) :
    (taskCreate s name isKernel).1.Lists s.blocks.length s.nextPid := by
  obtain ⟨ps, hps⟩ := h
  obtain ⟨hchain, -, hnew⟩ := taskCreate_chain hps name isKernel
  refine ⟨⟨_, hchain, by simp⟩, ?_⟩
  rw [hnew]
  rfl

/-- Another pid is destroyed: the block that is unlinked is not the one of `pid`. -/
theorem Scheduler.Lists.destroy (h : s.Lists q pid) {pid' : BitVec 32} (hne : pid ≠ pid') :
    (taskDestroy s pid').Lists q pid := by
  obtain ⟨⟨ps, hps, hq⟩, hpid⟩ := h
  rcases taskDestroy_cases hps pid' with ⟨he, -⟩ | ⟨front, x, back, rfl, hx, -, hdestroyed⟩
  · rw [he]
    exact ⟨⟨ps, hps, hq⟩, hpid⟩
  · have hxq : x ≠ q := by
      rintro rfl
      obtain ⟨t, ht, rfl⟩ := Option.map_eq_some_iff.1 hpid
      simp only [Scheduler.hasPid, ht, Option.any_some, decide_eq_true_eq] at hx
      exact hne hx
    have hmem : q ∈ front ++ back := by
      simpa [Ne.symm hxq] using hq
    refine ⟨⟨_, hdestroyed.chain, hmem⟩, ?_⟩
    have hcopy := hdestroyed.blocks q
    have hkeep : Task.destroyed x q = Task.copy := funext fun t => by
      rw [Task.destroyed, if_neg hxq]
    rw [hkeep] at hcopy
    exact (map_pid_of_copy hcopy).trans hpid

/-- Cells that keep their links and their pids keep the list, whatever else of them changes. -/
theorem Scheduler.Lists.modify (h : s.Lists q pid) (p : Nat) {f : Task → Task}
    (hnext : ∀ t, (f t).next = t.next) (hpid : ∀ t, (f t).pid = t.pid) :
    (s.modify p f).Lists q pid := by
  obtain ⟨⟨ps, hps, hq⟩, heq⟩ := h
  exact ⟨⟨ps, hps.congr fun r _ => map_getElem?_modify hnext s p r, hq⟩,
    (map_getElem?_modify hpid s p q).trans heq⟩

/-- A tick writes times and states, not the list. -/
theorem Scheduler.Lists.tick (h : s.Lists q pid) : (schedulerTick s).Lists q pid := by
  have hmod : ∀ p, (s.modify p fun t => { t with runtimeTicks := t.runtimeTicks + 1 }).Lists q
      pid := fun p => h.modify p (fun _ => rfl) fun _ => rfl
  unfold schedulerTick
  split
  · exact h
  · dsimp only
    split
    · exact hmod _
    · split
      · exact hmod _
      · exact hmod _

end

/-! ## The tasks of the windows -/

/-- `task_create` takes one more block. -/
theorem length_taskCreate (s : Scheduler) (name : List UInt8) (isKernel : BitVec 8) :
    (taskCreate s name isKernel).1.blocks.length = s.blocks.length + 1 := by
  unfold taskCreate
  dsimp only
  split <;> simp [Scheduler.modify]

/-- `task_destroy` returns no block and leaves the next pid as it is. -/
theorem taskDestroy_sizes (s : Scheduler) (pid : BitVec 32) :
    (taskDestroy s pid).blocks.length = s.blocks.length ∧
      (taskDestroy s pid).nextPid = s.nextPid := by
  unfold taskDestroy
  split
  · exact ⟨rfl, rfl⟩
  · split
    · exact ⟨rfl, rfl⟩
    · split
      · simp [Scheduler.modify]
      · split <;> simp [Scheduler.modify]

/-- A tick neither takes a block nor a pid. -/
theorem schedulerTick_sizes (s : Scheduler) :
    (schedulerTick s).blocks.length = s.blocks.length ∧
      (schedulerTick s).nextPid = s.nextPid := by
  unfold schedulerTick
  split
  · exact ⟨rfl, rfl⟩
  · dsimp only
    split
    · simp [Scheduler.modify]
    · split <;> simp [Scheduler.modify]

/-- While the window table has room, every task but the three of the system belongs to a window;
the task of the window `n` is the one in the block `n + 3`. -/
structure TasksOwned (h : Hist) : Prop where
  wf : h.os.wm.WF
  linked : h.os.sched.Linked
  pids : h.os.sched.nextPid = BitVec.ofNat 32 (h.os.sched.blocks.length + 1)
  room : h.os.wm.windowCount < maxWindows → h.os.sched.blocks.length = h.os.wm.windowCount + 3
  owner : ∀ n < h.os.wm.windowCount, h.owner n = some (n + 3)
  lists : ∀ n < h.os.wm.windowCount, h.os.sched.Lists (n + 3) (BitVec.ofNat 32 (n + 4))

/-- The tasks of the windows have the pids from 4 to 19, so `task_destroy(43)` removes none of them.
-/
theorem pid_ne_43 {n : Nat} (hn : n < 16) : BitVec.ofNat 32 (n + 4) ≠ 43 := by
  intro heq
  have := congrArg BitVec.toNat heq
  simp at this
  omega

section
variable {h : Hist} {e : OsEvent}

/-- An event after which there are as many windows and blocks as before. -/
theorem TasksOwned.same (ho : TasksOwned h)
    (hcount : (osStep h.os e).wm.windowCount = h.os.wm.windowCount)
    (hwf : (osStep h.os e).wm.WF) (hlinked : (osStep h.os e).sched.Linked)
    (hsizes : (osStep h.os e).sched.blocks.length = h.os.sched.blocks.length ∧
      (osStep h.os e).sched.nextPid = h.os.sched.nextPid)
    (hlists : ∀ n < 16, h.os.sched.Lists (n + 3) (BitVec.ofNat 32 (n + 4)) →
      (osStep h.os e).sched.Lists (n + 3) (BitVec.ofNat 32 (n + 4))) : TasksOwned (h.step e) := by
  have hle : h.os.wm.windowCount ≤ 16 := ho.wf.count_le
  obtain ⟨hlength, hnext⟩ := hsizes
  refine ⟨hwf, hlinked, ?_, fun hroom => ?_, fun n hn => ?_, fun n hn => ?_⟩
  · change (osStep h.os e).sched.nextPid = BitVec.ofNat 32 ((osStep h.os e).sched.blocks.length + 1)
    rw [hnext, hlength]
    exact ho.pids
  · change (osStep h.os e).sched.blocks.length = (osStep h.os e).wm.windowCount + 3
    rw [hlength, hcount]
    exact ho.room (hcount ▸ hroom)
  · have hn' : n < h.os.wm.windowCount := hcount ▸ hn
    simp only [Hist.step, hcount, if_neg (Nat.lt_irrefl _)]
    exact ho.owner n hn'
  · have hn' : n < h.os.wm.windowCount := hcount ▸ hn
    exact hlists n (by omega) (ho.lists n hn')

/-- A launch: the task gets the block and the pid that the new window is to have, if there is a new
window. -/
theorem TasksOwned.create (ho : TasksOwned h) {name : List UInt8}
    (hsched : (osStep h.os e).sched = (taskCreate h.os.sched name 1).1)
    (hcount : (osStep h.os e).wm.windowCount = min maxWindows (h.os.wm.windowCount + 1))
    (hwf : (osStep h.os e).wm.WF) : TasksOwned (h.step e) := by
  have hle : h.os.wm.windowCount ≤ maxWindows := ho.wf.count_le
  obtain ⟨hlinked, -⟩ := tasks_taskCreate ho.linked name 1
  have hlength := length_taskCreate h.os.sched name 1
  obtain ⟨hnext, -⟩ := taskCreate_globals h.os.sched name 1
  have hnew := lists_newTask ho.linked name 1
  rw [← hsched] at hlinked hlength hnext hnew
  have hold : ∀ n < h.os.wm.windowCount,
      (osStep h.os e).sched.Lists (n + 3) (BitVec.ofNat 32 (n + 4)) := by
    intro n hn
    rw [hsched]
    exact (ho.lists n hn).create name 1
  refine ⟨hwf, hlinked, ?_, fun hroom => ?_, fun n hn => ?_, fun n hn => ?_⟩
  · change (osStep h.os e).sched.nextPid = BitVec.ofNat 32 ((osStep h.os e).sched.blocks.length + 1)
    rw [hnext, hlength, ho.pids]
    exact (BitVec.ofNat_add _ _).symm
  · change (osStep h.os e).sched.blocks.length = (osStep h.os e).wm.windowCount + 3
    change (osStep h.os e).wm.windowCount < maxWindows at hroom
    have := ho.room (by omega)
    omega
  · change n < (osStep h.os e).wm.windowCount at hn
    simp only [Hist.step]
    split
    · next hadded =>
        rw [Function.update_apply]
        split
        · next hlast => rw [ho.room (by omega), hlast]
        · next hlast => exact ho.owner n (by omega)
    · exact ho.owner n (by omega)
  · change n < (osStep h.os e).wm.windowCount at hn
    rcases Nat.lt_or_ge n h.os.wm.windowCount with hn' | hlast
    · exact hold n hn'
    · have hn' : n = h.os.wm.windowCount := by omega
      have hlen := ho.room (by omega)
      rw [ho.pids, hlen, ← hn'] at hnew
      exact hnew

/-- Every event keeps the invariant: a launch that adds a window adds its task too, and the task 43
that `exit` destroys belongs to no window. -/
theorem TasksOwned.step (ho : TasksOwned h) (e : OsEvent) : TasksOwned (h.step e) := by
  have hwf : (osStep h.os e).wm.WF := osStep_keeps wf_kept _ e ho.wf
  cases osStep_change ho.wf e with
  | keep hsched hcount =>
      refine ho.same hcount hwf ?_ ?_ ?_
      · exact hsched.symm ▸ ho.linked
      · exact hsched.symm ▸ ⟨rfl, rfl⟩
      · exact hsched.symm ▸ fun n _ hn => hn
  | tick hsched hcount =>
      refine ho.same hcount hwf ?_ ?_ ?_
      · exact hsched.symm ▸ schedulerTick_linked ho.linked
      · exact hsched.symm ▸ schedulerTick_sizes h.os.sched
      · exact hsched.symm ▸ fun n _ hn => hn.tick
  | destroy hsched hcount =>
      refine ho.same hcount hwf ?_ ?_ ?_
      · exact hsched.symm ▸ taskDestroy_linked ho.linked 43
      · exact hsched.symm ▸ taskDestroy_sizes h.os.sched 43
      · exact hsched.symm ▸ fun n hn hlists => hlists.destroy (pid_ne_43 hn)
  | create name hsched hcount => exact ho.create hsched hcount hwf

end

/-- It holds after the boot: three tasks of the system, and one terminal with its task. -/
theorem tasksOwned_boot (hw : Hardware) (logoPng : List UInt8) :
    TasksOwned (Hist.boot hw logoPng) where
  wf := wmAddWindow_wf wmInit_wf _ _ _ _ _ _
  linked := (tasks_taskCreate (schedulerInit_linked Scheduler.static) _ _).1
  pids := rfl
  room _ := rfl
  owner n hn := by
    have hn : n < 1 := hn
    obtain rfl : n = 0 := by omega
    rfl
  lists n hn := by
    have hn : n < 1 := hn
    obtain rfl : n = 0 := by omega
    exact lists_newTask (schedulerInit_linked Scheduler.static) _ _

/-- It holds of every history. -/
theorem tasksOwned {hw : Hardware} {logoPng : List UInt8} {h : Hist}
    (hreach : Reachable Hist.step (Hist.boot hw logoPng) h) : TasksOwned h :=
  hreach.invariant (tasksOwned_boot hw logoPng) fun _ e ho => ho.step e

/-! ## `exit` -/

/-- `exit` is the line that Enter ends: outside the terminal it destroys the task 43 and does
nothing else. -/
theorem handleEnter_exit (env : Env) {s : Shell} {line : List UInt8} {rest : Option (List UInt8)}
    (hline : s.term.EditsLine line)
    (hword : strtok (str " ") (some line) = (some (str "exit"), rest)) :
    (handleEnter env s).acts = s.acts ++ [.destroyTask 43] := by
  have hecho : (echoLine { s with term := terminate s.term }).term.EditsLine line := by
    rw [hline.terminate]
    exact echoLine_line hline
  have hcmd : strtok (str " ") (some (echoLine { s with term := terminate s.term }).term.cmdBuf) =
      (some (str "exit"), rest) := by
    rw [← strtok_cstr, hecho.cstr_buf]
    exact hword
  have hlen : strlen (echoLine { s with term := terminate s.term }).term.cmdBuf ≤ 127 := by
    rw [hecho.strlen_buf, hecho.length]
    exact hecho.short
  unfold handleEnter
  dsimp only
  rw [execCommand_builtin env hlen hcmd (b := .exit) rfl, acts_term]
  exact (acts_cmdExit _).trans (congrArg (· ++ [Effect.destroyTask 43]) (by simp [echoLine]))

/-- The title of a terminal window names the terminal in the registry. -/
theorem appFindByTitle_terminal :
    Os.appFindByTitle shellRegistry.entries (str "Onken Terminal") =
      some ⟨str "terminal", str "Onken Terminal", str "Command Shell"⟩ := by
  decide

/-- `exit` destroys the task 43, which is the number that the source has, not that of the terminal's
own task. -/
theorem RunsExit.sched {s : Os} {c : UInt8} {w : Window Title (List UInt8)} (h : RunsExit s c w)
    (hw : Hardware) (ctrl : Bool) :
    (osStep s (.key hw ctrl c)).sched = taskDestroy s.sched 43 := by
  obtain ⟨a, hactive⟩ := h.active
  obtain ⟨line, rest, hline, hword⟩ := h.line
  have hc : c ≠ 0 := by
    rcases h.enter with rfl | rfl
    · decide
    · decide
  have happ : Os.appFindByTitle shellRegistry.entries (s.titleText w.title) =
      some ⟨str "terminal", str "Onken Terminal", str "Command Shell"⟩ := by
    rw [h.title]
    exact appFindByTitle_terminal
  have hkey : terminalHandleKey (s.env hw) true c ⟨s.term, s.files, false, []⟩ =
      handleEnter (s.env hw) ⟨s.term, s.files, false, []⟩ := if_pos h.enter
  have hacts : (handleEnter (s.env hw) ⟨s.term, s.files, false, []⟩).acts = [.destroyTask 43] :=
    handleEnter_exit _ hline hword
  change (s.dispatchKey hw ctrl c).sched = _
  rw [dispatchKey_eq hw hc hactive happ]
  change (s.terminalKey hw c).sched = _
  unfold Os.terminalKey
  rw [hkey]
  dsimp only
  rw [foldl_effect_acts]
  exact congrArg (fun es => (List.foldl (Os.effect hw) s es).sched) hacts

/-- The task of the terminal's window is still in the list: its pid is one from 4 to 19. -/
theorem TasksOwned.exit {h : Hist} (ho : TasksOwned h) (hw : Hardware) (ctrl : Bool) {c : UInt8}
    {w : Window Title (List UInt8)} (hexit : RunsExit h.os c w) :
    h.owner w.serial = some (w.serial + 3) ∧
      ¬ RemovesOnly h.os.sched (osStep h.os (.key hw ctrl c)).sched (w.serial + 3) := by
  have hle : h.os.wm.windowCount ≤ 16 := ho.wf.count_le
  obtain ⟨a, hactive⟩ := hexit.active
  have hmem : w ∈ h.os.wm.windows := List.mem_of_getElem? (openActive_eq_some.1 hactive).2.1
  have hserial : w.serial < h.os.wm.windowCount :=
    List.mem_range.1 (ho.wf.serials.mem_iff.1 (List.mem_map_of_mem hmem))
  refine ⟨ho.owner _ hserial, ?_⟩
  rintro ⟨ps, -, hps⟩
  have hlists := (ho.lists _ hserial).destroy (pid_ne_43 (by omega))
  rw [← hexit.sched hw ctrl] at hlists
  obtain ⟨⟨qs, hqs, hown⟩, -⟩ := hlists
  rw [hqs.unique hps] at hown
  simp at hown

/-- **`exit` never removes the task of its terminal.** In every history, whatever terminal it runs
in, the list does not lose that task: `exit` destroys the task 43, and no terminal's task has that
pid. -/
theorem exit_keeps_own {hw₀ : Hardware} {logoPng : List UInt8} {h : Hist}
    (hreach : Reachable Hist.step (Hist.boot hw₀ logoPng) h) (hw : Hardware) (ctrl : Bool)
    {c : UInt8} {w : Window Title (List UInt8)} (hexit : RunsExit h.os c w) :
    ∃ own, h.owner w.serial = some own ∧
      ¬ RemovesOnly h.os.sched (osStep h.os (.key hw ctrl c)).sched own :=
  ⟨_, (tasksOwned hreach).exit hw ctrl hexit⟩

/-! ## `exit` in the first terminal -/

/-- Characters that are typed into a terminal that is the active window. -/
theorem run_typedKeys (hw : Hardware) {a : Nat} {w : Window Title (List UInt8)} (cs : List UInt8)
    {h : Hist} {line : List UInt8} (hactive : h.os.wm.openActive = some (a, w))
    (htitle : w.title = .literal (str "Onken Terminal")) (hline : h.os.term.EditsLine line)
    (hcs : ∀ c ∈ cs, 32 ≤ c ∧ c < 127) (hroom : line.length + cs.length ≤ 127) :
    ∃ t, t.EditsLine (line ++ cs) ∧
      (run Hist.step h (cs.map (.key hw false))).os = { h.os with term := t } := by
  induction cs generalizing h line with
  | nil => exact ⟨h.os.term, by rwa [List.append_nil], rfl⟩
  | cons c cs ih =>
      have hc := hcs c List.mem_cons_self
      have hc0 : c ≠ 0 := fun h0 => absurd (h0 ▸ hc.1) (by decide)
      rw [List.length_cons] at hroom
      have happ : Os.appFindByTitle shellRegistry.entries (h.os.titleText w.title) =
          some ⟨str "terminal", str "Onken Terminal", str "Command Shell"⟩ := by
        rw [htitle]
        exact appFindByTitle_terminal
      have hstep : osStep h.os (.key hw false c) =
          { h.os with term := typeChar h.os.term c } := by
        change h.os.dispatchKey hw false c = _
        rw [dispatchKey_eq hw hc0 hactive happ]
        exact terminalKey_char hw hc
      have hnext := hline.typeChar hc0
      rw [if_pos (by omega)] at hnext
      have hos : (h.step (.key hw false c)).os =
          { h.os with term := typeChar h.os.term c } := hstep
      obtain ⟨t, ht, hrun⟩ := ih (h := h.step (.key hw false c))
        (by rw [hos]; exact hactive) (by rw [hos]; exact hnext)
        (fun d hd => hcs d (List.mem_cons_of_mem c hd))
        (by rw [List.length_append, List.length_singleton]; omega)
      refine ⟨t, ?_, ?_⟩
      · rwa [List.append_assoc] at ht
      · rw [List.map_cons, run_cons, hrun, hos]

/-- The terminal of the boot has an empty line, as `terminal_launch` clears it. -/
theorem boot_line (hw : Hardware) (logoPng : List UInt8) :
    (Os.boot hw logoPng).term.EditsLine [] := by
  unfold Os.boot Os.terminalLaunch
  dsimp only
  exact terminalLaunch_line _ _

/-- After the boot, `exit` is typed. -/
def exitTyped (hw : Hardware) (logoPng : List UInt8) : Hist :=
  run Hist.step (Hist.boot hw logoPng) ((str "exit").map (.key hw false))

/-- Enter now runs `exit`, in the terminal of the boot: its window is the active one, and its line
is `exit`. -/
theorem exitTyped_runsExit (hw : Hardware) (logoPng : List UInt8) :
    ∃ w, w.serial = 0 ∧ RunsExit (exitTyped hw logoPng).os 10 w := by
  have hactive : ∃ a w, (Os.boot hw logoPng).wm.openActive = some (a, w) ∧
      w.title = .literal (str "Onken Terminal") ∧ w.serial = 0 := ⟨_, _, rfl, rfl, rfl⟩
  obtain ⟨a, w, hactive, htitle, hserial⟩ := hactive
  have hall : (str "exit").all (fun c => decide (32 ≤ c ∧ c < 127)) = true := rfl
  have hprint : ∀ c ∈ str "exit", 32 ≤ c ∧ c < 127 := fun c hc =>
    of_decide_eq_true (List.all_eq_true.1 hall c hc)
  have hroom : ([] : List UInt8).length + (str "exit").length ≤ 127 := by
    rw [List.length_nil, Nat.zero_add]
    decide
  obtain ⟨t, ht, hrun⟩ := run_typedKeys hw (str "exit") (h := Hist.boot hw logoPng) hactive htitle
    (boot_line hw logoPng) hprint hroom
  refine ⟨w, hserial, .inl rfl, ⟨a, ?_⟩, htitle, str "exit", none, ?_, ?_⟩
  · exact (congrArg (fun s : Os => s.wm.openActive) hrun).trans hactive
  · exact (congrArg (fun s : Os => s.term.EditsLine (str "exit")) hrun).mpr ht
  · have hword : IsWord (str "exit") := ⟨by decide, by decide⟩
    have htok := strtok_word none spaces_nil hword (by decide)
    rw [afterWord, List.append_nil, List.nil_append] at htok
    exact htok

/-- Right after the boot `exit` closes the terminal, whose task stays in the list. -/
theorem exit_keeps_own_boot : ∃ (w : Window Title (List UInt8)) (own : Nat),
    (exitTyped Env.zero.hw []).owner w.serial = some own ∧
      ¬ RemovesOnly (exitTyped Env.zero.hw []).os.sched
        (osStep (exitTyped Env.zero.hw []).os (.key Env.zero.hw false 10)).sched own := by
  obtain ⟨w, -, hexit⟩ := exitTyped_runsExit Env.zero.hw []
  exact ⟨w, exit_keeps_own ⟨_, rfl⟩ Env.zero.hw false hexit⟩

/-- `exit` in the terminal of the boot does not remove its task: that one has the pid 4. -/
theorem exit_misses_task : ¬ ∀ (hw₀ : Hardware) (logoPng : List UInt8) (h : Hist),
    Reachable Hist.step (Hist.boot hw₀ logoPng) h →
      ∀ (hw : Hardware) (ctrl : Bool) (c : UInt8) (w : Window Title (List UInt8)),
        RunsExit h.os c w → ∃ own, h.owner w.serial = some own ∧
          RemovesOnly h.os.sched (osStep h.os (.key hw ctrl c)).sched own := by
  intro hall
  obtain ⟨w, -, hexit⟩ := exitTyped_runsExit Env.zero.hw []
  have hreach : Reachable Hist.step (Hist.boot Env.zero.hw []) (exitTyped Env.zero.hw []) :=
    ⟨_, rfl⟩
  obtain ⟨own, hown, hremoves⟩ := hall _ _ _ hreach Env.zero.hw false 10 w hexit
  obtain ⟨howner, hkeeps⟩ := (tasksOwned hreach).exit Env.zero.hw false hexit
  cases hown.symm.trans howner
  exact hkeeps hremoves

end OnkenOS
