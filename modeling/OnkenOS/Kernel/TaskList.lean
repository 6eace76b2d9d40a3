import OnkenOS.Kernel.Scheduler

/-!
# The task list is the live tasks

`task_create` appends to the list and `task_destroy` takes the first task with the pid out of it.
The pids count up from 1, so until they wrap around no two tasks share one, and the list is what
was created and not destroyed, in this order (`task_list_live`).
-/

namespace OnkenOS

open Linked Machine

/-- The calls that change the list. -/
inductive TaskCall where
  | create (name : List UInt8) (isKernel : BitVec 8)
  | destroy (pid : BitVec 32)

/-- The state after a call. -/
def taskCall (s : Scheduler) : TaskCall → Scheduler
  | .create name isKernel => (taskCreate s name isKernel).1
  | .destroy pid => taskDestroy s pid

/-- The call is `task_create`. -/
def TaskCall.isCreate : TaskCall → Bool
  | .create .. => true
  | .destroy _ => false

/-- The number of tasks that were created, and those that were not destroyed. -/
structure Live where
  created : Nat
  tasks : List Task

/-- The task number `n`, as it is created. -/
def liveTask (n : Nat) (name : List UInt8) (isKernel : BitVec 8) : Task :=
  ⟨BitVec.ofNat 32 n, strncpy (List.replicate 31 0) name 31, .running, 0, 0, isKernel, none⟩

/-- The live tasks after a call. -/
def liveStep (l : Live) : TaskCall → Live
  | .create name isKernel =>
      ⟨l.created + 1, l.tasks ++ [liveTask (l.created + 1) name isKernel]⟩
  | .destroy pid => { l with tasks := l.tasks.filter (·.pid ≠ pid) }

/-- The calls that `scheduler_init` makes. -/
def initCalls : List TaskCall :=
  [.create (str "init") 1, .create (str "window_manager") 1, .create (str "terminal") 1]

/-- The tasks are sorted by their pids. -/
def PidsIncrease (tasks : List Task) : Prop := tasks.Pairwise fun t u => t.pid < u.pid

/-- The list of the scheduler is that of the live tasks. -/
structure ListsLive (s : Scheduler) (live : List Task) : Prop where
  /-- Following `next` from `task_get_list()` on, the list ends. -/
  linked : s.Linked
  tasks : s.tasks = live
  increase : PidsIncrease s.tasks
  absent : ∀ pid, (∀ t ∈ s.tasks, t.pid ≠ pid) → taskDestroy s pid = s
  getTasks : ∀ maxTasks, sysGetTasks s maxTasks = s.tasks.take (min maxTasks s.tasks.length)

/-- The scheduler, while the pids have not wrapped around. -/
structure Tracks (s : Scheduler) (l : Live) : Prop where
  linked : s.Linked
  tasks : s.tasks = l.tasks
  nextPid : s.nextPid = BitVec.ofNat 32 (l.created + 1)
  increase : PidsIncrease l.tasks
  le_created : ∀ t ∈ l.tasks, t.pid.toNat ≤ l.created

section
variable {s : Scheduler} {l : Live} {ps : List Nat}

/-! ## One call -/

/-- A task is in the list if its cell is on the chain. -/
theorem mem_tasks (h : IsChain Task.next s.blocks s.taskList ps) {t : Task} :
    t ∈ s.tasks ↔ ∃ q ∈ ps, (s.blocks[q]?).map Task.copy = some t := by
  rw [tasks_chain h, List.mem_filterMap]

/-- A pid is in the list exactly when some task has it. -/
theorem hasPid_iff (pid : BitVec 32) (q : Nat) :
    s.hasPid pid q = true ↔ ∃ t, (s.blocks[q]?).map Task.copy = some t ∧ t.pid = pid := by
  unfold Scheduler.hasPid
  cases s.blocks[q]? with
  | none => simp
  | some t => simp [Task.copy]

/-- `task_destroy` of a pid that no task has changes nothing. -/
theorem taskDestroy_absent (h : s.Linked) {pid : BitVec 32}
    (hpid : ∀ t ∈ s.tasks, t.pid ≠ pid) : taskDestroy s pid = s := by
  obtain ⟨ps, hps⟩ := h
  rcases taskDestroy_cases hps pid with ⟨he, -⟩ | ⟨front, x, back, rfl, hx, -, -⟩
  · exact he
  · obtain ⟨t, ht, htpid⟩ := (hasPid_iff pid x).1 hx
    exact absurd htpid (hpid t ((mem_tasks hps).2 ⟨x, by simp, ht⟩))

/-- `task_destroy` takes the task with the pid out of the list, if there is one. -/
theorem tasks_taskDestroy (h : s.Linked) (hinc : PidsIncrease s.tasks) (pid : BitVec 32) :
    (taskDestroy s pid).tasks = s.tasks.filter (·.pid ≠ pid) := by
  obtain ⟨ps, hps⟩ := h
  rcases taskDestroy_cases hps pid with ⟨he, hnone⟩ | ⟨front, x, back, rfl, hx, hfront, hd⟩
  · rw [he, List.filter_eq_self.2]
    intro t ht
    obtain ⟨q, hq, hqt⟩ := (mem_tasks hps).1 ht
    have hne : ¬ ∃ u, (s.blocks[q]?).map Task.copy = some u ∧ u.pid = pid :=
      mt (hasPid_iff pid q).2 (by simp [hnone q hq])
    simpa using fun htpid => hne ⟨t, hqt, htpid⟩
  · obtain ⟨t, ht, htpid⟩ := (hasPid_iff pid x).1 hx
    have hkeep : ∀ q ∈ front ++ back, ((taskDestroy s pid).blocks[q]?).map Task.copy =
        (s.blocks[q]?).map Task.copy := by
      intro q hq
      rw [hd.blocks]
      refine congrArg (fun f => (s.blocks[q]?).map f) (funext fun u => ?_)
      exact if_neg (hps.ne_of_mem q hq)
    have hsplit : s.tasks = (front.filterMap fun q => (s.blocks[q]?).map Task.copy) ++
        t :: back.filterMap fun q => (s.blocks[q]?).map Task.copy := by
      rw [tasks_chain hps, List.filterMap_append, List.filterMap_cons, ht]
    rw [tasks_chain hd.chain, List.filterMap_congr hkeep, hsplit, List.filterMap_append,
      List.filter_append, List.filter_cons_of_neg (by simp [htpid])]
    rw [PidsIncrease, hsplit, List.pairwise_append, List.pairwise_cons] at hinc
    obtain ⟨-, ⟨hback, -⟩, hlt⟩ := hinc
    rw [List.filter_eq_self.2, List.filter_eq_self.2]
    · intro u hu
      have hne : t.pid ≠ u.pid := BitVec.ne_of_lt (hback u hu)
      simpa [htpid] using hne.symm
    · intro u hu
      have hne : u.pid ≠ t.pid := BitVec.ne_of_lt (hlt u hu t (.head _))
      simpa [htpid] using hne

/-- A call keeps track of the live tasks, as long as the pids do not wrap around. -/
theorem Tracks.step (h : Tracks s l) (c : TaskCall) (hfit : (liveStep l c).created < 2 ^ 32) :
    Tracks (taskCall s c) (liveStep l c) := by
  cases c with
  | create name isKernel =>
      obtain ⟨hlinked, htasks⟩ := tasks_taskCreate h.linked name isKernel
      have hfit' : l.created + 1 < 2 ^ 32 := hfit
      have hnew : newTask s name isKernel = liveTask (l.created + 1) name isKernel := by
        rw [newTask, h.nextPid, liveTask]
      have hpid : (liveTask (l.created + 1) name isKernel).pid.toNat = l.created + 1 := by
        rw [liveTask, BitVec.toNat_ofNat, Nat.mod_eq_of_lt hfit']
      refine ⟨hlinked, ?_, ?_, ?_, ?_⟩
      · rw [liveStep, ← h.tasks, ← hnew]
        exact htasks
      · rw [taskCall, (taskCreate_globals s name isKernel).1, h.nextPid]
        exact (BitVec.ofNat_add (l.created + 1) 1).symm
      · refine List.pairwise_append.2 ⟨h.increase, List.pairwise_singleton _ _, ?_⟩
        intro t ht u hu
        have hle := h.le_created t ht
        rw [List.mem_singleton.1 hu, BitVec.lt_def, hpid]
        omega
      · intro t ht
        rcases List.mem_append.1 ht with ht | ht
        · exact Nat.le_succ_of_le (h.le_created t ht)
        · rw [List.mem_singleton.1 ht, hpid]
          exact Nat.le_refl _
  | destroy pid =>
      have htasks := tasks_taskDestroy h.linked (h.tasks ▸ h.increase) pid
      refine ⟨taskDestroy_linked h.linked pid, ?_, ?_, h.increase.filter _, fun t ht => ?_⟩
      · rw [liveStep, ← h.tasks]
        exact htasks
      · obtain ⟨ps, hps⟩ := h.linked
        rw [liveStep, ← h.nextPid, taskCall]
        rcases taskDestroy_cases hps pid with ⟨he, -⟩ | ⟨_, _, _, -, -, -, hd⟩
        · rw [he]
        · exact hd.nextPid
      · exact h.le_created t (List.mem_of_mem_filter ht)

/-- What the tracked list gives a caller: it ends, and has the live tasks in their order. -/
theorem Tracks.lists (h : Tracks s l) : ListsLive s l.tasks where
  linked := h.linked
  tasks := h.tasks
  increase := by
    rw [h.tasks]
    exact h.increase
  absent _ hpid := taskDestroy_absent h.linked hpid
  getTasks maxTasks := by
    rw [sysGetTasks, Scheduler.tasks, List.map_take, ← List.take_eq_take_min]

/-! ## Runs -/

/-- Only `task_create` counts. -/
theorem created_liveStep (l : Live) (c : TaskCall) :
    (liveStep l c).created = l.created + if c.isCreate then 1 else 0 := by
  cases c <;> rfl

/-- The tasks that were created are those before and one for each `task_create` of the run. -/
theorem created_run (calls : List TaskCall) (l : Live) :
    (run liveStep l calls).created = l.created + calls.countP TaskCall.isCreate := by
  induction calls generalizing l with
  | nil => rfl
  | cons c calls ih =>
      rw [run_cons, ih, created_liveStep, List.countP_cons]
      omega

/-- The list follows the live tasks in every run that does not use up the pids. By induction from
one call. -/
theorem Tracks.run (h : Tracks s l) (calls : List TaskCall)
    (hfit : l.created + calls.countP TaskCall.isCreate < 2 ^ 32) :
    Tracks (run taskCall s calls) (run liveStep l calls) := by
  induction calls generalizing s l with
  | nil => exact h
  | cons c calls ih =>
      rw [List.countP_cons] at hfit
      have hnext := created_liveStep l c
      exact ih (h.step c (by omega)) (by omega)

/-- The calls of `scheduler_init` create the first tasks, which are the live ones. -/
theorem tracks_schedulerInit :
    Tracks (schedulerInit .static) (Machine.run liveStep ⟨0, []⟩ initCalls) := by
  have hnil : Tracks .static ⟨0, []⟩ := ⟨⟨[], rfl⟩, rfl, rfl, .nil, by simp⟩
  have hinit := hnil.run initCalls (by decide)
  exact ⟨hinit.linked, hinit.tasks, hinit.nextPid, hinit.increase, hinit.le_created⟩

end

/-- For every sequence of `task_create` and `task_destroy` calls after `scheduler_init`, with fewer
than `2 ^ 32` creations, the three of `scheduler_init` included: the list ends, and is the tasks
that were created and not destroyed, in the order of creation, with increasing pids. -/
theorem task_list_live (calls : List TaskCall)
    (h : initCalls.length + calls.countP TaskCall.isCreate < 2 ^ 32) :
    ListsLive (run taskCall (schedulerInit .static) calls)
      (run liveStep ⟨0, []⟩ (initCalls ++ calls)).tasks := by
  rw [run_append]
  refine (tracks_schedulerInit.run calls ?_).lists
  rw [created_run]
  exact h

/-- Two more tasks, and the second of them destroyed: the list has the other one behind those of
`scheduler_init`. -/
theorem task_list_live_two :
    ListsLive (run taskCall (schedulerInit .static)
        [.create (str "files") 0, .create (str "yano") 0, .destroy 5])
      (run liveStep ⟨0, []⟩ (initCalls ++
        [.create (str "files") 0, .create (str "yano") 0, .destroy 5])).tasks :=
  task_list_live [.create (str "files") 0, .create (str "yano") 0, .destroy 5] (by decide)

/-! ## The pids wrap around -/

/-- Any number of creations appends as many tasks, each with the next pid, which wraps around after
the last one. -/
theorem run_creates {s : Scheduler} (h : s.Linked) (name : List UInt8) (isKernel : BitVec 8)
    (n : Nat) :
    (run taskCall s (List.replicate n (.create name isKernel))).Linked ∧
      (run taskCall s (List.replicate n (.create name isKernel))).nextPid =
        s.nextPid + BitVec.ofNat 32 n ∧
      s.tasks <+: (run taskCall s (List.replicate n (.create name isKernel))).tasks := by
  induction n with
  | zero => exact ⟨h, (BitVec.add_zero _).symm, List.prefix_rfl⟩
  | succ n ih =>
      obtain ⟨hlinked, hnext, hfront⟩ := ih
      rw [List.replicate_succ', run_append, run_cons, run_nil, taskCall]
      obtain ⟨hlinked', htasks⟩ := tasks_taskCreate hlinked name isKernel
      refine ⟨hlinked', ?_, ?_⟩
      · rw [(taskCreate_globals _ name isKernel).1, hnext, BitVec.add_assoc, BitVec.ofNat_add]
        rfl
      · rw [htasks]
        exact hfront.trans (List.prefix_append _ _)

/-- The creation number `2 ^ 32`, after those of `scheduler_init`, has the pid 0: the pids no longer
increase. -/
theorem task_pids_wrap :
    ¬ ∀ calls : List TaskCall, calls.countP TaskCall.isCreate < 2 ^ 32 →
      ListsLive (run taskCall (schedulerInit .static) calls)
        (run liveStep ⟨0, []⟩ (initCalls ++ calls)).tasks := by
  intro h
  have hinit := tracks_schedulerInit
  generalize hn : (4294967292 : Nat) = n
  obtain ⟨hlinked, hnext, hfront⟩ := run_creates hinit.linked [] 0 n
  have hcreates : (List.replicate (n + 1) (TaskCall.create [] 0)).countP TaskCall.isCreate <
      2 ^ 32 := by
    rw [List.countP_replicate]
    change n + 1 < 2 ^ 32
    omega
  have hincrease := (h (List.replicate (n + 1) (.create [] 0)) hcreates).increase
  have htasks := (tasks_taskCreate hlinked [] 0).2
  rw [List.replicate_succ', run_append, run_cons, run_nil, taskCall, htasks, PidsIncrease,
    List.pairwise_append] at hincrease
  have hzero : (newTask (run taskCall (schedulerInit .static)
      (List.replicate n (.create [] 0))) [] 0).pid = 0 := by
    rw [newTask, hnext, hinit.nextPid, ← hn]
    decide
  have hfirst : (liveTask 1 (str "init") 1) ∈ (schedulerInit .static).tasks := by
    rw [hinit.tasks]
    decide
  have hlt := hincrease.2.2 _ (hfront.subset hfirst) _ (.head _)
  rw [hzero] at hlt
  exact absurd hlt (by decide)

end OnkenOS
