import OnkenOS.Kernel.TaskList

/-!
# Whose time a tick is charged to

`scheduler_init` makes `init` the current task and nothing changes that later, but `task_destroy`
takes any task out of the list, the current one too. A tick then still charges the zombie.
`time_charged_iff` says that this happens exactly when pid 1 is destroyed.
-/

namespace OnkenOS

open Linked Machine

/-- The calls, and the timer. -/
inductive TaskEvent where
  | call (c : TaskCall)
  | tick

/-- One event. -/
def taskEvent (s : Scheduler) : TaskEvent → Scheduler
  | .call c => taskCall s c
  | .tick => schedulerTick s

/-- There is no current task, or it is in the list and no zombie, and a tick is charged to it. -/
def Charged (s : Scheduler) : Prop :=
  ∀ p, s.currentTask = some p → ∃ ps t, IsChain Task.next s.blocks s.taskList ps ∧ p ∈ ps ∧
    s.blocks[p]? = some t ∧ t.state ≠ .zombie ∧
      (schedulerTick s).blocks[p]? = some { t with runtimeTicks := t.runtimeTicks + 1 }

/-- The event does not destroy `init`. -/
def SparesInit (e : TaskEvent) : Prop := ∀ pid, e = .call (.destroy pid) → pid ≠ 1

/-- `init` is the current task and the first of the list. -/
structure InitFirst (s : Scheduler) : Prop where
  current : s.currentTask = some 0
  chain : ∃ ps, IsChain Task.next s.blocks s.taskList (0 :: ps)
  task : ∃ t, s.blocks[0]? = some t ∧ t.pid = 1 ∧ t.state = .running

section
variable {s : Scheduler}

/-- A tick stores into the current task only: its time goes up, and no link or state changes. -/
theorem schedulerTick_blocks {p : Nat} (h : s.currentTask = some p) :
    (schedulerTick s).blocks =
        (s.modify p fun t => { t with runtimeTicks := t.runtimeTicks + 1 }).blocks ∧
      (schedulerTick s).taskList = s.taskList ∧ (schedulerTick s).currentTask = some p := by
  unfold schedulerTick
  simp only [h]
  split
  · exact ⟨rfl, rfl, h⟩
  · split
    · exact ⟨rfl, rfl, h⟩
    · exact ⟨rfl, rfl, h⟩

/-- While `init` is the current task, a tick is charged to it. -/
theorem InitFirst.charged (h : InitFirst s) : Charged s := by
  intro p hp
  cases h.current.symm.trans hp
  obtain ⟨ps, hps⟩ := h.chain
  obtain ⟨t, ht, -, hstate⟩ := h.task
  refine ⟨0 :: ps, t, hps, .head _, ht, by simp [hstate], ?_⟩
  rw [(schedulerTick_blocks h.current).1, getElem?_modify, ht]
  simp

/-- Creating a task leaves `init` where it is, as it is linked behind the others. -/
theorem InitFirst.create (h : InitFirst s) (name : List UInt8) (isKernel : BitVec 8) :
    InitFirst (taskCreate s name isKernel).1 := by
  obtain ⟨ps, hps⟩ := h.chain
  obtain ⟨t, ht, hpid, hstate⟩ := h.task
  obtain ⟨hchain, hkeep, -⟩ := taskCreate_chain hps name isKernel
  have hzero := hkeep 0 (.head _)
  rw [ht, Option.map_some] at hzero
  obtain ⟨u, hu, hcopy⟩ := Option.map_eq_some_iff.1 hzero
  refine ⟨(taskCreate_globals s name isKernel).2.trans h.current, ⟨_, hchain⟩, u, hu, ?_, ?_⟩
  · exact (congrArg Task.pid hcopy).trans hpid
  · exact (congrArg Task.state hcopy).trans hstate

/-- Destroying another task leaves `init` where it is, at the head of the list and not a zombie. -/
theorem InitFirst.destroy (h : InitFirst s) {pid : BitVec 32} (hpid : pid ≠ 1) :
    InitFirst (taskDestroy s pid) := by
  obtain ⟨ps, hps⟩ := h.chain
  obtain ⟨t, ht, htpid, hstate⟩ := h.task
  rcases taskDestroy_cases hps pid with ⟨he, -⟩ | ⟨front, x, back, heq, hx, -, hd⟩
  · rw [he]
    exact h
  · have hne : x ≠ 0 := by
      rintro rfl
      simp only [Scheduler.hasPid, ht, Option.any_some, decide_eq_true_eq] at hx
      exact hpid (hx.symm.trans htpid)
    obtain ⟨front, rfl⟩ : ∃ front', front = 0 :: front' := by
      cases front with
      | nil => exact absurd (List.cons.inj heq).1.symm hne
      | cons q front => exact ⟨front, by rw [(List.cons.inj heq).1]⟩
    have hzero := hd.blocks 0
    rw [ht, Option.map_some, Task.destroyed, if_neg hne] at hzero
    obtain ⟨u, hu, hcopy⟩ := Option.map_eq_some_iff.1 hzero
    refine ⟨hd.currentTask.trans h.current, ⟨_, hd.chain⟩, u, hu, ?_, ?_⟩
    · exact (congrArg Task.pid hcopy).trans htpid
    · exact (congrArg Task.state hcopy).trans hstate

/-- Destroying pid 1 leaves a zombie as the current task: `task_destroy` unlinks it and does not
look at `current_task`. -/
theorem not_charged_destroy (h : InitFirst s) : ¬ Charged (taskDestroy s 1) := by
  intro hcharged
  obtain ⟨ps, hps⟩ := h.chain
  obtain ⟨t, ht, htpid, -⟩ := h.task
  have hhead : s.hasPid 1 0 = true := by simp [Scheduler.hasPid, ht, htpid]
  rcases taskDestroy_cases hps 1 with ⟨-, hnone⟩ | ⟨front, x, back, heq, hx, hfront, hd⟩
  · exact Bool.noConfusion (hhead.symm.trans (hnone 0 (.head _)))
  · obtain rfl : x = 0 := by
      cases front with
      | nil => exact (List.cons.inj heq).1.symm
      | cons q front =>
          have hq := hfront q (.head _)
          rw [← (List.cons.inj heq).1, hhead] at hq
          cases hq
    obtain ⟨_, u, -, -, hu, hstate, -⟩ := hcharged 0 (hd.currentTask.trans h.current)
    have hzero := hd.blocks 0
    rw [ht, hu, Option.map_some, Option.map_some, Task.destroyed, if_pos rfl] at hzero
    exact hstate (congrArg Task.state (Option.some.inj hzero))

/-- A tick changes no task's place, and `current_task` stays. -/
theorem InitFirst.tick (h : InitFirst s) : InitFirst (schedulerTick s) := by
  obtain ⟨hblocks, hlist, hcurrent⟩ := schedulerTick_blocks h.current
  obtain ⟨ps, hps⟩ := h.chain
  obtain ⟨t, ht, hpid, hstate⟩ := h.task
  refine ⟨hcurrent, ⟨ps, ?_⟩, { t with runtimeTicks := t.runtimeTicks + 1 }, ?_, hpid, hstate⟩
  · rw [hlist]
    refine hps.congr fun q _ => ?_
    rw [hblocks, getElem?_modify, Option.map_map]
    refine congrArg (fun f => (s.blocks[q]?).map f) (funext fun u => ?_)
    by_cases hq : 0 = q <;> simp [hq]
  · rw [hblocks, getElem?_modify, ht]
    simp

/-- An event that spares `init` keeps it the first task. -/
theorem InitFirst.step (h : InitFirst s) {e : TaskEvent} (he : SparesInit e) :
    InitFirst (taskEvent s e) := by
  cases e with
  | tick => exact h.tick
  | call c =>
      cases c with
      | create name isKernel => exact h.create name isKernel
      | destroy pid => exact h.destroy (he pid rfl)

/-- After an event the time is charged to a live task exactly when the event spares `init`. -/
theorem charged_step_iff (h : InitFirst s) (e : TaskEvent) :
    Charged (taskEvent s e) ↔ SparesInit e := by
  constructor
  · rintro hcharged _ rfl rfl
    exact not_charged_destroy h hcharged
  · exact fun he => (h.step he).charged

/-- `scheduler_init` creates `init` first and makes it the current task. -/
theorem initFirst_schedulerInit : InitFirst (schedulerInit .static) := by
  refine ⟨rfl, ?_, _, rfl, rfl, rfl⟩
  exact ⟨[1, 2], rfl, _, rfl, rfl, _, rfl, rfl, _, rfl, rfl⟩

end

/-- For every sequence of creations, destructions and ticks after `scheduler_init`: at every point
the current task is a listed one that is no zombie, and a tick is charged to it, exactly if no event
destroys pid 1, the task that `current_task` points to from the start on. -/
theorem time_charged_iff (es : List TaskEvent) :
    Charged (schedulerInit .static) ∧
      (RunOk taskEvent (fun s e => Charged (taskEvent s e)) (schedulerInit .static) es ↔
        ∀ e ∈ es, SparesInit e) := by
  refine ⟨initFirst_schedulerInit.charged, ?_⟩
  exact (RunOk_congr_of_ok InitFirst (fun _ e h => charged_step_iff h e)
    (fun _ _ h he => h.step he) es initFirst_schedulerInit).trans RunOk_iff_forall_mem

/-- Destroying `init` and the next tick: the tick is charged to a task that is no longer listed. -/
theorem time_charged_to_zombie :
    ¬ ∀ es : List TaskEvent,
      RunOk taskEvent (fun s e => Charged (taskEvent s e)) (schedulerInit .static) es :=
  fun h => not_charged_destroy initFirst_schedulerInit (h [.call (.destroy 1), .tick]).1

end OnkenOS
