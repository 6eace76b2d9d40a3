import OnkenOS.Kernel.CString
import OnkenOS.Lib.Linked
import OnkenOS.Lib.Run

/-!
# The tasks

`kernel/scheduler/scheduler.c`, and the calls of `kernel/syscalls/syscall.c` to it. A `task_t*` is
the number of the block `kmalloc` returned, and no block is returned twice. The tasks are a linked
list that ends (`Scheduler.Linked`), and every call keeps it so; the walks of the code, which the
model bounds by the number of blocks, then reach its end.
-/

namespace OnkenOS

open Linked Machine

/-- `task_state_t`. -/
inductive TaskState where
  | running
  | sleeping
  | blocked
  | zombie
deriving DecidableEq

/-- `task_t`; `name` is its first 31 bytes, those that are written. -/
structure Task where
  pid : BitVec 32
  name : List UInt8
  state : TaskState
  runtimeTicks : BitVec 64
  stackPointer : BitVec 64
  isKernel : BitVec 8
  next : Option Nat
deriving DecidableEq

/-- The static variables of `scheduler.c`, `idle_ticks` and the blocks. -/
structure Scheduler where
  blocks : List Task
  taskList : Option Nat
  currentTask : Option Nat
  nextPid : BitVec 32
  idleTicks : BitVec 64

/-- The static initialisers. -/
def Scheduler.static : Scheduler := ⟨[], none, none, 1, 0⟩

/-- `*p = f(*p)`, for a pointer to a block. -/
def Scheduler.modify (s : Scheduler) (p : Nat) (f : Task → Task) : Scheduler :=
  { s with blocks := s.blocks.modify p f }

/-- The task that `task_create` adds. -/
def newTask (s : Scheduler) (name : List UInt8) (isKernel : BitVec 8) : Task where
  pid := s.nextPid
  name := strncpy (List.replicate 31 0) name 31
  state := .running
  runtimeTicks := 0
  stackPointer := 0
  isKernel := isKernel
  next := none

/-- `task_create`, with the pointer it returns. -/
def taskCreate (s : Scheduler) (name : List UInt8) (isKernel : BitVec 8) : Scheduler × Nat :=
  let t := s.blocks.length
  let s := { s with
    blocks := s.blocks ++ [newTask s name isKernel]
    nextPid := s.nextPid + 1 }
  match s.taskList with
  | none => ({ s with taskList := some t }, t)
  | some head =>
      (s.modify (last Task.next s.blocks s.blocks.length head) ({ · with next := some t }), t)

/-- `task_destroy`. -/
def taskDestroy (s : Scheduler) (pid : BitVec 32) : Scheduler :=
  match s.taskList with
  | none => s
  | some head =>
      match s.blocks[head]? with
      | none => s
      | some t =>
          if t.pid = pid then
            ({ s with taskList := t.next } : Scheduler).modify head ({ · with state := .zombie })
          else
            match findBehind Task.next (·.pid = pid) s.blocks s.blocks.length head with
            | none => s
            | some (curr, toFree) =>
                (s.modify curr ({ · with next := (s.blocks[toFree]?).bind Task.next })).modify
                  toFree ({ · with state := .zombie })

/-- The tasks from `task_get_list()` on. -/
def taskCells (s : Scheduler) : List Task := cells Task.next s.blocks s.blocks.length s.taskList

/-- `task_get_count`. -/
def taskGetCount (s : Scheduler) : Nat := (taskCells s).countP (·.state ≠ .zombie)

/-- The copy of a task, with its next pointer broken. -/
def Task.copy (t : Task) : Task := { t with next := none }

/-- `sys_get_tasks`: the copies it stores. -/
def sysGetTasks (s : Scheduler) (maxTasks : Nat) : List Task :=
  ((taskCells s).take maxTasks).map Task.copy

/-- `scheduler_init`. -/
def schedulerInit (s : Scheduler) : Scheduler :=
  let s := { s with taskList := none }
  let (s, init) := taskCreate s (str "init") 1
  let s := (taskCreate s (str "window_manager") 1).1
  let s := (taskCreate s (str "terminal") 1).1
  { s with currentTask := some init }

/-- `scheduler_tick`. -/
def schedulerTick (s : Scheduler) : Scheduler :=
  match s.currentTask with
  | none => s
  | some p =>
      let s := s.modify p fun t => { t with runtimeTicks := t.runtimeTicks + 1 }
      match s.blocks[p]? with
      | none => s
      | some t =>
          if strcmp t.name (str "init") = 0 then { s with idleTicks := s.idleTicks + 1 } else s

/-! ## The list -/

/-- The tasks are a list that ends. -/
def Scheduler.Linked (s : Scheduler) : Prop := ∃ ps, IsChain Task.next s.blocks s.taskList ps

/-- The task list: what `sys_get_tasks` stores if there is room. -/
def Scheduler.tasks (s : Scheduler) : List Task := (taskCells s).map Task.copy

section
variable {s : Scheduler} {ps : List Nat}

/-- What the blocks hold after a store: the one it is made through is changed, the others stay. -/
theorem getElem?_modify (s : Scheduler) (p q : Nat) (f : Task → Task) :
    (s.modify p f).blocks[q]? = (s.blocks[q]?).map fun t => if p = q then f t else t := by
  rw [Scheduler.modify, List.getElem?_modify]
  rfl

/-- What a store leaves as it was: whatever is read of a block that the store does not write. -/
theorem map_getElem?_modify {β : Type} {g : Task → β} {f : Task → Task} (hf : ∀ t, g (f t) = g t)
    (s : Scheduler) (p q : Nat) :
    ((s.modify p f).blocks[q]?).map g = (s.blocks[q]?).map g := by
  rw [getElem?_modify, Option.map_map]
  refine congrArg (fun g => (s.blocks[q]?).map g) (funext fun t => ?_)
  by_cases hpq : p = q <;> simp [hpq, hf]

/-- The task list holds copies of the cells along its chain, without their next pointers. -/
theorem tasks_chain (h : IsChain Task.next s.blocks s.taskList ps) :
    s.tasks = ps.filterMap fun q => (s.blocks[q]?).map Task.copy := by
  rw [Scheduler.tasks, taskCells, cells_chain h h.length_le, List.map_filterMap]

/-- The blocks after `task_create`: the last cell links to the new one. -/
theorem taskCreate_some {front : List Nat} {q : Nat}
    (h : IsChain Task.next s.blocks s.taskList (front ++ [q])) (name : List UInt8)
    (isKernel : BitVec 8) :
    (taskCreate s name isKernel).1.blocks =
        (s.blocks ++ [newTask s name isKernel]).modify q
          ({ · with next := some s.blocks.length }) ∧
      (taskCreate s name isKernel).1.taskList = s.taskList := by
  obtain ⟨head, hhead⟩ : ∃ head, s.taskList = some head := by
    cases front with
    | nil => exact ⟨_, h.head⟩
    | cons r front => exact ⟨_, h.head⟩
  have hlen := h.length_le
  have happ : IsChain Task.next (s.blocks ++ [newTask s name isKernel]) (some head)
      (front ++ [q]) := by
    rw [← hhead]
    refine h.congr fun r hr => ?_
    rw [List.getElem?_append_left (h.mem_lt r hr)]
  rw [List.length_append] at hlen
  have hlast := last_chain happ (n := (s.blocks ++ [newTask s name isKernel]).length) (by
    rw [List.length_append]
    omega)
  unfold taskCreate
  simp only [hhead, hlast, Scheduler.modify, and_self]

/-- `task_create` puts the new task at the end of the list, and keeps the others. -/
theorem taskCreate_chain (h : IsChain Task.next s.blocks s.taskList ps) (name : List UInt8)
    (isKernel : BitVec 8) :
    IsChain Task.next (taskCreate s name isKernel).1.blocks (taskCreate s name isKernel).1.taskList
        (ps ++ [s.blocks.length]) ∧
      (∀ q ∈ ps, ((taskCreate s name isKernel).1.blocks[q]?).map Task.copy =
        (s.blocks[q]?).map Task.copy) ∧
      (taskCreate s name isKernel).1.blocks[s.blocks.length]? =
        some (newTask s name isKernel) := by
  rcases List.eq_nil_or_concat' ps with rfl | ⟨front, q, rfl⟩
  · have hnil : s.taskList = none := h
    have hnew : (s.blocks ++ [newTask s name isKernel])[s.blocks.length]? =
        some (newTask s name isKernel) := List.getElem?_concat_length
    simp only [taskCreate, hnil]
    exact ⟨⟨rfl, _, hnew, rfl⟩, by simp, hnew⟩
  · obtain ⟨hblocks, hlist⟩ := taskCreate_some h name isKernel
    have hq : q < s.blocks.length := h.mem_lt q (by simp)
    have hget : ∀ r, r < s.blocks.length → (taskCreate s name isKernel).1.blocks[r]? =
        (s.blocks[r]?).map fun t =>
          if q = r then { t with next := some s.blocks.length } else t := by
      intro r hr
      rw [hblocks, List.getElem?_modify, List.getElem?_append_left hr]
      rfl
    have hnew : (taskCreate s name isKernel).1.blocks[s.blocks.length]? =
        some (newTask s name isKernel) := by
      rw [hblocks, List.getElem?_modify, List.getElem?_concat_length]
      simp [Nat.ne_of_lt hq]
    refine ⟨?_, ?_, hnew⟩
    · rw [hlist, List.append_assoc]
      refine h.snoc (fun r hr => ?_) ?_ ?_
      · have hne : q ≠ r := h.ne_of_mem r (by simp [hr])
        rw [hget r (h.mem_lt r (by simp [hr]))]
        simp [hne]
      · rw [hget q hq, List.getElem?_eq_getElem hq]
        simp
      · rw [hnew]
        rfl
    · intro r hr
      rw [hget r (h.mem_lt r hr), Option.map_map]
      refine congrArg (fun f => (s.blocks[r]?).map f) (funext fun t => ?_)
      by_cases hqr : q = r <;> simp [hqr, Task.copy]

/-- `task_create` appends a task to the list, by linking it behind the last one. -/
theorem tasks_taskCreate (h : s.Linked) (name : List UInt8) (isKernel : BitVec 8) :
    (taskCreate s name isKernel).1.Linked ∧
      (taskCreate s name isKernel).1.tasks = s.tasks ++ [newTask s name isKernel] := by
  obtain ⟨ps, hps⟩ := h
  obtain ⟨hchain, hkeep, hnew⟩ := taskCreate_chain hps name isKernel
  refine ⟨⟨_, hchain⟩, ?_⟩
  have hold : ∀ q ∈ ps, ((taskCreate s name isKernel).1.blocks[q]?).map Task.copy =
      (s.blocks[q]?).map Task.copy := hkeep
  rw [tasks_chain hchain, tasks_chain hps, List.filterMap_append,
    List.filterMap_congr hold]
  simp [hnew, newTask, Task.copy]

/-- `task_create` takes the next pid and leaves `current_task`. -/
theorem taskCreate_globals (s : Scheduler) (name : List UInt8) (isKernel : BitVec 8) :
    (taskCreate s name isKernel).1.nextPid = s.nextPid + 1 ∧
      (taskCreate s name isKernel).1.currentTask = s.currentTask := by
  rw [taskCreate]
  cases hlist : s.taskList with
  | none => exact ⟨rfl, rfl⟩
  | some head => exact ⟨rfl, rfl⟩

/-- Cells that keep their links keep the list, so a store to another field does not break it. -/
theorem Scheduler.Linked.modify (h : s.Linked) (p : Nat) {f : Task → Task}
    (hf : ∀ t, (f t).next = t.next) : (s.modify p f).Linked := by
  obtain ⟨ps, hps⟩ := h
  exact ⟨ps, hps.congr fun q _ => map_getElem?_modify hf s p q⟩

/-- The block holds a task with this pid. -/
def Scheduler.hasPid (s : Scheduler) (pid : BitVec 32) (q : Nat) : Bool :=
  (s.blocks[q]?).any fun t => t.pid = pid

/-- What `task_destroy` leaves of the task in the block `q`, when that in `x` is destroyed. -/
def Task.destroyed (x q : Nat) (t : Task) : Task :=
  if x = q then { t.copy with state := .zombie } else t.copy

/-- The list from `p` on is `qs`, and what the blocks hold is as before but for the zombie `x`. -/
structure Destroyed (s s' : Scheduler) (x : Nat) (qs : List Nat) : Prop where
  chain : IsChain Task.next s'.blocks s'.taskList qs
  blocks : ∀ q : Nat, (s'.blocks[q]?).map Task.copy = (s.blocks[q]?).map (Task.destroyed x q)
  currentTask : s'.currentTask = s.currentTask
  nextPid : s'.nextPid = s.nextPid

/-- Unlinking the head of the list: `task_list` is set to its successor, and all links stay. -/
theorem destroyed_head {head : Nat} {t : Task} (ht : s.blocks[head]? = some t)
    (h : IsChain Task.next s.blocks (some head) (head :: ps)) :
    Destroyed s (({ s with taskList := t.next } : Scheduler).modify head
      ({ · with state := .zombie })) head ps := by
  obtain ⟨-, t', ht', hrest⟩ := h
  cases ht.symm.trans ht'
  refine ⟨hrest.congr fun q _ => ?_, fun q => ?_, rfl, rfl⟩
  · rw [getElem?_modify, Option.map_map]
    refine congrArg (fun f => (s.blocks[q]?).map f) (funext fun u => ?_)
    by_cases hq : head = q <;> simp [hq]
  · rw [getElem?_modify, Option.map_map]
    refine congrArg (fun f => (s.blocks[q]?).map f) (funext fun u => ?_)
    by_cases hq : head = q <;> simp [hq, Task.destroyed, Task.copy]

/-- Unlinking a task behind another one: the cell before it links to the cell after it, and all
other links stay. -/
theorem destroyed_behind {front back : List Nat} {r x : Nat}
    (h : IsChain Task.next s.blocks s.taskList (front ++ r :: x :: back)) :
    Destroyed s ((s.modify r ({ · with next := (s.blocks[x]?).bind Task.next })).modify x
      ({ · with state := .zombie })) x (front ++ r :: back) := by
  have hx := h.mem_lt x (by simp)
  have hr := h.mem_lt r (by simp)
  have hne : ∀ u ∈ front ++ back, r ≠ u := fun u hu =>
    h.ne_of_mem u (List.Sublist.mem hu (.append_left (List.sublist_cons_self x back) front))
  have hget : ∀ q, ((s.modify r ({ · with next := (s.blocks[x]?).bind Task.next })).modify x
      ({ · with state := .zombie })).blocks[q]? = (s.blocks[q]?).map fun t =>
        let t := if r = q then { t with next := (s.blocks[x]?).bind Task.next } else t
        if x = q then { t with state := .zombie } else t := by
    intro q
    rw [getElem?_modify, getElem?_modify, Option.map_map]
    rfl
  refine ⟨h.unlink (fun u hu => ?_) ?_, fun q => ?_, rfl, rfl⟩
  · rw [hget, Option.map_map]
    refine congrArg (fun f => (s.blocks[u]?).map f) (funext fun t => ?_)
    by_cases hxu : x = u <;> simp [hxu, hne u hu]
  · rw [hget, List.getElem?_eq_getElem hr, List.getElem?_eq_getElem hx]
    by_cases hxr : x = r <;> simp [hxr]
  · rw [hget, Option.map_map]
    refine congrArg (fun f => (s.blocks[q]?).map f) (funext fun t => ?_)
    by_cases hrq : r = q <;> by_cases hxq : x = q <;>
      simp [hrq, hxq, Task.destroyed, Task.copy]

/-- `task_destroy` unlinks the first task with the pid, and nothing happens if there is none. -/
theorem taskDestroy_cases (h : IsChain Task.next s.blocks s.taskList ps) (pid : BitVec 32) :
    (taskDestroy s pid = s ∧ ∀ q ∈ ps, s.hasPid pid q = false) ∨
      ∃ front x back, ps = front ++ x :: back ∧ s.hasPid pid x = true ∧
        (∀ q ∈ front, s.hasPid pid q = false) ∧
        Destroyed s (taskDestroy s pid) x (front ++ back) := by
  unfold taskDestroy
  cases hlist : s.taskList with
  | none =>
      rw [hlist] at h
      cases ps with
      | nil => exact .inl ⟨rfl, by simp⟩
      | cons q ps => exact absurd h.head (by simp)
  | some head =>
      cases ps with
      | nil => exact absurd (h.symm.trans hlist) (by simp)
      | cons q ps =>
          have hchain := h
          rw [hlist] at h
          obtain ⟨hq, t, ht, -⟩ := id h
          cases hq
          simp only [ht]
          by_cases hpid : t.pid = pid
          · rw [if_pos hpid]
            refine .inr ⟨[], head, ps, rfl, ?_, by simp, destroyed_head ht h⟩
            simp [Scheduler.hasPid, ht, hpid]
          · have hhead : s.hasPid pid head = false := by simp [Scheduler.hasPid, ht, hpid]
            rw [if_neg hpid]
            rcases findBehind_chain (fun t => decide (t.pid = pid)) h
              (Nat.le_of_succ_le h.length_le) with
              ⟨hnone, hall⟩ | ⟨front, r, x, back, hfind, heq, hx, hbefore⟩
            · rw [hnone]
              exact .inl ⟨rfl, List.forall_mem_cons.2 ⟨hhead, hall⟩⟩
            · rw [hfind]
              rw [heq] at hchain
              dsimp only
              refine .inr ⟨front ++ [r], x, back, by rw [heq]; simp, hx, fun q hq => ?_, ?_⟩
              · rcases hbefore q hq with rfl | hq
                · exact hhead
                · exact hq
              · rw [List.append_assoc]
                exact destroyed_behind hchain

/-- `task_destroy` leaves a list that ends, whether or not it has found the pid. -/
theorem taskDestroy_linked (h : s.Linked) (pid : BitVec 32) : (taskDestroy s pid).Linked := by
  obtain ⟨ps, hps⟩ := h
  rcases taskDestroy_cases hps pid with ⟨he, -⟩ | ⟨front, x, back, -, -, -, hdestroyed⟩
  · rw [he]
    exact ⟨ps, hps⟩
  · exact ⟨_, hdestroyed.chain⟩

/-- A tick writes no next pointer. -/
theorem schedulerTick_linked (h : s.Linked) : (schedulerTick s).Linked := by
  unfold schedulerTick
  cases s.currentTask with
  | none => exact h
  | some p =>
      have hmod : (s.modify p fun t => { t with runtimeTicks := t.runtimeTicks + 1 }).Linked :=
        h.modify p fun _ => rfl
      dsimp only
      split
      · exact hmod
      · split
        · exact hmod
        · exact hmod

/-- The list that `scheduler_init` builds ends. -/
theorem schedulerInit_linked (s : Scheduler) : (schedulerInit s).Linked := by
  have hnil : ({ s with taskList := none } : Scheduler).Linked := ⟨[], rfl⟩
  exact (tasks_taskCreate (tasks_taskCreate (tasks_taskCreate hnil _ _).1 _ _).1 _ _).1

end

end OnkenOS
