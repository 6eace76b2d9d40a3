import OnkenOS.Gui.WindowInv

/-!
# What reordering keeps

`wm_focus_window` and `wm_cycle_depth` copy whole windows from slot to slot, and the mouse handler
calls the latter. `wmStep_idents` says in one equation what any step does to the array: at most one
window goes to slot `0`, and at most one is appended. So no window is lost or duplicated, and the
windows that do not move keep their order (`wm_windows_kept`).
-/

namespace OnkenOS

open Slots Machine

section
variable {τ δ : Type} {s : Wm τ δ} {ws ws' : List (Window τ δ)} {mx my : Int}

/-- The size, title and draw function of a window, as `wm_add_window` was given them. -/
def Window.given (w : Window τ δ) : BitVec 32 × BitVec 32 × τ × Option δ :=
  (w.w, w.h, w.title, w.drawContent)

/-- What no operation writes. -/
def Window.ident (w : Window τ δ) : Nat × BitVec 32 × BitVec 32 × τ × Option δ :=
  (w.serial, w.given)

/-- The window an event adds to the table, if it has room. -/
def created (s : Wm τ δ) : WmEvent τ δ → List (Nat × BitVec 32 × BitVec 32 × τ × Option δ)
  | .addWindow _ _ w h title drawFn =>
    if s.windowCount < maxWindows then [(s.windowCount, w, h, title, drawFn)] else []
  | _ => []

/-- The windows `wm_add_window` accepts in the course of some events. -/
def accepted (s : Wm τ δ) (es : List (WmEvent τ δ)) : List (BitVec 32 × BitVec 32 × τ × Option δ) :=
  (expand wmStep created s es).map Prod.snd

/-- The slot whose window an event takes to slot `0`: the window that gets the focus, or the active
one on Alt+Tab and on a press of its depth gadget. -/
def movedSlot (s : Wm τ δ) : WmEvent τ δ → Option Nat
  | .focusWindow i => if isOpen s.windows i then some i else none
  | .cycleDepth => s.activeWindow
  | .handleMouse mx my leftClick =>
    match s.openActive with
    | some (a, w) =>
      if leftClick = true ∧ s.draggingWindowIdx = none ∧ w.OnTitlebar mx my ∧
        ¬ w.OnCloseBox mx my ∧ w.OnDepthGadget mx my then some a else none
    | none => none
  | _ => none

/-- The window in that slot. -/
def movedSerial (s : Wm τ δ) (e : WmEvent τ δ) : Option Nat :=
  (movedSlot s e).bind fun i => (s.windows[i]?).map Window.serial

/-- `l`, with slot `p` moved to the front. -/
def rotated {α : Type*} (l : List α) (p : Option Nat) : List α := p.elim l (moveToFront l)

/-! ## One step -/

/-- `wm_focus_window`, seen through what does not read `active`: slot `i` comes to the front of the
array, and the others keep their order. -/
theorem wmFocusWindow_map {β : Type*} {f : Window τ δ → β}
    (hf : ∀ w b, f { w with active := b } = f w) (s : Wm τ δ) (i : Nat) :
    (wmFocusWindow s (some i)).windows.map f =
      rotated (s.windows.map f) (movedSlot s (.focusWindow i)) := by
  cases hi : isOpen s.windows i with
  | true =>
      obtain ⟨w, hw, ho⟩ := isOpen_iff.1 hi
      simp only [wmFocusWindow, movedSlot, hi, hw, ho, if_true, Bool.false_eq_true, if_false]
      rw [map_setActive hf, map_moveToFront, map_clearActive hf]
      rfl
  | false =>
      rcases wmFocusWindow_cases s (some i) with he | ⟨j, w, ⟨⟩, hw, ho, -⟩
      · simp only [he, movedSlot, hi, Bool.false_eq_true, if_false]
        rfl
      · rw [isOpen_iff.2 ⟨w, hw, ho⟩] at hi
        cases hi

/-- `wm_cycle_depth`, likewise: the slot of the active window comes to the front of the array. -/
theorem wmCycleDepth_map {β : Type*} {f : Window τ δ → β}
    (hf : ∀ w b, f { w with active := b } = f w) (h : s.WF) :
    (wmCycleDepth s).windows.map f = rotated (s.windows.map f) s.activeWindow := by
  rcases wmCycleDepth_cases h.active_lt with ⟨he, hnone | hle⟩ | ⟨a, ha, -, -, he⟩
  · rw [he, hnone]
    rfl
  · rw [he]
    cases ha : s.activeWindow with
    | none => rfl
    | some a =>
        have hlt := h.active_lt a ha
        rw [show a = 0 by omega]
        exact (moveToFront_zero _).symm
  · rw [he, ha, map_activateTopmost hf, map_setActive hf, map_moveToFront]
    rfl

/-- A press moves a window only through the depth gadget: the other branches write in place. -/
theorem wmHandleMouse_map {β : Type*} {f : Window τ δ → β}
    (hf : ∀ w b, f { w with active := b } = f w) (hclose : ∀ w, f { w with closed := true } = f w)
    (hmin : ∀ w b, f { w with minimized := b } = f w)
    (hpos : ∀ w x y, f { w with x := x, y := y } = f w) (h : s.WF) (mx my : Int) (left : Bool) :
    (wmHandleMouse s mx my left).windows.map f =
      rotated (s.windows.map f) (movedSlot s (.handleMouse mx my left)) := by
  have hnot : ∀ hd : ¬ (∃ a w, s.openActive = some (a, w) ∧ left = true ∧
      s.draggingWindowIdx = none ∧ w.OnTitlebar mx my ∧ ¬ w.OnCloseBox mx my ∧
        w.OnDepthGadget mx my), movedSlot s (.handleMouse mx my left) = none := by
    intro hd
    unfold movedSlot
    cases ha : s.openActive with
    | none => rfl
    | some p => exact if_neg fun hp => hd ⟨p.1, p.2, ha, hp⟩
  cases left with
  | false =>
      rw [hnot (by simp)]
      rfl
  | true =>
      cases hd : s.draggingWindowIdx with
      | some d =>
          rw [hnot (by simp [hd]), wmHandleMouse_drag hd]
          exact map_modify_of_eq (fun w => hpos w _ _) _ _
      | none =>
          have hp : Press s mx my (wmHandleMouse s mx my true) := wmHandleMouse_press hd
          generalize wmHandleMouse s mx my true = t at hp
          cases hp with
          | close ha ht hc =>
              rw [hnot (by simp [ha, hc]), Wm.pressClose, map_activateTopmost hf]
              exact map_modify_of_eq hclose _ _
          | depth ha ht hc hg =>
              rw [wmCycleDepth_map hf h, (openActive_eq_some.1 ha).1]
              simp [movedSlot, ha, hd, ht, hc, hg]
          | minimize ha ht hc hg hm =>
              rw [hnot (by simp [ha, hg])]
              exact map_modify_of_eq (fun w => hmin w _) _ _
          | drag ha ht hc hg hm =>
              rw [hnot (by simp [ha, hg])]
              rfl
          | other ht hi =>
              rw [hnot (by rintro ⟨a, w, ha, -, -, hbar, -⟩; exact ht a w ha hbar),
                map_pressOther hf]
              rfl
          | miss ht hi =>
              rw [hnot (by rintro ⟨a, w, ha, -, -, hbar, -⟩; exact ht a w ha hbar)]
              rfl

/-- `wm_add_window` appends the new window, if there is room, and changes nothing of the others. -/
theorem wmAddWindow_map (s : Wm τ δ) (x y w h : BitVec 32) (title : τ) (drawFn : Option δ) :
    (wmAddWindow s x y w h title drawFn).windows.map Window.ident =
      s.windows.map Window.ident ++ created s (.addWindow x y w h title drawFn) := by
  dsimp only [wmAddWindow, created]
  by_cases hn : s.windowCount < maxWindows
  · rw [if_neg (by omega), if_pos hn, map_clearActive (fun _ _ => rfl), List.map_append]
    rfl
  · rw [if_pos (by omega), if_neg hn, List.append_nil]

/-- Closing the active window is not seen by what does not read `closed`. -/
theorem wmCloseActive_map {β : Type*} {f : Window τ δ → β}
    (hf : ∀ w, f { w with closed := true } = f w) (s : Wm τ δ) :
    (wmCloseActive s).windows.map f = s.windows.map f := by
  unfold wmCloseActive
  split
  · rfl
  · exact map_modify_of_eq hf _ _

/-- **What a step does to the array**: it moves one slot to the front or none, and appends the
window that is added. What identifies a window is never written. -/
theorem wmStep_idents (h : s.WF) (e : WmEvent τ δ) :
    (wmStep s e).windows.map Window.ident =
      rotated (s.windows.map Window.ident) (movedSlot s e) ++ created s e := by
  cases e with
  | addWindow x y w hh title drawFn => exact wmAddWindow_map s x y w hh title drawFn
  | focusWindow i =>
      rw [show created s (.focusWindow i) = [] from rfl, List.append_nil]
      exact wmFocusWindow_map (fun _ _ => rfl) s i
  | cycleDepth =>
      rw [show created s .cycleDepth = [] from rfl, List.append_nil]
      exact wmCycleDepth_map (fun _ _ => rfl) h
  | handleMouse mx my left =>
      rw [show created s (.handleMouse mx my left) = [] from rfl, List.append_nil]
      exact wmHandleMouse_map (fun _ _ => rfl) (fun _ => rfl) (fun _ _ => rfl) (fun _ _ _ => rfl)
        h mx my left
  | closeActive =>
      rw [show created s .closeActive = [] from rfl, List.append_nil]
      exact wmCloseActive_map (fun _ => rfl) s
  | restore i =>
      rw [show created s (.restore i) = [] from rfl, List.append_nil]
      exact map_modify_of_eq (fun _ => by rfl) s.windows i

/-- Moving a slot to the front loses no element and adds none. -/
theorem rotated_perm {α : Type*} (l : List α) (p : Option Nat) : (rotated l p).Perm l := by
  cases p with
  | none => rfl
  | some k => exact moveToFront_perm l k

/-- The slot moves in the same way for every field of the elements. -/
theorem map_rotated {α β : Type*} (f : α → β) (l : List α) (p : Option Nat) :
    (rotated l p).map f = rotated (l.map f) p := by
  cases p with
  | none => rfl
  | some k => exact map_moveToFront f l k

/-- The elements that are kept stay in their order if the one that moves is not among them. -/
theorem filter_rotated {α : Type*} {q : α → Bool} {l : List α} {p : Option Nat}
    (hq : ∀ k a, p = some k → l[k]? = some a → q a = false) :
    (rotated l p).filter q = l.filter q := by
  cases p with
  | none => rfl
  | some k => exact filter_moveToFront fun a ha => hq k a rfl ha

/-- The serial number is part of what identifies a window. -/
theorem map_serial_ident (ws : List (Window τ δ)) :
    (ws.map Window.ident).map Prod.fst = ws.map Window.serial := by
  rw [List.map_map]
  rfl

/-! ## The order of the windows that stay -/

/-- The windows of `s` that the event does not move, and the one it adds, in the order of `t`. -/
def KeepsOrder (s t : Wm τ δ) (e : WmEvent τ δ) : Prop :=
  (t.windows.map Window.serial).filter (fun u => movedSerial s e != some u) =
    (s.windows.map Window.serial).filter (fun u => movedSerial s e != some u) ++
      (created s e).map Prod.fst

/-- An event that adds a window moves none. -/
theorem movedSlot_of_created {e : WmEvent τ δ} (h : created s e ≠ []) : movedSlot s e = none := by
  cases e with
  | addWindow => rfl
  | focusWindow | cycleDepth | handleMouse | closeActive | restore => exact absurd rfl h

/-- No event changes the order of the windows that it does not move, and a new one is the last. -/
theorem wmStep_order (h : s.WF) (e : WmEvent τ δ) : KeepsOrder s (wmStep s e) e := by
  have hstep : (wmStep s e).windows.map Window.serial =
      rotated (s.windows.map Window.serial) (movedSlot s e) ++ (created s e).map Prod.fst := by
    rw [← map_serial_ident, wmStep_idents h, List.map_append, map_rotated, map_serial_ident]
  have hdrop : ∀ k u, movedSlot s e = some k → (s.windows.map Window.serial)[k]? = some u →
      (movedSerial s e != some u) = false := by
    intro k u hk hu
    rw [List.getElem?_map] at hu
    simp [movedSerial, hk, hu]
  have hnew : ((created s e).map Prod.fst).filter (fun u => movedSerial s e != some u) =
      (created s e).map Prod.fst := by
    by_cases hc : created s e = []
    · rw [hc]
      rfl
    · simp [movedSerial, movedSlot_of_created hc]
  unfold KeepsOrder
  rw [hstep, List.filter_append, filter_rotated hdrop, hnew]

/-! ## Closed windows -/

/-- Every closed window of `s` is in `t` again, and closed. -/
def StayClosed (s t : Wm τ δ) : Prop :=
  ∀ w ∈ s.windows, w.closed = true → (∃ v ∈ t.windows, v.serial = w.serial) ∧
    ∀ v ∈ t.windows, v.serial = w.serial → v.closed = true

/-- Which window it is, and whether it is closed. -/
def Window.status (w : Window τ δ) : Nat × Bool := (w.serial, w.closed)

/-- The serial numbers of the closed windows. -/
def closedSerials (ws : List (Window τ δ)) : List Nat :=
  (ws.filter Window.closed).map Window.serial

/-- The numbers of the closed windows are those of the slots with `closed` set. -/
theorem mem_closedSerials {u : Nat} :
    u ∈ closedSerials ws ↔ ∃ w ∈ ws, w.closed = true ∧ w.serial = u := by
  unfold closedSerials
  simp only [List.mem_map, List.mem_filter, and_assoc]

/-- If only the slots are permuted, the closed windows are closed as before. -/
theorem closedSerials_subset_of_perm
    (h : (ws'.map Window.status).Perm (ws.map Window.status)) :
    closedSerials ws ⊆ closedSerials ws' := by
  intro u hu
  obtain ⟨w, hw, hc, rfl⟩ := mem_closedSerials.1 hu
  obtain ⟨v, hv, he⟩ := List.mem_map.1 (h.mem_iff.2 (List.mem_map_of_mem hw))
  obtain ⟨hs, hcl⟩ := Prod.mk.inj he
  exact mem_closedSerials.2 ⟨v, hv, hcl.trans hc, hs⟩

/-- A write that never clears `closed` loses no closed window. -/
theorem closedSerials_subset_modify {f : Window τ δ → Window τ δ}
    (hs : ∀ w, (f w).serial = w.serial) (hc : ∀ w, w.closed = true → (f w).closed = true)
    (ws : List (Window τ δ)) (i : Nat) : closedSerials ws ⊆ closedSerials (ws.modify i f) := by
  intro u hu
  obtain ⟨w, hw, hcl, rfl⟩ := mem_closedSerials.1 hu
  obtain ⟨j, hj⟩ := List.mem_iff_getElem?.1 hw
  have hget : (ws.modify i f)[j]? = some (if i = j then f w else w) := by
    rw [List.getElem?_modify, hj]
    rfl
  refine mem_closedSerials.2 ⟨_, List.mem_of_getElem? hget, ?_, ?_⟩
  · split
    · exact hc w hcl
    · exact hcl
  · split
    · exact hs w
    · rfl

/-- `wm_add_window` opens no closed window: it never takes an old slot again. -/
theorem closedSerials_addWindow (s : Wm τ δ) (x y w h : BitVec 32) (title : τ)
    (drawFn : Option δ) :
    closedSerials s.windows ⊆ closedSerials (wmAddWindow s x y w h title drawFn).windows := by
  rcases wmAddWindow_cases s x y w h title drawFn with he | ⟨-, new, -, -, -, he⟩
  · rw [he]
    exact fun _ hu => hu
  · rw [he]
    have hflags : (clearActive (s.windows ++ [new]) s.activeWindow).map Window.status =
        (s.windows ++ [new]).map Window.status := map_clearActive (fun _ _ => rfl) _ _
    refine fun u hu => closedSerials_subset_of_perm (.of_eq hflags) ?_
    obtain ⟨v, hv, hc, rfl⟩ := mem_closedSerials.1 hu
    exact mem_closedSerials.2 ⟨v, List.mem_append_left _ hv, hc, rfl⟩

/-- `wm_cycle_depth` moves slots and sets `active` only. -/
theorem closedSerials_cycleDepth (h : s.WF) :
    closedSerials s.windows ⊆ closedSerials (wmCycleDepth s).windows := by
  refine closedSerials_subset_of_perm ?_
  rw [wmCycleDepth_map (fun _ _ => rfl) h]
  exact rotated_perm _ _

/-- Closing one window leaves the others closed. -/
theorem closedSerials_closeActive (s : Wm τ δ) :
    closedSerials s.windows ⊆ closedSerials (wmCloseActive s).windows := by
  unfold wmCloseActive
  split
  · exact fun _ hu => hu
  · exact closedSerials_subset_modify (f := fun w => { w with closed := true }) (fun _ => rfl)
      (fun _ _ => rfl) _ _

/-- A call of `wm_handle_mouse` opens no closed window, in any of its branches. -/
theorem closedSerials_handleMouse (h : s.WF) (mx my : Int) (left : Bool) :
    closedSerials s.windows ⊆ closedSerials (wmHandleMouse s mx my left).windows := by
  cases left with
  | false => exact fun _ hu => hu
  | true =>
      cases hd : s.draggingWindowIdx with
      | some d =>
          rw [wmHandleMouse_drag hd]
          exact closedSerials_subset_modify (by exact fun _ => rfl) (by exact fun _ hc => hc) _ _
      | none =>
          have hp : Press s mx my (wmHandleMouse s mx my true) := wmHandleMouse_press hd
          generalize wmHandleMouse s mx my true = t at hp
          cases hp with
          | @close a w _ _ _ =>
              have hclose := closedSerials_subset_modify (f := fun w => { w with closed := true })
                (fun _ => rfl) (fun _ _ => rfl) s.windows a
              refine fun u hu => closedSerials_subset_of_perm (.of_eq ?_) (hclose hu)
              exact map_activateTopmost (fun _ _ => rfl) _ _
          | depth => exact closedSerials_cycleDepth h
          | minimize =>
              exact closedSerials_subset_modify (by exact fun _ => rfl) (by exact fun _ hc => hc)
                _ _
          | other =>
              exact closedSerials_subset_of_perm (.of_eq (map_pressOther (fun _ _ => rfl) _ _ _ _))
          | drag | miss => exact fun _ hu => hu

/-- No step opens a closed window: `closed` is only ever set, and a new window takes a new slot. -/
theorem wmStep_closed (h : s.WF) (e : WmEvent τ δ) :
    closedSerials s.windows ⊆ closedSerials (wmStep s e).windows := by
  cases e with
  | addWindow x y w hh title drawFn => exact closedSerials_addWindow s x y w hh title drawFn
  | focusWindow i =>
      refine closedSerials_subset_of_perm ?_
      rw [show wmStep s (.focusWindow i) = wmFocusWindow s (some i) from rfl,
        wmFocusWindow_map (fun _ _ => rfl)]
      exact rotated_perm _ _
  | cycleDepth => exact closedSerials_cycleDepth h
  | handleMouse mx my left => exact closedSerials_handleMouse h mx my left
  | closeActive => exact closedSerials_closeActive s
  | restore i =>
      exact closedSerials_subset_modify (by exact fun _ => rfl) (by exact fun _ hc => hc) _ _

/-! ## Runs -/

/-- After a run the table holds the windows it held before and those that were accepted, each of
them once, with what they were given. -/
theorem run_idents (es : List (WmEvent τ δ)) : ∀ {s : Wm τ δ}, s.WF →
    ((run wmStep s es).windows.map Window.ident).Perm
      (s.windows.map Window.ident ++ expand wmStep created s es) := by
  induction es with
  | nil => exact fun {s} _ => .of_eq (List.append_nil _).symm
  | cons e es ih =>
      intro s h
      refine (ih (wmStep_wf s e h)).trans ?_
      rw [wmStep_idents h, expand, ← List.append_assoc]
      exact ((rotated_perm _ _).append_right _).append_right _

/-- In a run no closed window is opened again. By induction on the events, from the step. -/
theorem run_closed (es : List (WmEvent τ δ)) : ∀ {s : Wm τ δ}, s.WF →
    closedSerials s.windows ⊆ closedSerials (run wmStep s es).windows := by
  induction es with
  | nil => exact fun _ _ hu => hu
  | cons e es ih => exact fun h _ hu => ih (wmStep_wf _ e h) (wmStep_closed h e hu)

/-- Every window closed before the run is still in the table, and still closed. -/
theorem stayClosed_run (h : s.WF) (es : List (WmEvent τ δ)) :
    StayClosed s (run wmStep s es) := by
  intro w hw hc
  obtain ⟨v, hv, hvc, hvs⟩ := mem_closedSerials.1
    (run_closed es h (mem_closedSerials.2 ⟨w, hw, hc, rfl⟩))
  refine ⟨⟨v, hv, hvs⟩, fun v' hv' hs' => ?_⟩
  obtain ⟨i, hi⟩ := List.mem_iff_getElem?.1 hv
  obtain ⟨j, hj⟩ := List.mem_iff_getElem?.1 hv'
  have hij := (run_invariant wmStep_wf es h).serial_inj hi hj (hvs.trans hs'.symm)
  rw [hij, hj] at hi
  cases hi
  exact hvc

/-- **Nothing is lost or duplicated.** After any events, the table holds the windows that
`wm_add_window` accepted; the pointer and the drag index are slots of it; a closed window stays
closed; and a further event keeps the order of the windows it does not move. Each part follows by
induction from the same part of a step. -/
theorem wm_windows_kept (es : List (WmEvent τ δ)) :
    ((wmRun es).windows.map Window.given).Perm (accepted (wmInit Wm.static) es) ∧
      (∀ a, (wmRun es).activeWindow = some a → a < (wmRun es).windowCount) ∧
      (∀ d, (wmRun es).draggingWindowIdx = some d → d < (wmRun es).windowCount) ∧
      (∀ fs, StayClosed (wmRun es) (wmRun (es ++ fs))) ∧
      ∀ e, KeepsOrder (wmRun es) (wmStep (wmRun es) e) e := by
  have hwf := wmRun_wf es
  refine ⟨?_, hwf.active_lt, hwf.drag_lt, fun fs => ?_, fun e => wmStep_order hwf e⟩
  · have hperm := (run_idents es (s := wmInit Wm.static) wmInit_wf).map Prod.snd
    rw [List.map_map] at hperm
    exact hperm
  · rw [show wmRun (es ++ fs) = run wmStep (wmRun es) fs from run_append _ _ es fs]
    exact stayClosed_run hwf fs

end

end OnkenOS
