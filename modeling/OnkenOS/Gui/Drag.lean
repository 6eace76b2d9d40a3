import OnkenOS.Gui.Handover

/-!
# Dragging

A drag is remembered as a slot of the array (`dragging_window_idx`), and the other operations
permute the array. `OnGrabbed` is the exact condition under which a poll moves no other window:
the slot holds the grabbed window. `KeepsSlot` says when an Alt+Tab or a taskbar click leaves
the slot alone.
-/

namespace OnkenOS

open Slots

section
variable {τ δ : Type} {s t : Wm τ δ} {mx my : Int}

/-- The window and where it is. -/
def Window.place (w : Window τ δ) : Nat × BitVec 32 × BitVec 32 := (w.serial, w.x, w.y)

/-- Every window but `u` is where it was. -/
def OthersStay (u : Nat) (s t : Wm τ δ) : Prop :=
  ∀ v ∈ s.windows, v.serial ≠ u → ∃ v' ∈ t.windows, v'.place = v.place

/-- In every step of a run no window but `u` moves. -/
def MovesOnly (u : Nat) : Wm τ δ → List (WmEvent τ δ) → Prop :=
  Machine.RunOk wmStep fun s e => OthersStay u s (wmStep s e)

/-- What can happen while the button stays down. -/
def WmEvent.DuringDrag : WmEvent τ δ → Prop
  | .handleMouse _ _ leftClick => leftClick = true
  | .cycleDepth | .focusWindow _ | .addWindow .. => True
  | .closeActive | .restore _ => False

/-- A poll with the button down finds the window `u` in the slot of the drag, or finds the
window there already at the place it would move it to. -/
def OnGrabbed (u : Nat) (s : Wm τ δ) : WmEvent τ δ → Prop
  | .handleMouse mx my leftClick => leftClick = true → ∀ d v,
      s.draggingWindowIdx = some d → s.windows[d]? = some v → v.serial = u ∨
        v.x = BitVec.ofInt 32 (mx - s.dragOffX) ∧ v.y = BitVec.ofInt 32 (my - s.dragOffY)
  | _ => True

/-- An Alt+Tab finds the active window in slot `0` or below the slot of the drag, and a
taskbar click is on a closed window, on slot `0`, or below the slot of the drag. -/
def KeepsSlot (s : Wm τ δ) (e : WmEvent τ δ) : Prop :=
  ∀ d, s.draggingWindowIdx = some d →
    match e with
    | .cycleDepth => ∀ a, s.activeWindow = some a → a = 0 ∨ a < d
    | .focusWindow i => isOpen s.windows i = true → i = 0 ∨ i < d
    | _ => True

/-! ## Steps that move nothing -/

/-- Windows that only change their slots stay where they are on the screen. -/
theorem othersStay_of_perm
    (h : (t.windows.map Window.place).Perm (s.windows.map Window.place)) (u : Nat) :
    OthersStay u s t := by
  intro v hv _
  exact List.mem_map.1 (h.mem_iff.2 (List.mem_map_of_mem hv))

/-- So do windows whose places are the same slot by slot. -/
theorem othersStay_of_map (h : t.windows.map Window.place = s.windows.map Window.place)
    (u : Nat) : OthersStay u s t :=
  othersStay_of_perm (.of_eq h) u

/-- `wm_focus_window` moves no window on the screen. -/
theorem focusWindow_othersStay (s : Wm τ δ) (p : Option Nat) (u : Nat) :
    OthersStay u s (wmFocusWindow s p) := by
  rcases wmFocusWindow_cases s p with he | ⟨idx, w, -, -, -, he⟩
  · rw [he]
    exact othersStay_of_map rfl u
  · rw [he]
    refine othersStay_of_perm ?_ u
    rw [map_setActive (fun _ _ => rfl), map_moveToFront, map_clearActive (fun _ _ => rfl)]
    exact moveToFront_perm _ _

/-- `wm_cycle_depth` moves no window on the screen. -/
theorem cycleDepth_othersStay (h : s.WF) (u : Nat) : OthersStay u s (wmCycleDepth s) := by
  rcases wmCycleDepth_cases h.active_lt with ⟨he, -⟩ | ⟨a, -, -, -, he⟩
  · rw [he]
    exact othersStay_of_map rfl u
  · rw [he]
    refine othersStay_of_perm ?_ u
    rw [map_activateTopmost (fun _ _ => rfl), map_setActive (fun _ _ => rfl), map_moveToFront]
    exact moveToFront_perm _ _

/-- `wm_add_window` moves no window on the screen. -/
theorem addWindow_othersStay (s : Wm τ δ) (x y w hh : BitVec 32) (title : τ)
    (drawFn : Option δ) (u : Nat) : OthersStay u s (wmAddWindow s x y w hh title drawFn) := by
  rcases wmAddWindow_cases s x y w hh title drawFn with he | ⟨-, new, -, -, -, he⟩
  · rw [he]
    exact othersStay_of_map rfl u
  · rw [he]
    intro v hv _
    refine List.mem_map.1 ?_
    rw [map_clearActive (fun _ _ => rfl), List.map_append]
    exact List.mem_append_left _ (List.mem_map_of_mem hv)

/-- A press that finds no drag in progress moves nothing: it writes flags and indices, and permutes
slots. -/
theorem Press.othersStay (hp : Press s mx my t) (h : s.WF) (u : Nat) : OthersStay u s t := by
  cases hp with
  | close =>
      refine othersStay_of_map ?_ u
      rw [Wm.pressClose, map_activateTopmost (fun _ _ => rfl)]
      apply map_modify_of_eq
      exact fun _ => rfl
  | depth => exact cycleDepth_othersStay h u
  | minimize =>
      refine othersStay_of_map ?_ u
      apply map_modify_of_eq
      exact fun _ => rfl
  | drag => exact othersStay_of_map rfl u
  | @other i => exact othersStay_of_map (map_pressOther (fun _ _ => rfl) s i mx my) u
  | miss => exact othersStay_of_map rfl u

/-! ## The poll that drags -/

/-- The drag branch moves the window of one slot, so the others stay exactly when that window
is the grabbed one, or does not move either. -/
theorem dragTo_othersStay_iff (h : s.WF) {d : Nat} {v : Window τ δ}
    (hv : s.windows[d]? = some v) (u : Nat) :
    OthersStay u s (s.dragTo d mx my) ↔ v.serial = u ∨
      v.x = BitVec.ofInt 32 (mx - s.dragOffX) ∧ v.y = BitVec.ofInt 32 (my - s.dragOffY) := by
  have hslot : ∀ j, (s.dragTo d mx my).windows[j]? = (s.windows[j]?).map fun w =>
      if d = j then { w with x := BitVec.ofInt 32 (mx - s.dragOffX)
                             y := BitVec.ofInt 32 (my - s.dragOffY) } else w := by
    intro j
    simp only [Wm.dragTo, List.getElem?_modify]
    rfl
  constructor
  · intro hall
    by_cases hu : v.serial = u
    · exact .inl hu
    · obtain ⟨v', hv', hplace⟩ := hall v (List.mem_of_getElem? hv) hu
      obtain ⟨j, hj⟩ := List.mem_iff_getElem?.1 hv'
      rw [hslot] at hj
      obtain ⟨w, hw, rfl⟩ := Option.map_eq_some_iff.1 hj
      -- a window is in one slot, so the one with this serial number is the one that moved
      have hserial : w.serial = v.serial := by
        have := congrArg Prod.fst hplace
        split at this <;> exact this
      have hdj := h.serial_inj hv hw hserial.symm
      rw [if_pos hdj] at hplace
      exact .inr ⟨(congrArg (fun p => p.2.1) hplace).symm,
        (congrArg (fun p => p.2.2) hplace).symm⟩
  · intro hcond w hw hne
    obtain ⟨j, hj⟩ := List.mem_iff_getElem?.1 hw
    have ht := hslot j
    rw [hj, Option.map_some] at ht
    refine ⟨_, List.mem_of_getElem? ht, ?_⟩
    by_cases hdj : d = j
    · subst hdj
      rw [hv] at hj
      cases hj
      obtain ⟨hx, hy⟩ := hcond.resolve_left hne
      rw [if_pos rfl, Window.place, Window.place, ← hx, ← hy]
    · rw [if_neg hdj]

/-- One event leaves every window but `u` where it is exactly under the condition. -/
theorem step_othersStay_iff (h : s.WF) (u : Nat) (e : WmEvent τ δ) :
    OthersStay u s (wmStep s e) ↔ OnGrabbed u s e := by
  cases e with
  | addWindow x y w hh title drawFn =>
      exact iff_of_true (addWindow_othersStay s x y w hh title drawFn u) trivial
  | focusWindow i => exact iff_of_true (focusWindow_othersStay s (some i) u) trivial
  | cycleDepth => exact iff_of_true (cycleDepth_othersStay h u) trivial
  | closeActive =>
      refine iff_of_true (othersStay_of_map ?_ u) trivial
      change (wmCloseActive s).windows.map Window.place = s.windows.map Window.place
      unfold wmCloseActive
      split
      · rfl
      · apply map_modify_of_eq
        exact fun _ => rfl
  | restore i =>
      refine iff_of_true (othersStay_of_map ?_ u) trivial
      apply map_modify_of_eq
      exact fun _ => rfl
  | handleMouse mx my left =>
      cases left with
      | false =>
          exact iff_of_true (othersStay_of_map rfl u) fun hl => absurd hl Bool.false_ne_true
      | true =>
          cases hd : s.draggingWindowIdx with
          | none =>
              have hp : Press s mx my (wmHandleMouse s mx my true) := wmHandleMouse_press hd
              refine iff_of_true (hp.othersStay h u) fun _ d v hdd => ?_
              rw [hd] at hdd
              cases hdd
          | some d =>
              obtain ⟨v, hv⟩ : ∃ v, s.windows[d]? = some v :=
                ⟨_, List.getElem?_eq_getElem (h.drag_lt d hd)⟩
              rw [wmStep, wmHandleMouse_drag hd, dragTo_othersStay_iff h hv]
              constructor
              · intro hcond _ d' v' hd' hv'
                rw [hd] at hd'
                cases hd'
                rw [hv] at hv'
                cases hv'
                exact hcond
              · intro hcond
                exact hcond rfl d _ hd hv

/-! ## The slot of the grabbed window -/

/-- The drag is on slot `d`, which holds the window `u`. -/
structure Grabbed (u d : Nat) (s : Wm τ δ) : Prop where
  wf : s.WF
  drag : s.draggingWindowIdx = some d
  slot : (s.windows.map Window.serial)[d]? = some u

/-- While the drag is on the grabbed window's slot, every poll is on that window. -/
theorem Grabbed.onGrabbed {u d : Nat} (h : Grabbed u d s) (e : WmEvent τ δ) :
    OnGrabbed u s e := by
  cases e with
  | handleMouse mx my left =>
      intro _ d' v hd hv
      rw [h.drag] at hd
      cases hd
      have := h.slot
      rw [List.getElem?_map, hv] at this
      exact .inl (Option.some.inj this)
  | _ => trivial

/-- A rotation of a slot below the drag, or of slot `0`, keeps the grabbed window in place. -/
theorem slot_of_moveToFront {u d k : Nat} {l : List Nat} (hk : k < l.length)
    (hkd : k = 0 ∨ k < d) (hu : l[d]? = some u) : (moveToFront l k)[d]? = some u := by
  rw [← frontSlot_of_lt hkd, getElem?_frontSlot hk, hu]

/-- While the button is down, the events that keep the slot keep the grabbed window in it. -/
theorem Grabbed.step {u d : Nat} (h : Grabbed u d s) {e : WmEvent τ δ} (he : e.DuringDrag)
    (hk : KeepsSlot s e) : Grabbed u d (wmStep s e) := by
  have hwf := wmStep_wf s e h.wf
  have hkd := hk d h.drag
  cases e with
  | addWindow x y w hh title drawFn =>
      rcases wmAddWindow_cases s x y w hh title drawFn with heq | ⟨-, new, -, -, -, heq⟩
      · exact ⟨hwf, by rw [wmStep, heq, h.drag], by rw [wmStep, heq, h.slot]⟩
      · refine ⟨hwf, by rw [wmStep, heq]; exact h.drag, ?_⟩
        have hlt : d < (s.windows.map Window.serial).length := by
          simpa using h.wf.drag_lt d h.drag
        rw [wmStep, heq, map_clearActive (fun _ _ => rfl), List.map_append,
          List.getElem?_append_left hlt, h.slot]
  | focusWindow i =>
      rcases wmFocusWindow_cases s (some i) with heq | ⟨idx, w, hi, hw, ho, heq⟩
      · exact ⟨hwf, by rw [wmStep, heq, h.drag], by rw [wmStep, heq, h.slot]⟩
      · cases hi
        refine ⟨hwf, by rw [wmStep, heq]; exact h.drag, ?_⟩
        rw [wmStep, heq, map_setActive (fun _ _ => rfl), map_moveToFront,
          map_clearActive (fun _ _ => rfl)]
        refine slot_of_moveToFront ?_ (hkd (isOpen_iff.2 ⟨w, hw, ho⟩)) h.slot
        simpa using (List.getElem?_eq_some_iff.1 hw).1
  | cycleDepth =>
      refine ⟨hwf, (cycleDepth_drag h.wf).trans h.drag, ?_⟩
      rcases wmCycleDepth_cases h.wf.active_lt with ⟨heq, -⟩ | ⟨a, ha, hlt, -, heq⟩
      · rw [wmStep, heq, h.slot]
      · rw [wmStep, heq, map_serial_cycle]
        exact slot_of_moveToFront (by simpa using hlt) (hkd a ha) h.slot
  | handleMouse mx my left =>
      cases left with
      | false => cases he
      | true =>
          have heq : wmStep s (.handleMouse mx my true) = s.dragTo d mx my :=
            wmHandleMouse_drag h.drag
          refine ⟨hwf, by rw [heq]; exact h.drag, ?_⟩
          have hmap : (s.dragTo d mx my).windows.map Window.serial =
              s.windows.map Window.serial := by
            apply map_modify_of_eq
            exact fun _ => rfl
          rw [heq, hmap, h.slot]
  | closeActive | restore => cases he

/-- A run that keeps the slot moves the grabbed window only. -/
theorem Grabbed.movesOnly {u d : Nat} {es : List (WmEvent τ δ)} (h : Grabbed u d s)
    (hes : ∀ e ∈ es, e.DuringDrag) (hk : Machine.RunOk wmStep KeepsSlot s es) :
    MovesOnly u s es := by
  induction es generalizing s with
  | nil => trivial
  | cons e es ih =>
      obtain ⟨hk, hrest⟩ := hk
      refine ⟨(step_othersStay_iff h.wf u e).2 (h.onGrabbed e), ?_⟩
      exact ih (h.step (hes e List.mem_cons_self) hk)
        (fun e' he' => hes e' (List.mem_cons_of_mem _ he')) hrest

/-- **A drag moves only the grabbed window.** Let a press start a drag of the window `w`, and
follow it until the release. No other window moves exactly when each poll finds `w` in the
slot the drag remembers, or the window there already in place; and it is enough that each
Alt+Tab and each taskbar click leaves that slot alone. -/
theorem wm_drag_moves_only_grabbed (s : Wm τ δ) (hr : s.Reached)
    (hd : s.draggingWindowIdx = none) (mx my : Int) (d : Nat) (w : Window τ δ)
    (hdrag : (wmHandleMouse s mx my true).draggingWindowIdx = some d)
    (hw : (wmHandleMouse s mx my true).windows[d]? = some w) (es : List (WmEvent τ δ))
    (hes : ∀ e ∈ es, e.DuringDrag) :
    (MovesOnly w.serial s (.handleMouse mx my true :: es) ↔
      Machine.RunOk wmStep (OnGrabbed w.serial) (wmHandleMouse s mx my true) es) ∧
    (Machine.RunOk wmStep KeepsSlot (wmHandleMouse s mx my true) es →
      MovesOnly w.serial s (.handleMouse mx my true :: es)) := by
  have h := hr.wf
  have hwf := wmHandleMouse_wf h mx my true
  have hpress : OthersStay w.serial s (wmHandleMouse s mx my true) := by
    have hp : Press s mx my (wmHandleMouse s mx my true) := wmHandleMouse_press hd
    exact hp.othersStay h _
  constructor
  · have hcongr := Machine.RunOk_congr _ wmStep_wf
      (fun s e hs => step_othersStay_iff hs w.serial e) es hwf
    exact (and_iff_right hpress).trans hcongr
  · intro hk
    have hgrab : Grabbed w.serial d (wmHandleMouse s mx my true) :=
      ⟨hwf, hdrag, by rw [List.getElem?_map, hw]; rfl⟩
    exact ⟨hpress, hgrab.movesOnly hes hk⟩

/-- A drag of the window in slot `1`, with a taskbar click on slot `0` in between. -/
theorem wm_drag_moves_only_grabbed_below :
    MovesOnly 1 (wmRun [.addWindow 0 0 100 100 () (none : Option Unit),
      .addWindow 50 50 100 100 () none])
      [.handleMouse 90 60 true, .focusWindow 0, .handleMouse 200 200 true] := by
  refine (wm_drag_moves_only_grabbed (wmRun [.addWindow 0 0 100 100 () (none : Option Unit),
    .addWindow 50 50 100 100 () none]) ⟨_, rfl⟩ rfl 90 60 1 _ rfl rfl
    [.focusWindow 0, .handleMouse 200 200 true] ?_).2 ?_
  · intro e he
    rcases List.mem_cons.1 he with rfl | he
    · trivial
    · rw [List.mem_singleton.1 he]
      rfl
  · exact ⟨fun d _ _ => .inl rfl, fun d _ => trivial, trivial⟩

/-- A drag of the window in slot `1`, then Alt+Tab: the index stays, the slots are permuted, and the
next poll moves the other window. -/
theorem wm_drag_moves_other :
    ¬ ∀ (s : Wm Unit Unit), s.Reached → s.draggingWindowIdx = none → ∀ mx my d w,
      (wmHandleMouse s mx my true).draggingWindowIdx = some d →
      (wmHandleMouse s mx my true).windows[d]? = some w → ∀ es : List (WmEvent Unit Unit),
      (∀ e ∈ es, e.DuringDrag) → MovesOnly w.serial s (.handleMouse mx my true :: es) := by
  intro hall
  have hmoves := hall (wmRun [.addWindow 0 0 100 100 () none, .addWindow 50 50 100 100 () none])
    ⟨_, rfl⟩ rfl 90 60 1 _ rfl rfl [.cycleDepth, .handleMouse 200 200 true] ?_
  · obtain ⟨-, -, hpoll, -⟩ := hmoves
    have hstay := hpoll _ (List.mem_cons_of_mem _ List.mem_cons_self) (by decide)
    exact absurd hstay (by decide)
  · intro e he
    rcases List.mem_cons.1 he with rfl | he
    · trivial
    · rw [List.mem_singleton.1 he]
      rfl

end

end OnkenOS
