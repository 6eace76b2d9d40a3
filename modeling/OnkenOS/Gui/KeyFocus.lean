import OnkenOS.Gui.Handover

/-!
# Where the keys go

`shell_loop` gives a key to the window `active_window` points to, unless it is closed. The close
box hands the focus to another open window; the terminal's `exit` and yano's `Ctrl+X` only set
`closed`, so after them the keys go nowhere although other windows are open
(`key_focus_iff`).
-/

namespace OnkenOS

open Slots Machine

section
variable {τ δ : Type} {s : Wm τ δ} {ws : List (Window τ δ)} {mx my : Int}

/-- If any window is open, `active_window` points to an open one. -/
def SomeFocused (s : Wm τ δ) : Prop :=
  (∃ i, isOpen s.windows i = true) → ∃ a, s.activeWindow = some a ∧ isOpen s.windows a = true

/-- An application that closes its own window finds no other one open. -/
def ClosesLast (s : Wm τ δ) : WmEvent τ δ → Prop
  | .closeActive => s.topOther = none
  | _ => True

/-! ## Operations that set the focus, or leave it -/

/-- An open active window is enough. -/
theorem someFocused_of_open {a : Nat} (ha : s.activeWindow = some a)
    (ho : isOpen s.windows a = true) : SomeFocused s := fun _ => ⟨a, ha, ho⟩

/-- A write that leaves `closed` opens and closes no slot. -/
theorem isOpen_modify {f : Window τ δ → Window τ δ} (hf : ∀ w, (f w).closed = w.closed)
    (ws : List (Window τ δ)) (i j : Nat) : isOpen (ws.modify i f) j = isOpen ws j := by
  unfold isOpen
  rw [List.getElem?_modify]
  cases ws[j]? with
  | none => rfl
  | some w => by_cases hij : i = j <;> simp [hij, hf]

/-- The same windows are open, and the pointer is the same. -/
theorem someFocused_congr {t : Wm τ δ} (hact : t.activeWindow = s.activeWindow)
    (hopen : ∀ j, isOpen t.windows j = isOpen s.windows j) : SomeFocused t ↔ SomeFocused s := by
  unfold SomeFocused
  simp only [hact, hopen]

/-- A write that leaves `closed` leaves it. -/
theorem someFocused_modify (h : SomeFocused s) (i : Nat) {f : Window τ δ → Window τ δ}
    (hf : ∀ w, (f w).closed = w.closed) :
    SomeFocused { s with windows := s.windows.modify i f } := by
  refine (someFocused_congr (s := s) ?_ ?_).2 h
  · rfl
  · exact isOpen_modify hf s.windows i

/-- Giving the focus to the topmost window opens and closes none. -/
theorem isOpen_activateTopmost (s : Wm τ δ) (ws : List (Window τ δ)) (j : Nat) :
    isOpen (activateTopmost s ws).windows j = isOpen ws j := by
  unfold activateTopmost
  split
  · rfl
  · exact isOpen_setActive ws _ true j

/-- The successor scan finds an open window if there is one, so the focus is on an open window after
it. -/
theorem someFocused_activateTopmost (s : Wm τ δ) (ws : List (Window τ δ)) :
    SomeFocused (activateTopmost s ws) := by
  rintro ⟨i, hi⟩
  rw [isOpen_activateTopmost] at hi
  have hlt : i < ws.length := by
    obtain ⟨w, hw, -⟩ := isOpen_iff.1 hi
    exact (List.getElem?_eq_some_iff.1 hw).1
  cases hfind : findDown (isOpen ws) ws.length with
  | none =>
      rw [findDown_eq_none.1 hfind i hlt] at hi
      cases hi
  | some a =>
      refine ⟨a, (activateTopmost_active s ws).trans hfind, ?_⟩
      rw [isOpen_activateTopmost]
      exact (findDown_eq_some.1 hfind).2.1

/-- `wm_cycle_depth` keeps it: if a window is open, the topmost one gets the focus. -/
theorem someFocused_cycleDepth (hwf : s.WF) (h : SomeFocused s) :
    SomeFocused (wmCycleDepth s) := by
  rcases wmCycleDepth_cases hwf.active_lt with ⟨he, -⟩ | ⟨a, -, -, -, he⟩
  · rw [he]
    exact h
  · rw [he]
    exact someFocused_activateTopmost s _

/-- `wm_focus_window` keeps it: it moves the focus to the window it is called for. -/
theorem someFocused_focusWindow (h : SomeFocused s) (p : Option Nat) :
    SomeFocused (wmFocusWindow s p) := by
  rcases wmFocusWindow_cases s p with he | ⟨idx, w, -, hw, ho, he⟩
  · rw [he]
    exact h
  · have hlt : idx < (clearActive s.windows s.activeWindow).length := by
      rw [length_clearActive]
      exact (List.getElem?_eq_some_iff.1 hw).1
    obtain ⟨v, hv, hclosed⟩ := getElem?_of_map
      (map_clearActive (f := Window.closed) (fun _ _ => rfl) s.windows s.activeWindow) hw
    rw [he]
    refine someFocused_of_open rfl ?_
    rw [isOpen_setActive, isOpen_iff]
    refine ⟨v, ?_, hclosed.trans ho⟩
    rw [getElem?_moveToFront hlt, if_pos rfl]
    exact hv

/-- `wm_add_window` keeps it: the new window is open and gets the focus. -/
theorem someFocused_addWindow (h : SomeFocused s) (x y w hh : BitVec 32) (title : τ)
    (drawFn : Option δ) : SomeFocused (wmAddWindow s x y w hh title drawFn) := by
  rcases wmAddWindow_cases s x y w hh title drawFn with he | ⟨-, new, -, -, ho, he⟩
  · rw [he]
    exact h
  · have hnew : (s.windows ++ [new])[s.windows.length]? = some new :=
      List.getElem?_concat_length
    obtain ⟨v, hv, hclosed⟩ := getElem?_of_map
      (map_clearActive (f := Window.closed) (fun _ _ => rfl) (s.windows ++ [new])
        s.activeWindow) hnew
    rw [he]
    exact someFocused_of_open rfl (isOpen_iff.2 ⟨v, hv, hclosed.trans ho⟩)

/-- Every branch of a press keeps the focus on an open window. -/
theorem Press.someFocused {t : Wm τ δ} (hp : Press s mx my t) (hwf : s.WF)
    (h : SomeFocused s) : SomeFocused t := by
  cases hp with
  | close => exact someFocused_activateTopmost s _
  | depth => exact someFocused_cycleDepth hwf h
  | minimize =>
      refine someFocused_modify h _ ?_
      exact fun _ => rfl
  | drag => exact h
  | @other i _ hi =>
      obtain ⟨w, hw, ho, -, -⟩ := clickable_iff.1 (findDown_eq_some.1 hi).2.1
      obtain ⟨v, hv, hclosed⟩ := getElem?_of_map
        (map_pressOther (f := Window.closed) (fun _ _ => rfl) s i mx my) hw
      exact someFocused_of_open (pressOther_active s i mx my)
        (isOpen_iff.2 ⟨v, hv, hclosed.trans ho⟩)
  | miss => exact h

/-- A call of `wm_handle_mouse` keeps it: its close box gives the focus to the topmost open window,
unlike `exit`. -/
theorem someFocused_handleMouse (hwf : s.WF) (h : SomeFocused s) (mx my : Int) (left : Bool) :
    SomeFocused (wmHandleMouse s mx my left) := by
  cases left with
  | false => exact h
  | true =>
      cases hd : s.draggingWindowIdx with
      | none => exact (wmHandleMouse_press hd).someFocused hwf h
      | some d =>
          rw [wmHandleMouse_drag hd]
          refine someFocused_modify h d ?_
          exact fun _ => rfl

/-! ## An application that closes its window -/

/-- The focus stays on the closed window: that is right only when no other one is open. -/
theorem someFocused_closeActive_iff (h : SomeFocused s) :
    SomeFocused (wmCloseActive s) ↔ s.topOther = none := by
  unfold wmCloseActive
  cases hact : s.activeWindow with
  | none =>
      -- nothing is closed, and nothing was open
      refine iff_of_true h (findDown_eq_none.2 fun j _ => ?_)
      have hclosed : ¬ isOpen s.windows j = true := by
        intro hj
        obtain ⟨a, ha, -⟩ := h ⟨j, hj⟩
        rw [hact] at ha
        cases ha
      simp [hclosed]
  | some a =>
      have hself : ∀ b, some a = some b →
          ¬ isOpen (s.windows.modify a fun w => { w with closed := true }) b = true := by
        rintro b ⟨⟩
        simp [isOpen_close]
      constructor
      · intro hfocus
        refine findDown_eq_none.2 fun j _ => ?_
        by_contra hj
        rw [hact] at hj
        obtain ⟨hj, hne⟩ : isOpen s.windows j = true ∧ ¬ a = j := by simpa using hj
        obtain ⟨b, hb, ho⟩ := hfocus ⟨j, by simp [isOpen_close, hj, hne]⟩
        exact hself b hb ho
      · rintro hlast ⟨j, hj⟩
        rw [isOpen_close] at hj
        obtain ⟨hj, hne⟩ : isOpen s.windows j = true ∧ ¬ a = j := by simpa using hj
        have haj := topOther_eq_none hlast hj
        rw [hact] at haj
        exact absurd (Option.some.inj haj) hne

/-- One event keeps the focus on an open window exactly when it does not close one behind which
another one is open. -/
theorem someFocused_step_iff (hwf : s.WF) (h : SomeFocused s) (e : WmEvent τ δ) :
    SomeFocused (wmStep s e) ↔ ClosesLast s e := by
  cases e with
  | addWindow x y w hh title drawFn =>
      exact iff_of_true (someFocused_addWindow h x y w hh title drawFn) trivial
  | focusWindow i => exact iff_of_true (someFocused_focusWindow h (some i)) trivial
  | cycleDepth => exact iff_of_true (someFocused_cycleDepth hwf h) trivial
  | handleMouse mx my left => exact iff_of_true (someFocused_handleMouse hwf h mx my left) trivial
  | closeActive => exact someFocused_closeActive_iff h
  | restore i =>
      refine iff_of_true (someFocused_modify h i ?_) trivial
      exact fun _ => rfl

end

/-- In every run of the window manager, a key finds the focus on an open window after every event
exactly when each application that closes its window finds no other one open: `exit` and Ctrl+X set
`closed` and look for no successor. -/
theorem key_focus_iff {τ δ : Type} (es : List (WmEvent τ δ)) :
    RunOk wmStep (fun s e => SomeFocused (wmStep s e)) (wmInit Wm.static) es ↔
      RunOk wmStep ClosesLast (wmInit Wm.static) es := by
  have hstart : (wmInit Wm.static : Wm τ δ).WF ∧ SomeFocused (wmInit Wm.static : Wm τ δ) := by
    refine ⟨wmInit_wf, ?_⟩
    rintro ⟨i, hi⟩
    cases hi
  have hstep : ∀ (s : Wm τ δ) (e : WmEvent τ δ), s.WF ∧ SomeFocused s →
      ((wmStep s e).WF ∧ SomeFocused (wmStep s e) ↔ ClosesLast s e) := by
    rintro s e ⟨hwf, h⟩
    rw [and_iff_right (wmStep_wf s e hwf)]
    exact someFocused_step_iff hwf h e
  rw [← RunOk_keeps_iff hstep es hstart]
  refine RunOk_congr Wm.WF wmStep_wf (fun s e hwf => ?_) es wmInit_wf
  exact (and_iff_right (wmStep_wf s e hwf)).symm

/-- Two windows are opened, and the application of the second one closes it. -/
theorem key_focus_lost :
    ¬ ∀ es : List (WmEvent Unit Unit),
      RunOk wmStep (fun s e => SomeFocused (wmStep s e)) (wmInit Wm.static) es := by
  intro hall
  obtain ⟨-, -, hfocus, -⟩ := hall [.addWindow 0 0 1 1 () none, .addWindow 0 0 1 1 () none,
    .closeActive]
  obtain ⟨a, ha, ho⟩ := hfocus ⟨0, rfl⟩
  cases ha
  cases ho

end OnkenOS
