import OnkenOS.Gui.WindowInv

/-!
# Handing the focus over

The close box and `wm_cycle_depth` both end in the scan for the last open slot. The window it
finds is the same in both: the last open window that was not the active one (`Wm.topOther`).
-/

namespace OnkenOS

open Slots

section
variable {τ δ : Type} {s : Wm τ δ} {ws : List (Window τ δ)} {mx my : Int}

/-- The last open window that is not the active one. -/
def Wm.topOther (s : Wm τ δ) : Option Nat :=
  findDown (fun i => isOpen s.windows i && s.activeWindow != some i) s.windowCount

/-- What is found is open and not the active window, and no other such window is above it. -/
theorem topOther_eq_some {b : Nat} (h : s.topOther = some b) :
    b < s.windows.length ∧ isOpen s.windows b = true ∧ s.activeWindow ≠ some b ∧
      ∀ j, b < j → isOpen s.windows j = true → s.activeWindow = some j := by
  obtain ⟨hlt, hp, hmax⟩ := findDown_eq_some.1 h
  simp only [Bool.and_eq_true, bne_iff_ne, ne_eq] at hp
  refine ⟨hlt, hp.1, hp.2, fun j hj ho => ?_⟩
  obtain ⟨v, hv, -⟩ := isOpen_iff.1 ho
  have := hmax j hj (List.getElem?_eq_some_iff.1 hv).1
  simpa [ho] using this

/-- If nothing is found, no window but the active one is open. -/
theorem topOther_eq_none (h : s.topOther = none) {j : Nat} (ho : isOpen s.windows j = true) :
    s.activeWindow = some j := by
  obtain ⟨v, hv, -⟩ := isOpen_iff.1 ho
  have := findDown_eq_none.1 h j (List.getElem?_eq_some_iff.1 hv).1
  simpa [ho] using this

/-! ## Closing the active window -/

/-- Which slots are open once slot `a` is closed: the same, but for that one. -/
theorem isOpen_close (ws : List (Window τ δ)) (a j : Nat) :
    isOpen (ws.modify a fun w => { w with closed := true }) j =
      (isOpen ws j && decide (a ≠ j)) := by
  unfold isOpen
  rw [List.getElem?_modify]
  cases ws[j]? with
  | none => simp
  | some w => by_cases haj : a = j <;> simp [haj]

/-- The close box hands the focus to the last other open window. -/
theorem close_active {a : Nat} (ha : s.activeWindow = some a) :
    (s.pressClose a).activeWindow = s.topOther := by
  rw [Wm.pressClose, activateTopmost_active, List.length_modify]
  refine findDown_congr fun j _ => ?_
  rw [isOpen_close, ha]
  by_cases haj : a = j <;> simp [haj]

/-! ## Sending the active window back -/

/-- Which slots are open after the rotation: those that were, at their new places. -/
theorem isOpen_cycle {a : Nat} (hlt : a < s.windows.length) (j : Nat) :
    isOpen (setActive (moveToFront s.windows a) a false) (frontSlot a j) =
      isOpen s.windows j := by
  rw [isOpen_setActive]
  unfold isOpen
  rw [getElem?_frontSlot hlt]

/-- The rotation hands the focus to the last other open window, in its new slot, or back to
the window it sent to slot `0`. -/
theorem cycle_active {a : Nat} {w : Window τ δ} (ha : s.openActive = some (a, w)) :
    (activateTopmost s (setActive (moveToFront s.windows a) a false)).activeWindow =
      match s.topOther with
      | some b => some (frontSlot a b)
      | none => some 0 := by
  obtain ⟨hact, hw, ho⟩ := openActive_eq_some.1 ha
  have hlt : a < s.windows.length := (List.getElem?_eq_some_iff.1 hw).1
  have hopen : isOpen s.windows a = true := isOpen_iff.2 ⟨w, hw, ho⟩
  rw [activateTopmost_active, length_setActive, length_moveToFront]
  cases hT : s.topOther with
  | some b =>
      obtain ⟨hb, hbo, hne, hmax⟩ := topOther_eq_some hT
      have hba : b ≠ a := fun he => hne (he ▸ hact)
      refine findDown_eq_some.2 ⟨?_, by rw [isOpen_cycle hlt, hbo], fun j hj hjlt => ?_⟩
      · unfold frontSlot; grind
      · obtain ⟨i, rfl⟩ := exists_frontSlot a j
        rw [isOpen_cycle hlt]
        by_contra hio
        have hia := hmax i (by unfold frontSlot at hj; grind) (by simpa using hio)
        rw [hact] at hia
        cases hia
        simp at hj
  | none =>
      refine findDown_eq_some.2 ⟨by omega, ?_, fun j hj hjlt => ?_⟩
      · rw [← frontSlot_self a, isOpen_cycle hlt, hopen]
      · obtain ⟨i, rfl⟩ := exists_frontSlot a j
        rw [isOpen_cycle hlt]
        by_contra hio
        have hia := topOther_eq_none hT (j := i) (by simpa using hio)
        rw [hact] at hia
        cases hia
        simp at hj

/-- `wm_cycle_depth` leaves `dragging_window_idx`, which then may be the slot of another window. -/
theorem cycleDepth_drag (h : s.WF) :
    (wmCycleDepth s).draggingWindowIdx = s.draggingWindowIdx := by
  rcases wmCycleDepth_cases h.active_lt with ⟨he, -⟩ | ⟨a, -, -, -, he⟩ <;> rw [he]
  exact activateTopmost_drag s _

/-- Sending a window back and focusing the topmost one moves the windows as `moveToFront` does. -/
theorem map_serial_cycle {a : Nat} (s : Wm τ δ) :
    (activateTopmost s (setActive (moveToFront s.windows a) a false)).windows.map
      Window.serial = moveToFront (s.windows.map Window.serial) a := by
  rw [map_activateTopmost (fun _ _ => rfl), map_setActive (fun _ _ => rfl), map_moveToFront]

/-- The rotation keeps the order only when the slot is the first. -/
theorem eq_zero_of_cycle_order (h : s.WF) {a : Nat} (hlt : a < s.windows.length)
    (he : moveToFront (s.windows.map Window.serial) a = s.windows.map Window.serial) :
    a = 0 := by
  have h0 := congrArg (·[0]?) he
  rw [getElem?_moveToFront (by simpa using hlt), if_pos rfl] at h0
  simp only [List.getElem?_map] at h0
  have hz : 0 < s.windows.length := by omega
  rw [List.getElem?_eq_getElem hlt, List.getElem?_eq_getElem hz] at h0
  simp only [Option.map_some, Option.some.injEq] at h0
  exact h.serial_inj (List.getElem?_eq_getElem hlt) (List.getElem?_eq_getElem hz) h0

/-- Sending the first slot back, with no other window open, changes nothing. -/
theorem cycle_zero_eq_self (h : s.WF) {w : Window τ δ} (ha : s.openActive = some (0, w))
    (hT : s.topOther = none) :
    activateTopmost s (setActive (moveToFront s.windows 0) 0 false) = s := by
  obtain ⟨hact, hw, -⟩ := openActive_eq_some.1 ha
  have hflag := h.active_flag 0 w hact hw
  have hfd := cycle_active ha
  rw [hT, activateTopmost_active] at hfd
  have hws : setActive (setActive (moveToFront s.windows 0) 0 false) 0 true = s.windows := by
    apply List.ext_getElem?
    intro j
    rw [moveToFront_zero, getElem?_setActive, getElem?_setActive]
    cases hj : s.windows[j]? with
    | none => rfl
    | some v =>
        by_cases hj0 : 0 = j
        · subst hj0
          rw [hw] at hj
          cases hj
          simp [← hflag]
        · simp [hj0]
  unfold activateTopmost
  rw [hfd]
  simp only
  rw [hws, ← hact]

/-- Alt+Tab with nothing behind the active window, which is in slot `0`. -/
theorem wmCycleDepth_eq_self (h : s.WF) {w : Window τ δ} (ha : s.openActive = some (0, w))
    (hT : s.topOther = none) : wmCycleDepth s = s := by
  rcases wmCycleDepth_cases h.active_lt with ⟨he, -⟩ | ⟨a, hact, -, -, he⟩
  · exact he
  · rw [(openActive_eq_some.1 ha).1] at hact
    cases hact
    rw [he, cycle_zero_eq_self h ha hT]

/-- In a table of one window there is no other. -/
theorem topOther_of_single {a : Nat} (hact : s.activeWindow = some a) (hlt : a < s.windows.length)
    (hle : s.windows.length ≤ 1) : a = 0 ∧ s.topOther = none := by
  refine ⟨by omega, findDown_eq_none.2 fun j hj => ?_⟩
  have hja : j = a := by unfold Wm.windowCount at hj; omega
  simp [hja, hact]

/-- Alt+Tab that keeps the order and the active slot had nothing to send back. -/
theorem topOther_of_cycle_fixed (h : s.WF) {a : Nat} {w : Window τ δ}
    (ha : s.openActive = some (a, w))
    (hord : (wmCycleDepth s).windows.map Window.serial = s.windows.map Window.serial)
    (hnext : (wmCycleDepth s).activeWindow = some a) : a = 0 ∧ s.topOther = none := by
  have hact := (openActive_eq_some.1 ha).1
  have hlt := h.active_lt a hact
  rcases wmCycleDepth_cases h.active_lt with ⟨-, hle⟩ | ⟨b, hb, -, -, he⟩
  · exact topOther_of_single hact hlt (by simpa [hact] using hle)
  · rw [hact] at hb
    cases hb
    rw [he] at hord hnext
    have ha0 := eq_zero_of_cycle_order h hlt ((map_serial_cycle s).symm.trans hord)
    subst ha0
    rw [cycle_active ha] at hnext
    refine ⟨rfl, ?_⟩
    cases hT : s.topOther with
    | none => rfl
    | some i =>
        rw [hT] at hnext
        simp only [frontSlot_zero, Option.some.injEq] at hnext
        have hne := (topOther_eq_some hT).2.2.1
        rw [hact, hnext] at hne
        exact absurd rfl hne

/-- When Alt+Tab changes nothing, with an open window active: it is in slot `0` already, and no
other one is open. -/
theorem wmCycleDepth_eq_self_iff (h : s.WF) {a : Nat} {w : Window τ δ}
    (ha : s.openActive = some (a, w)) : wmCycleDepth s = s ↔ a = 0 ∧ s.topOther = none := by
  constructor
  · intro he
    have hact := (openActive_eq_some.1 ha).1
    exact topOther_of_cycle_fixed h ha (by rw [he]) (by rw [he, hact])
  · rintro ⟨rfl, hT⟩
    exact wmCycleDepth_eq_self h ha hT

end

end OnkenOS
