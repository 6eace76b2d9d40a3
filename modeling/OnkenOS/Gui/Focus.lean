import OnkenOS.Gui.Handover

/-!
# The focus invariant

The focus is stored twice: `active_window` points to a slot, and the window there carries
`active`. Every operation but one keeps the two in step on the open windows. The exception is
`wm_cycle_depth`, which clears the flag through the pointer after it has rotated the array, so
it clears the flag of the window that moved into the old slot and leaves the demoted window
flagged. `focusInv_cycleDepth_iff` is the exact condition under which that does no harm.
-/

namespace OnkenOS

open Slots

section
variable {τ δ : Type} {s : Wm τ δ} {ws : List (Window τ δ)} {mx my : Int}

/-- An open window is flagged exactly when the pointer holds its slot. -/
def FocusInv (s : Wm τ δ) : Prop :=
  ∀ i w, s.windows[i]? = some w → w.closed = false →
    (w.active = true ↔ s.activeWindow = some i)

/-- At most one open window is flagged. -/
def OneFlagged (s : Wm τ δ) : Prop :=
  ∀ (i j : Nat) (v w : Window τ δ), s.windows[i]? = some v → s.windows[j]? = some w →
    v.closed = false → w.closed = false → v.active = true → w.active = true → i = j

/-- Under the invariant at most one open window is flagged, as the pointer holds one slot. -/
theorem FocusInv.oneFlagged (h : FocusInv s) : OneFlagged s := by
  intro i j v w hv hw hvo hwo hva hwa
  have hi := (h i v hv hvo).1 hva
  have hj := (h j w hw hwo).1 hwa
  rw [hi] at hj
  injection hj

/-- No open window but the one the pointer holds is flagged. -/
def OnlyFlagged (ws : List (Window τ δ)) (p : Option Nat) : Prop :=
  ∀ i w, ws[i]? = some w → w.closed = false → w.active = true → p = some i

/-- Under the invariant no other open window is flagged. -/
theorem FocusInv.onlyFlagged (h : FocusInv s) : OnlyFlagged s.windows s.activeWindow :=
  fun i w hw ho ha => (h i w hw ho).1 ha

/-- No open window is flagged. -/
def NoneFlagged (ws : List (Window τ δ)) : Prop :=
  ∀ (i : Nat) (w : Window τ δ), ws[i]? = some w → w.closed = false → w.active = false

/-- Clearing the flag of the pointer's window clears the last one, so the window that is raised next
is the only one. -/
theorem OnlyFlagged.clear {p : Option Nat} (h : OnlyFlagged ws p) :
    NoneFlagged (clearActive ws p) := by
  intro i w hw ho
  by_contra hne
  have hact : w.active = true := by simpa using hne
  cases p with
  | none => exact nomatch h i w hw ho hact
  | some a =>
      simp only [clearActive, getElem?_setActive] at hw
      obtain ⟨v, hv, rfl⟩ := Option.map_eq_some_iff.1 hw
      split at hact
      · exact absurd hact Bool.false_ne_true
      · next hai =>
          rw [if_neg hai] at ho
          have := h i v hv ho hact
          injection this with this
          exact hai this

/-- Raising one slot of an array with no open window flagged. -/
theorem NoneFlagged.raise (h : NoneFlagged ws) {t : Wm τ δ} {i : Nat}
    (hw : t.windows = setActive ws i true) (ha : t.activeWindow = some i) : FocusInv t := by
  intro j w hj ho
  rw [hw, getElem?_setActive] at hj
  obtain ⟨v, hv, rfl⟩ := Option.map_eq_some_iff.1 hj
  rw [ha]
  split
  · next hij => simp [hij]
  · next hij =>
      rw [if_neg hij] at ho
      simp [h j v hv ho, hij]

/-- A rearrangement flags no window that was not flagged. -/
theorem NoneFlagged.moveToFront (h : NoneFlagged ws) (k : Nat) :
    NoneFlagged (moveToFront ws k) := by
  intro i w hw ho
  obtain ⟨j, hj⟩ := List.mem_iff_getElem?.1
    ((moveToFront_perm ws k).mem_iff.1 (List.mem_of_getElem? hw))
  exact h j w hj ho

/-- The successor scan restores the focus invariant exactly when the only open window that
was still flagged is the one it selects. -/
theorem focusInv_activateTopmost_iff :
    FocusInv (activateTopmost s ws) ↔ OnlyFlagged ws (findDown (isOpen ws) ws.length) := by
  constructor
  · intro h i w hw ho ha
    have hget := getElem?_activateTopmost s ws i
    rw [hw, Option.map_some] at hget
    have := (h i _ hget (by split <;> exact ho)).1 (by split <;> first | rfl | exact ha)
    simpa using this
  · intro h i w hw ho
    rw [getElem?_activateTopmost] at hw
    obtain ⟨v, hv, rfl⟩ := Option.map_eq_some_iff.1 hw
    rw [activateTopmost_active]
    split
    · next heq => simp [heq]
    · next hne =>
        rw [if_neg hne] at ho
        exact ⟨fun hact => h i v hv ho hact, fun heq => absurd heq hne⟩

/-! ## The operations that keep it -/

/-- `wm_focus_window` keeps it: it clears the flag of the old active window and sets that of the new
one. -/
theorem focusInv_focusWindow (h : FocusInv s) (p : Option Nat) :
    FocusInv (wmFocusWindow s p) := by
  rcases wmFocusWindow_cases s p with he | ⟨idx, w, -, hw, -, he⟩
  · rw [he]; exact h
  · rw [he]
    exact (h.onlyFlagged.clear.moveToFront idx).raise rfl rfl

/-- `wm_add_window` keeps it: the new window gets the focus, or there is none. -/
theorem focusInv_addWindow (h : FocusInv s) (hwf : s.WF) (x y w hh : BitVec 32) (title : τ)
    (drawFn : Option δ) : FocusInv (wmAddWindow s x y w hh title drawFn) := by
  rcases wmAddWindow_cases s x y w hh title drawFn with he | ⟨-, new, -, hact, -, he⟩
  · rw [he]; exact h
  · rw [he]
    intro j v hj ho
    have hflag : j < s.windows.length → v.active = false := by
      intro hlt
      refine h.onlyFlagged.clear j v ?_ ho
      cases ha : s.activeWindow with
      | none => simpa [ha, clearActive, List.getElem?_append_left hlt] using hj
      | some a =>
          simpa [ha, clearActive, getElem?_setActive, List.getElem?_append_left hlt] using hj
    rcases Nat.lt_trichotomy j s.windows.length with hlt | heq | hgt
    · simp only [hflag hlt, Bool.false_eq_true, Option.some.injEq, false_iff]
      omega
    · -- the appended slot: its flag is not the one that is cleared
      subst heq
      have hv : v.active = true := by
        cases ha : s.activeWindow with
        | none => simp_all [clearActive]
        | some a =>
            have := hwf.active_lt a ha
            simp only [ha, clearActive, getElem?_setActive, List.getElem?_concat_length,
              Option.map_some, Option.some.injEq] at hj
            rw [if_neg (by omega)] at hj
            rw [← hj, hact]
      simp [hv]
    · have := (List.getElem?_eq_some_iff.1 hj).1
      simp at this
      omega

/-- A write that keeps flags and closes windows at most keeps the invariant. -/
theorem focusInv_modify (h : FocusInv s) (i : Nat) {f : Window τ δ → Window τ δ}
    (ha : ∀ w, (f w).active = w.active) (hc : ∀ w, (f w).closed = false → w.closed = false) :
    FocusInv { s with windows := s.windows.modify i f } := by
  intro j w hj ho
  rw [List.getElem?_modify] at hj
  obtain ⟨v, hv, rfl⟩ := Option.map_eq_some_iff.1 hj
  split
  · next hij =>
      rw [if_pos hij] at ho
      rw [ha]
      exact h j v hv (hc v ho)
  · next hij =>
      rw [if_neg hij] at ho
      exact h j v hv ho

/-- A press on another window keeps it: the flag of the old active window is cleared before that of
the new one is set. -/
theorem focusInv_pressOther (h : FocusInv s) (i : Nat) : FocusInv (s.pressOther i mx my) := by
  have hcl := h.onlyFlagged.clear
  unfold Wm.pressOther
  split
  · exact hcl.raise rfl rfl
  · split <;> exact hcl.raise rfl rfl

/-- The close box hands the focus over with every other flag already clear. -/
theorem focusInv_pressClose (h : FocusInv s) {a : Nat} (ha : s.activeWindow = some a) :
    FocusInv (s.pressClose a) := by
  refine focusInv_activateTopmost_iff.2 fun i w hw ho hact => ?_
  rw [List.getElem?_modify] at hw
  obtain ⟨v, hv, rfl⟩ := Option.map_eq_some_iff.1 hw
  by_cases hia : a = i
  · simp [hia] at ho
  · simp only [hia, if_false] at ho hact
    have := h.onlyFlagged i v hv ho hact
    rw [ha] at this
    injection this with this
    exact absurd this hia

/-- Closing the active window keeps it: a closed window no longer counts. -/
theorem focusInv_closeActive (h : FocusInv s) : FocusInv (wmCloseActive s) := by
  unfold wmCloseActive
  split
  · exact h
  · exact focusInv_modify h _ (fun _ => rfl) fun _ hc => absurd hc (by simp)

/-! ## `wm_cycle_depth` -/

/-- The condition under which `wm_cycle_depth` keeps the focus invariant: the active window is
closed already, or in slot `0`, or the only open one. -/
def CycleSafe (s : Wm τ δ) : Prop :=
  ∀ a w, s.openActive = some (a, w) → a ≠ 0 → ∀ j, j ≠ a → isOpen s.windows j = false

/-- What the rotation and the late flag write of `wm_cycle_depth` leave flagged: the demoted
window in slot `0`, unless it was there before. -/
theorem cycle_flagged (h : FocusInv s) {a : Nat} (ha : s.activeWindow = some a)
    (hlt : a < s.windows.length) {i : Nat} {w : Window τ δ}
    (hw : (setActive (moveToFront s.windows a) a false)[i]? = some w)
    (ho : w.closed = false) (hact : w.active = true) :
    i = 0 ∧ a ≠ 0 ∧ s.windows[a]? = some w := by
  rw [getElem?_setActive, getElem?_moveToFront hlt] at hw
  obtain ⟨v, hv, rfl⟩ := Option.map_eq_some_iff.1 hw
  have hia : a ≠ i := by
    rintro rfl
    simp at hact
  simp only [hia, if_false] at ho hact ⊢
  split at hv
  · next hi => exact ⟨hi, by omega, hv⟩
  · next hi =>
      -- below the old slot the window came from one slot down, above it the window stayed
      exfalso
      split at hv
      · have := h.onlyFlagged _ v hv ho hact
        rw [ha] at this
        injection this with this
        omega
      · have := h.onlyFlagged _ v hv ho hact
        rw [ha] at this
        injection this with this
        exact hia this

/-- **When Alt+Tab keeps the focus invariant.** `wm_cycle_depth` clears the flag of the slot that
the active window had, after the shift has put another window there. -/
theorem focusInv_cycleDepth_iff (h : FocusInv s) (hwf : s.WF) :
    FocusInv (wmCycleDepth s) ↔ CycleSafe s := by
  rcases wmCycleDepth_cases hwf.active_lt with ⟨he, hnone | hle⟩ | ⟨a, ha, hlt, -, he⟩
  · rw [he]
    refine ⟨fun _ a w ho => ?_, fun _ => h⟩
    rw [(openActive_eq_some.1 ho).1] at hnone
    cases hnone
  · rw [he]
    refine ⟨fun _ a w ho hne => ?_, fun _ => h⟩
    have := hwf.active_lt a (openActive_eq_some.1 ho).1
    omega
  · rw [he, focusInv_activateTopmost_iff]
    constructor
    · -- the demoted window keeps its flag, so the scan must come back to slot 0
      intro hfl b w ho hne j hj
      obtain ⟨hb, hw, hcl⟩ := openActive_eq_some.1 ho
      rw [ha] at hb
      injection hb with hb
      subst hb
      have hget : (setActive (moveToFront s.windows a) a false)[0]? = some w := by
        rw [getElem?_setActive, getElem?_moveToFront hlt, if_pos rfl, hw, Option.map_some,
          if_neg hne]
      have hnext := hfl 0 w hget hcl (hwf.active_flag a w ha hw)
      rw [← activateTopmost_active s, cycle_active ho] at hnext
      by_contra hopen
      cases hT : s.topOther with
      | none =>
          have := topOther_eq_none hT (by simpa using hopen)
          rw [ha] at this
          cases this
          exact hj rfl
      | some b =>
          rw [hT] at hnext
          injection hnext with hnext
          have hba := (topOther_eq_some hT).2.2.1
          rw [← frontSlot_self a, frontSlot_inj] at hnext
          exact hba (hnext ▸ ha)
    · intro hsafe i w hw ho hact
      obtain ⟨rfl, hne, hwa⟩ := cycle_flagged h ha hlt hw ho hact
      have hoa := openActive_eq_some.2 ⟨ha, hwa, ho⟩
      have hT : s.topOther = none := by
        refine findDown_eq_none.2 fun j _ => ?_
        by_cases hja : j = a
        · simp [hja, ha]
        · simp [hsafe a w hoa hne j hja]
      rw [← activateTopmost_active s, cycle_active hoa, hT]

/-! ## Runs -/

/-- The event calls `wm_cycle_depth`: Alt+Tab, or a press on the depth gadget of the active
window. -/
def CallsCycle (s : Wm τ δ) : WmEvent τ δ → Prop
  | .cycleDepth => True
  | .handleMouse mx my leftClick => leftClick = true ∧ s.draggingWindowIdx = none ∧
      ∃ a w, s.openActive = some (a, w) ∧ w.OnTitlebar mx my ∧ ¬ w.OnCloseBox mx my ∧
        w.OnDepthGadget mx my
  | _ => False

/-- A call of `wm_cycle_depth`, if the event makes one, finds the active window closed, in
slot `0`, or the only open one. -/
def CycleGuard (s : Wm τ δ) (e : WmEvent τ δ) : Prop := CallsCycle s e → CycleSafe s

/-- A call of `wm_handle_mouse` keeps it exactly unless it is a press on the depth gadget that loses
the flag; the other branches always do. -/
theorem focusInv_handleMouse_iff (h : FocusInv s) (hwf : s.WF) (mx my : Int) (left : Bool) :
    FocusInv (wmHandleMouse s mx my left) ↔ CycleGuard s (.handleMouse mx my left) := by
  cases left with
  | false => exact ⟨fun _ hc => absurd hc.1 Bool.false_ne_true, fun _ => h⟩
  | true =>
      cases hd : s.draggingWindowIdx with
      | some d =>
          rw [wmHandleMouse_drag hd]
          refine ⟨fun _ hc => ?_, fun _ => focusInv_modify h d (fun _ => rfl) fun _ => id⟩
          rw [hc.2.1] at hd
          cases hd
      | none =>
          have hp : Press s mx my (wmHandleMouse s mx my true) := wmHandleMouse_press hd
          generalize wmHandleMouse s mx my true = t at hp
          cases hp with
          | close ha ht hc =>
              refine ⟨fun _ hcall => ?_,
                fun _ => focusInv_pressClose h (openActive_eq_some.1 ha).1⟩
              obtain ⟨-, -, b, v, hb, -, hncl, -⟩ := hcall
              rw [ha] at hb
              cases hb
              exact absurd hc hncl
          | depth ha ht hc hg =>
              rw [focusInv_cycleDepth_iff h hwf]
              exact ⟨fun hs _ => hs, fun hg' => hg' ⟨rfl, hd, _, _, ha, ht, hc, hg⟩⟩
          | minimize ha ht hc hg hm =>
              refine ⟨fun _ hcall => ?_,
                fun _ => focusInv_modify h _ (fun _ => rfl) fun _ => id⟩
              obtain ⟨-, -, b, v, hb, -, -, hg'⟩ := hcall
              rw [ha] at hb
              cases hb
              exact absurd hg' hg
          | drag ha ht hc hg hm =>
              refine ⟨fun _ hcall => ?_, fun _ => h⟩
              obtain ⟨-, -, b, v, hb, -, -, hg'⟩ := hcall
              rw [ha] at hb
              cases hb
              exact absurd hg' hg
          | other ht hi =>
              refine ⟨fun _ hcall => ?_, fun _ => focusInv_pressOther h _⟩
              obtain ⟨-, -, b, v, hb, hbt, -⟩ := hcall
              exact absurd hbt (ht b v hb)
          | miss ht hi =>
              refine ⟨fun _ hcall => ?_, fun _ => h⟩
              obtain ⟨-, -, b, v, hb, hbt, -⟩ := hcall
              exact absurd hbt (ht b v hb)

/-- One event keeps the focus invariant exactly when it meets the guard. -/
theorem focusInv_step_iff (h : FocusInv s) (hwf : s.WF) (e : WmEvent τ δ) :
    FocusInv (wmStep s e) ↔ CycleGuard s e := by
  cases e with
  | addWindow x y w hh title drawFn =>
      exact ⟨fun _ => False.elim, fun _ => focusInv_addWindow h hwf x y w hh title drawFn⟩
  | focusWindow i => exact ⟨fun _ => False.elim, fun _ => focusInv_focusWindow h (some i)⟩
  | cycleDepth =>
      refine (focusInv_cycleDepth_iff h hwf).trans ⟨fun hs _ => hs, fun hg => hg trivial⟩
  | handleMouse mx my left => exact focusInv_handleMouse_iff h hwf mx my left
  | closeActive => exact ⟨fun _ => False.elim, fun _ => focusInv_closeActive h⟩
  | restore i =>
      exact ⟨fun _ => False.elim, fun _ => focusInv_modify h i (fun _ => rfl) fun _ => id⟩

/-- **The focus invariant over runs.** A run keeps it as long as each call of `wm_cycle_depth`
finds the active window closed, in slot `0`, or the only open one; from a reachable state that
satisfies it, no other step breaks it and every such call does. -/
theorem wm_focus_invariant :
    (∀ es : List (WmEvent τ δ), Machine.RunOk wmStep CycleGuard (wmInit Wm.static) es →
      FocusInv (wmRun es) ∧ OneFlagged (wmRun es)) ∧
    (∀ (s : Wm τ δ) (e : WmEvent τ δ), s.Reached → FocusInv s →
      (FocusInv (wmStep s e) ↔ CycleGuard s e)) := by
  refine ⟨fun es hok => ?_, fun s e hr h => focusInv_step_iff h hr.wf e⟩
  have hinv := Machine.run_invariant_of_ok (fun s : Wm τ δ => FocusInv s ∧ s.WF)
    (fun s e ⟨h, hwf⟩ hg => ⟨(focusInv_step_iff h hwf e).2 hg, wmStep_wf s e hwf⟩)
    es ⟨fun i w hw => by simp [wmInit] at hw, wmInit_wf⟩ hok
  exact ⟨hinv.1, hinv.1.oneFlagged⟩

/-- A run of the theorem: Alt+Tab with the focus on slot `0`. -/
theorem wm_focus_invariant_at_front :
    FocusInv (wmRun [.addWindow 0 0 100 100 () (none : Option Unit),
      .addWindow 0 0 100 100 () none, .focusWindow 0, .cycleDepth]) := by
  have hsafe : CycleSafe (wmRun [.addWindow 0 0 100 100 () (none : Option Unit),
      .addWindow 0 0 100 100 () none, .focusWindow 0]) := by
    intro a w ho hne
    obtain ⟨ha, -⟩ := openActive_eq_some.1 ho
    injection ha with ha
    exact absurd ha.symm hne
  refine (wm_focus_invariant.1 [.addWindow 0 0 100 100 () (none : Option Unit),
    .addWindow 0 0 100 100 () none, .focusWindow 0, .cycleDepth] ?_).1
  exact ⟨nofun, nofun, nofun, fun _ => hsafe, trivial⟩

/-- Two windows and one Alt+Tab: the window sent to the bottom keeps its flag. -/
theorem wm_focus_invariant_fails :
    ¬ ∀ es : List (WmEvent Unit Unit), FocusInv (wmRun es) := by
  intro h
  have hf := h [.addWindow 0 0 100 100 () none, .addWindow 0 0 100 100 () none, .cycleDepth]
  have := (hf 0 _ rfl rfl).1 rfl
  exact absurd this (by decide)

end

end OnkenOS
