import OnkenOS.Gui.Press
import OnkenOS.Gui.Reorder
import OnkenOS.Shell.Desktop

/-!
# The windows under a press

What the shell's treatment of a press needs to know of the window manager: when `wm_handle_mouse`
changes anything (`wmHandleMouse_eq_self_iff`), how many windows it leaves open, which taskbar
buttons there are, and which window is active once a window has been added or restored.
-/

namespace OnkenOS

open Slots

/-! ## What the window manager does with a press -/

section
variable {τ δ : Type} {s : Wm τ δ} {mx my : Int}

/-- A press with no drag in progress changes something: on the title bar strip of the active window
unless it is on the depth gadget with nothing to send back, elsewhere on an inactive window. -/
def Wm.Acts (s : Wm τ δ) (mx my : Int) : Prop :=
  match s.openActive with
  | some (a, w) =>
    if w.OnTitlebar mx my then
      w.OnCloseBox mx my ∨ ¬ w.OnDepthGadget mx my ∨ a ≠ 0 ∨ s.topOther ≠ none
    else s.topClickArea mx my ≠ none
  | none => s.topClickArea mx my ≠ none

/-- The press is on the close box of the active window. -/
def Wm.closes (s : Wm τ δ) (mx my : Int) : Bool :=
  match s.openActive with
  | some (_, w) => decide (w.OnTitlebar mx my ∧ w.OnCloseBox mx my)
  | none => false

/-- How many windows are open. -/
def openCount (ws : List (Window τ δ)) : Nat := ws.countP fun w => !w.closed

/-- On the title bar of the active window a press does something, except on a depth gadget with
nothing to send back. -/
theorem acts_of_openActive {a : Nat} {w : Window τ δ} (ha : s.openActive = some (a, w))
    (ht : w.OnTitlebar mx my) : s.Acts mx my ↔
      w.OnCloseBox mx my ∨ ¬ w.OnDepthGadget mx my ∨ a ≠ 0 ∨ s.topOther ≠ none := by
  simp only [Wm.Acts, ha, ht, if_true]

/-- Off the title bar of the active window a press does something exactly where another window is
hit. -/
theorem acts_of_not_titlebar (ht : ∀ a w, s.openActive = some (a, w) → ¬ w.OnTitlebar mx my) :
    s.Acts mx my ↔ s.topClickArea mx my ≠ none := by
  unfold Wm.Acts
  cases ha : s.openActive with
  | none => rfl
  | some p =>
      obtain ⟨a, w⟩ := p
      simp only [ht a w ha, if_false]

/-- A state that differs in one slot differs. -/
theorem ne_of_slot {t : Wm τ δ} {a : Nat} {v w : Window τ δ} (hv : t.windows[a]? = some v)
    (hw : s.windows[a]? = some w) (hne : v.view ≠ w.view) : t ≠ s := by
  rintro rfl
  rw [hv] at hw
  cases hw
  exact hne rfl

/-- A press leaves the window system as it was exactly where it does nothing: a drag that starts
counts, as it writes `dragging_window_idx`. -/
theorem wmHandleMouse_eq_self_iff (h : s.WF) (hd : s.draggingWindowIdx = none) (mx my : Int) :
    wmHandleMouse s mx my true = s ↔ ¬ s.Acts mx my := by
  have hp : Press s mx my (wmHandleMouse s mx my true) := wmHandleMouse_press hd
  generalize wmHandleMouse s mx my true = t at hp
  cases hp with
  | @close a w ha ht hc =>
      obtain ⟨hact, hw, ho⟩ := openActive_eq_some.1 ha
      rw [acts_of_openActive ha ht]
      refine iff_of_false ?_ (not_not_intro (.inl hc))
      obtain ⟨v, hv, hview⟩ := pressClose_slot (s := s) hw
      exact ne_of_slot hv hw (by rw [hview]; simp [Window.view, ho])
  | depth ha ht hc hg =>
      rw [acts_of_openActive ha ht, wmCycleDepth_eq_self_iff h ha]
      simp [hc, hg]
  | @minimize a w ha ht hc hg hm =>
      obtain ⟨-, hw, -⟩ := openActive_eq_some.1 ha
      rw [acts_of_openActive ha ht]
      refine iff_of_false ?_ (not_not_intro (.inr (.inl hg)))
      exact ne_of_slot (pressMinimize_slot hw) hw (by simp [Window.view])
  | drag ha ht hc hg hm =>
      rw [acts_of_openActive ha ht]
      refine iff_of_false (fun he => ?_) (not_not_intro (.inr (.inl hg)))
      have := congrArg Wm.draggingWindowIdx he
      rw [hd] at this
      cases this
  | @other i ht hi =>
      rw [acts_of_not_titlebar ht]
      refine iff_of_false (fun he => ?_) (not_not_intro (by simp [hi]))
      obtain ⟨-, hcl, -⟩ := findDown_eq_some.1 hi
      obtain ⟨w, -, -, hne, -⟩ := clickable_iff.1 hcl
      exact hne (he ▸ pressOther_active s i mx my)
  | miss ht hi =>
      rw [acts_of_not_titlebar ht]
      simp [hi]

/-! ## How many windows stay open -/

/-- Windows that only change their slots are as many. -/
theorem openCount_of_perm {ws ws' : List (Window τ δ)}
    (h : (ws'.map Window.closed).Perm (ws.map Window.closed)) : openCount ws' = openCount ws := by
  have := h.countP_eq (fun c => !c)
  rwa [List.countP_map, List.countP_map] at this

/-- Closing an open window leaves one less open. -/
theorem openCount_close : ∀ (ws : List (Window τ δ)) (a : Nat) {w : Window τ δ},
    ws[a]? = some w → w.closed = false →
      openCount (ws.modify a fun w => { w with closed := true }) = openCount ws - 1
  | w :: ws, 0, _, hw, ho => by
      cases hw
      simp [openCount, ho]
  | v :: ws, a + 1, w, hw, ho => by
      have hpos : 0 < openCount ws :=
        List.countP_pos_iff.2 ⟨w, List.mem_of_getElem? hw, by simp [ho]⟩
      have ih := openCount_close ws a hw ho
      unfold openCount at ih hpos ⊢
      rw [List.modify_succ_cons, List.countP_cons, List.countP_cons, ih]
      omega

/-- Off the close box nothing is closed. -/
theorem closes_of_not_closeBox {a : Nat} {w : Window τ δ} (ha : s.openActive = some (a, w))
    (hc : ¬ w.OnCloseBox mx my) : s.closes mx my = false := by
  simp [Wm.closes, ha, hc]

/-- Off the title bar nothing is closed: the close box is in it. -/
theorem closes_of_not_titlebar (ht : ∀ a w, s.openActive = some (a, w) → ¬ w.OnTitlebar mx my) :
    s.closes mx my = false := by
  unfold Wm.closes
  cases ha : s.openActive with
  | none => rfl
  | some p => exact decide_eq_false fun hp => ht p.1 p.2 ha hp.1

/-- A press closes a window through the close box only, and then one. One case for each branch of
`wm_handle_mouse`. -/
theorem openCount_press (h : s.WF) (hd : s.draggingWindowIdx = none) :
    openCount (wmHandleMouse s mx my true).windows =
      if s.closes mx my then openCount s.windows - 1 else openCount s.windows := by
  have hp : Press s mx my (wmHandleMouse s mx my true) := wmHandleMouse_press hd
  generalize wmHandleMouse s mx my true = t at hp
  cases hp with
  | @close a w ha ht hc =>
      obtain ⟨-, hw, ho⟩ := openActive_eq_some.1 ha
      have hcl : s.closes mx my = true := by simp [Wm.closes, ha, ht, hc]
      rw [hcl, if_pos rfl, ← openCount_close s.windows a hw ho]
      exact openCount_of_perm (.of_eq (map_activateTopmost (fun _ _ => rfl) _ _))
  | depth ha ht hc hg =>
      rw [closes_of_not_closeBox ha hc]
      refine openCount_of_perm ?_
      rw [wmCycleDepth_map (fun _ _ => rfl) h]
      exact rotated_perm _ _
  | minimize ha ht hc hg hm =>
      rw [closes_of_not_closeBox ha hc]
      refine openCount_of_perm (.of_eq ?_)
      exact map_modify_of_eq (by exact fun _ => rfl) _ _
  | drag ha ht hc hg hm =>
      rw [closes_of_not_closeBox ha hc]
      rfl
  | other ht hi =>
      rw [closes_of_not_titlebar ht]
      exact openCount_of_perm (.of_eq (map_pressOther (fun _ _ => rfl) _ _ _ _))
  | miss ht hi =>
      rw [closes_of_not_titlebar ht]
      rfl

/-! ## The taskbar buttons -/

/-- The buttons stand side by side, one for each open window, 145 columns apart: the press is on one
of them exactly if it is on the place of some number. -/
theorem taskbarSlot_isSome : ∀ {ws : List (Window τ δ)} {tbX : Int} {i : Nat},
    (taskbarSlot mx ws tbX i).isSome ↔
      ∃ k < openCount ws, tbX + 145 * k ≤ mx ∧ mx ≤ tbX + 145 * k + 140
  | [], tbX, i => by simp [taskbarSlot, openCount]
  | w :: ws, tbX, i => by
      unfold taskbarSlot
      split
      · next hc =>
          rw [taskbarSlot_isSome, show openCount (w :: ws) = openCount ws by simp [openCount, hc]]
      · next ho =>
          have hcount : openCount (w :: ws) = openCount ws + 1 := by simp [openCount, ho]
          rw [hcount]
          split
          · next hx => exact iff_of_true rfl ⟨0, by omega, by simpa using hx⟩
          · next hx =>
              rw [taskbarSlot_isSome]
              constructor
              · rintro ⟨k, hk, hlo, hhi⟩
                exact ⟨k + 1, by omega, by push_cast; omega, by push_cast; omega⟩
              · rintro ⟨k, hk, hlo, hhi⟩
                cases k with
                | zero => exact absurd ⟨by simpa using hlo, by simpa using hhi⟩ hx
                | succ k =>
                    push_cast at hlo hhi
                    exact ⟨k, by omega, by omega, by omega⟩

/-- A button belongs to an open window: the loop passes the closed ones without a place. -/
theorem taskbarSlot_open : ∀ {ws : List (Window τ δ)} {tbX : Int} {i j : Nat},
    taskbarSlot mx ws tbX i = some j →
      i ≤ j ∧ ∃ w, ws[j - i]? = some w ∧ w.closed = false
  | w :: ws, tbX, i, j, h => by
      have hnext : ∀ {x : Int}, taskbarSlot mx ws x (i + 1) = some j →
          i ≤ j ∧ ∃ v, (w :: ws)[j - i]? = some v ∧ v.closed = false := by
        intro x hx
        obtain ⟨hle, v, hv, ho⟩ := taskbarSlot_open hx
        refine ⟨by omega, v, ?_, ho⟩
        rw [show j - i = j - (i + 1) + 1 by omega, List.getElem?_cons_succ, hv]
      unfold taskbarSlot at h
      split at h
      · exact hnext h
      · next ho =>
          split at h
          · cases h
            exact ⟨le_refl i, w, by simp, by simpa using ho⟩
          · exact hnext h

/-! ## Painted windows -/

/-- Where the frame of an open window is, some window is painted. -/
theorem topPainted_ne_none {w : Window τ δ} (hw : w ∈ s.windows) (ho : w.closed = false)
    (hf : w.FrameHas mx my) : s.topPainted mx my ≠ none := by
  obtain ⟨i, hi⟩ := List.mem_iff_getElem?.1 hw
  have hinactive : s.activeWindow ≠ some i →
      findDown (s.paintedInactive mx my) s.windowCount ≠ none := by
    intro hne hn
    have := findDown_eq_none.1 hn i (List.getElem?_eq_some_iff.1 hi).1
    rw [paintedInactive_iff.2 ⟨w, hi, ho, hne, hf⟩] at this
    cases this
  rw [topPainted_eq]
  cases ha : s.openActive with
  | none =>
      refine hinactive fun hact => ?_
      rw [openActive_eq_some.2 ⟨hact, hi, ho⟩] at ha
      cases ha
  | some p =>
      obtain ⟨a, v⟩ := p
      dsimp only
      split
      · nofun
      · next hv =>
          refine hinactive fun hact => ?_
          rw [openActive_eq_some.2 ⟨hact, hi, ho⟩] at ha
          cases ha
          exact hv hf

/-! ## Which window is active afterwards -/

/-- A new window is the active one, if the table has room for it. -/
theorem getActive_addWindow (h : s.WF) (x y w hh : BitVec 32) (title : τ) (drawFn : Option δ) :
    (wmAddWindow s x y w hh title drawFn).getActive =
      if maxWindows ≤ s.windowCount then s.getActive
      else some
        { x := x, y := y, w := w, h := hh, title := title, color := 0xC0C0C0
          active := true, closed := false, minimized := false, drawContent := drawFn
          serial := s.windowCount } := by
  unfold wmAddWindow
  split
  · rfl
  · unfold Wm.getActive
    simp only [Option.bind_some]
    cases ha : s.activeWindow with
    | none => simp [clearActive, Wm.windowCount]
    | some a =>
        have hne : a ≠ s.windows.length := (h.active_lt a ha).ne
        simp only [clearActive, getElem?_setActive, Wm.windowCount, hne, if_false]
        simp

/-- A taskbar button activates its window, and restores it if it was minimised. -/
theorem getActive_focusWindow {i : Nat} {w : Window τ δ} (hw : s.windows[i]? = some w)
    (ho : w.closed = false) : (wmFocusWindow (wmRestore s i) (some i)).getActive =
      some { w with minimized := false, active := true } := by
  have hr : (wmRestore s i).windows[i]? = some { w with minimized := false } := by
    simp [wmRestore, hw]
  have hlt : i < (wmRestore s i).windows.length := (List.getElem?_eq_some_iff.1 hr).1
  have hclear : (clearActive (wmRestore s i).windows (wmRestore s i).activeWindow)[i]?.map
      (fun v => { v with active := true }) =
        some { w with minimized := false, active := true } := by
    cases ha : (wmRestore s i).activeWindow with
    | none => simp [clearActive, hr]
    | some a =>
        simp only [clearActive, getElem?_setActive, hr, Option.map_some]
        split <;> rfl
  simp only [wmFocusWindow, hr, ho, Bool.false_eq_true, if_false, Wm.getActive, Option.bind_some]
  rw [getElem?_setActive, getElem?_moveToFront (by simpa using hlt), if_pos rfl]
  simp only [if_true]
  rw [hclear, ho]

end

end OnkenOS
