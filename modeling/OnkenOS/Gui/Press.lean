import Mathlib.Logic.Function.Iterate
import OnkenOS.Gui.Handover

/-!
# One press, one action

The shell calls `wm_handle_mouse` on every poll with the level of the button. A press that is
held is therefore the same call repeated. `PressIsOneAction` says that the repetitions change
nothing that the first call did not; `PressCond` is the exact condition for it, on the state
before the first call. The proof splits in two: a state in which a call has no visible effect
is `Wm.Quiet`, and a first call that starts no drag must leave a quiet state.
-/

namespace OnkenOS

open Slots

section
variable {τ δ : Type} {s t : Wm τ δ} {ws : List (Window τ δ)} {mx my : Int}

/-- Conditionals on one test, branch by branch. -/
theorem ite_iff_ite {p a b c d : Prop} [Decidable p] (h₁ : p → (a ↔ c)) (h₂ : ¬ p → (b ↔ d)) :
    (if p then a else b) ↔ (if p then c else d) := by
  split
  · next hp => exact h₁ hp
  · next hp => exact h₂ hp

/-! ## What the law compares -/

/-- The window and its closed and minimized flags. -/
def Window.flags (w : Window τ δ) : Nat × Bool × Bool := (w.serial, w.closed, w.minimized)

/-- The window order with the flags, and the active window. -/
def Wm.obs (s : Wm τ δ) : List (Nat × Bool × Bool) × Option Nat :=
  (s.windows.map Window.flags, s.activeWindow)

/-- `n` polls with the button down at one point. -/
def Wm.presses (s : Wm τ δ) (mx my : Int) (n : Nat) : Wm τ δ :=
  (fun t => wmHandleMouse t mx my true)^[n] s

/-- However long the button is held, the polls do what the first one does. -/
def PressIsOneAction (s : Wm τ δ) (mx my : Int) : Prop :=
  ∀ n, 1 ≤ n → (s.presses mx my n).obs = (wmHandleMouse s mx my true).obs

/-- The polls after the first change nothing visible: the same, said of the state after the first
poll. -/
theorem pressIsOneAction_iff : PressIsOneAction s mx my ↔
    ∀ n, ((wmHandleMouse s mx my true).presses mx my n).obs =
      (wmHandleMouse s mx my true).obs := by
  constructor
  · intro h n
    exact h (n + 1) (Nat.le_add_left 1 n)
  · intro h n hn
    obtain ⟨m, rfl⟩ := Nat.exists_eq_add_of_le' hn
    exact h m

/-! ## Repetitions that do nothing -/

/-- A drag in progress moves a window and changes nothing that is compared. -/
theorem presses_obs_of_drag {d : Nat} (hd : s.draggingWindowIdx = some d) (n : Nat) :
    (s.presses mx my n).obs = s.obs := by
  induction n generalizing s with
  | zero => rfl
  | succ n ih =>
      have hstep : wmHandleMouse s mx my true = s.dragTo d mx my := wmHandleMouse_drag hd
      have hobs : (s.dragTo d mx my).obs = s.obs := by
        unfold Wm.obs Wm.dragTo
        congr 1
        apply map_modify_of_eq
        exact fun _ => rfl
      calc (s.presses mx my (n + 1)).obs
          = ((s.dragTo d mx my).presses mx my n).obs := by
            rw [Wm.presses, Function.iterate_succ_apply, hstep]; rfl
        _ = (s.dragTo d mx my).obs := ih hd
        _ = s.obs := hobs

/-- If one poll changes nothing, neither does any number of them. -/
theorem presses_of_fixed (h : wmHandleMouse s mx my true = s) (n : Nat) :
    s.presses mx my n = s :=
  Function.iterate_fixed h n

/-! ## Quiet states -/

/-- A press at this point has no visible effect: it starts a drag of the active window, meets
a depth gadget with nothing to send back, or hits nothing. -/
def Wm.Quiet (t : Wm τ δ) (mx my : Int) : Prop :=
  match t.openActive with
  | some (b, u) =>
    if u.OnTitlebar mx my then
      ¬ u.OnCloseBox mx my ∧
        if u.OnDepthGadget mx my then b = 0 ∧ t.topOther = none else ¬ u.OnMinimizeBox mx my
    else t.topClickArea mx my = none
  | none => t.topClickArea mx my = none

/-- With an open active window, a press is quiet on the place of its title bar that starts a drag or
on a depth gadget with nothing to send back, and off the title bar where no other window is hit. -/
theorem quiet_of_openActive {b : Nat} {u : Window τ δ} (hb : t.openActive = some (b, u)) :
    t.Quiet mx my ↔
      if u.OnTitlebar mx my then
        ¬ u.OnCloseBox mx my ∧
          if u.OnDepthGadget mx my then b = 0 ∧ t.topOther = none else ¬ u.OnMinimizeBox mx my
      else t.topClickArea mx my = none := by
  simp only [Wm.Quiet, hb]

/-- Off the title bar of the active window, a press is quiet where no other window is hit. -/
theorem quiet_of_not_titlebar
    (ht : ∀ b u, t.openActive = some (b, u) → ¬ u.OnTitlebar mx my) :
    t.Quiet mx my ↔ t.topClickArea mx my = none := by
  cases hb : t.openActive with
  | none => simp only [Wm.Quiet, hb]
  | some p =>
      rw [quiet_of_openActive (b := p.1) (u := p.2) hb, if_neg (ht p.1 p.2 hb)]

/-- The visible effect of a write to the active slot shows in the flags of that slot. -/
theorem flags_of_obs (h : t.obs = s.obs) {a : Nat} {v w : Window τ δ}
    (hv : t.windows[a]? = some v) (hw : s.windows[a]? = some w) : v.flags = w.flags := by
  have := congrArg (fun o => o.1[a]?) h
  simpa [Wm.obs, hv, hw] using this

/-- When Alt+Tab has no visible effect on an open active window. -/
theorem cycleDepth_obs_iff (h : t.WF) {b : Nat} {u : Window τ δ}
    (hb : t.openActive = some (b, u)) :
    (wmCycleDepth t).obs = t.obs ↔ b = 0 ∧ t.topOther = none := by
  constructor
  · intro hobs
    have hact := (openActive_eq_some.1 hb).1
    refine topOther_of_cycle_fixed h hb ?_ ((congrArg Prod.snd hobs).trans hact)
    have hflags := congrArg (fun o => o.1.map Prod.fst) hobs
    simp only [Wm.obs, List.map_map] at hflags
    exact hflags
  · rintro ⟨rfl, hT⟩
    rw [wmCycleDepth_eq_self h hb hT]

/-- A press has no visible effect exactly on a quiet state. One case for each branch of
`wm_handle_mouse`. -/
theorem press_obs_iff (h : t.WF) (hd : t.draggingWindowIdx = none) :
    (wmHandleMouse t mx my true).obs = t.obs ↔ t.Quiet mx my := by
  have hp : Press t mx my (wmHandleMouse t mx my true) := wmHandleMouse_press hd
  generalize wmHandleMouse t mx my true = r at hp ⊢
  cases hp with
  | @close a w ha ht hc =>
      rw [quiet_of_openActive ha, if_pos ht]
      refine ⟨fun hobs => ?_, fun hq => absurd hc hq.1⟩
      obtain ⟨-, hw, ho⟩ := openActive_eq_some.1 ha
      have hslot := congrArg (fun o => o.1[a]?) hobs
      simp [Wm.obs, Wm.pressClose, map_activateTopmost (f := Window.flags) (fun _ _ => rfl),
        hw, Window.flags, ho] at hslot
  | depth ha ht hc hg =>
      rw [quiet_of_openActive ha, if_pos ht, if_pos hg, cycleDepth_obs_iff h ha]
      exact ⟨fun hq => ⟨hc, hq⟩, fun hq => hq.2⟩
  | @minimize a w ha ht hc hg hm =>
      rw [quiet_of_openActive ha, if_pos ht, if_neg hg]
      refine ⟨fun hobs => ?_, fun hq => absurd hm hq.2⟩
      have hw := (openActive_eq_some.1 ha).2.1
      have hslot := flags_of_obs hobs (v := { w with minimized := !w.minimized })
        (by simp [Wm.pressMinimize, hw]) hw
      simp [Window.flags] at hslot
  | drag ha ht hc hg hm =>
      rw [quiet_of_openActive ha, if_pos ht, if_neg hg]
      exact ⟨fun _ => ⟨hc, hm⟩, fun _ => rfl⟩
  | @other i ht hi =>
      rw [quiet_of_not_titlebar ht, hi]
      simp only [reduceCtorEq, iff_false]
      intro hobs
      have hact : some i = t.activeWindow :=
        (pressOther_active t i mx my).symm.trans (congrArg Prod.snd hobs)
      obtain ⟨w, -, -, hne, -⟩ := clickable_iff.1 (findDown_eq_some.1 hi).2.1
      exact hne hact.symm
  | miss ht hi =>
      rw [quiet_of_not_titlebar ht, hi]
      simp

/-- A quiet state stays as it is, or a drag starts, after which the polls at the same point move the
window to where it is. -/
theorem Wm.Quiet.press (hq : t.Quiet mx my) (h : t.WF) (hd : t.draggingWindowIdx = none) :
    wmHandleMouse t mx my true = t ∨
      ∃ d, (wmHandleMouse t mx my true).draggingWindowIdx = some d := by
  have hp : Press t mx my (wmHandleMouse t mx my true) := wmHandleMouse_press hd
  generalize wmHandleMouse t mx my true = r at hp ⊢
  cases hp with
  | close ha ht hc =>
      rw [quiet_of_openActive ha, if_pos ht] at hq
      exact absurd hc hq.1
  | depth ha ht hc hg =>
      rw [quiet_of_openActive ha, if_pos ht, if_pos hg] at hq
      obtain ⟨-, rfl, hT⟩ := hq
      exact .inl (wmCycleDepth_eq_self h ha hT)
  | minimize ha ht hc hg hm =>
      rw [quiet_of_openActive ha, if_pos ht, if_neg hg] at hq
      exact absurd hm hq.2
  | drag => exact .inr ⟨_, rfl⟩
  | other ht hi =>
      rw [quiet_of_not_titlebar ht, hi] at hq
      cases hq
  | miss => exact .inl rfl

/-- Repeated presses have no visible effect exactly on a quiet state: the first one must have none,
and then the state is still quiet. -/
theorem presses_obs_iff (h : t.WF) (hd : t.draggingWindowIdx = none) :
    (∀ n, (t.presses mx my n).obs = t.obs) ↔ t.Quiet mx my := by
  constructor
  · intro hall
    exact (press_obs_iff h hd).1 (hall 1)
  · intro hq n
    rcases hq.press h hd with he | ⟨d, hdrag⟩
    · rw [presses_of_fixed he]
    · cases n with
      | zero => rfl
      | succ n =>
          calc (t.presses mx my (n + 1)).obs
              = ((wmHandleMouse t mx my true).presses mx my n).obs := rfl
            _ = (wmHandleMouse t mx my true).obs := presses_obs_of_drag hdrag n
            _ = t.obs := (press_obs_iff h hd).2 hq

/-! ## The state the focus is handed over in -/

/-- After a window was closed or sent back, the topmost open window is the active one. -/
theorem openActive_activateTopmost {b : Nat} {u : Window τ δ}
    (hb : findDown (isOpen ws) ws.length = some b) (hu : ws[b]? = some u) :
    (activateTopmost s ws).openActive = some (b, { u with active := true }) := by
  obtain ⟨v, hv, ho⟩ := isOpen_iff.1 (findDown_eq_some.1 hb).2.1
  rw [hu] at hv
  cases hv
  refine openActive_eq_some.2 ⟨(activateTopmost_active s ws).trans hb, ?_, ho⟩
  rw [getElem?_activateTopmost, hu, hb]
  simp

/-- The scan found no open window: nothing is left to hit. -/
theorem quiet_handover_none (hb : findDown (isOpen ws) ws.length = none) :
    (activateTopmost s ws).Quiet mx my := by
  have hact : (activateTopmost s ws).activeWindow = none :=
    (activateTopmost_active s ws).trans hb
  rw [quiet_of_not_titlebar, topClickArea_eq_none]
  · intro j w hw ho
    rw [getElem?_activateTopmost, hb] at hw
    have hopen : isOpen ws j = true := isOpen_iff.2 ⟨w, by simpa using hw, ho⟩
    rw [findDown_eq_none.1 hb j (List.getElem?_eq_some_iff.1 (by simpa using hw)).1] at hopen
    cases hopen
  · intro b u hbu
    rw [(openActive_eq_some.1 hbu).1] at hact
    cases hact

/-- The focus goes to the window `u` in slot `b`: the next poll does nothing exactly where a press
on `u` is quiet. -/
theorem quiet_handover_some {b : Nat} {u : Window τ δ}
    (hb : findDown (isOpen ws) ws.length = some b) (hu : ws[b]? = some u) :
    (activateTopmost s ws).Quiet mx my ↔
      if u.OnTitlebar mx my then
        ¬ u.OnCloseBox mx my ∧ if u.OnDepthGadget mx my then b = 0 else ¬ u.OnMinimizeBox mx my
      else ∀ (j : Nat) (v : Window τ δ), ws[j]? = some v → v.closed = false → j ≠ b →
        ¬ v.OnClickArea mx my := by
  have hact : (activateTopmost s ws).activeWindow = some b :=
    (activateTopmost_active s ws).trans hb
  rw [quiet_of_openActive (openActive_activateTopmost hb hu)]
  refine ite_iff_ite (fun _ => and_congr Iff.rfl (ite_iff_ite (fun _ => ?_) fun _ => Iff.rfl))
    fun _ => ?_
  · refine ⟨And.left, fun hb0 => ⟨hb0, findDown_eq_none.2 fun j hj => ?_⟩⟩
    subst hb0
    rw [hact]
    rcases Nat.eq_zero_or_pos j with hj0 | hj0
    · simp [hj0]
    · have hclosed := (findDown_eq_some.1 hb).2.2 j hj0 (by simpa [Wm.windowCount] using hj)
      have : isOpen (activateTopmost s ws).windows j = isOpen ws j := by
        unfold activateTopmost
        rw [hb]
        exact isOpen_setActive ws 0 true j
      simp [this, hclosed]
  · rw [topClickArea_eq_none, hact]
    constructor
    · intro hall j v hv ho hj
      refine hall j v ?_ ho (fun he => hj (Option.some.inj he).symm)
      rw [getElem?_activateTopmost, hv, hb, Option.map_some, if_neg]
      exact fun he => hj (Option.some.inj he).symm
    · intro hall j v hv ho hj
      rw [getElem?_activateTopmost, hb] at hv
      obtain ⟨v', hv', rfl⟩ := Option.map_eq_some_iff.1 hv
      rw [if_neg hj] at ho ⊢
      exact hall j v' hv' ho fun he => hj (congrArg some he.symm)

/-! ## The condition -/

/-- What a second poll must meet when the first one takes the focus from slot `a`, by closing
the window or by sending it back: nothing if no other window is open; on the title bar of the
window `u` that gets the focus, a place that starts a drag, or its depth gadget if it is the
last open window and in slot `0`; elsewhere, no window behind `u` that would be clicked. -/
def HandoverCond (s : Wm τ δ) (mx my : Int) (a : Nat) (closes : Bool) : Prop :=
  match s.topOther with
  | none => True
  | some b => ∀ u, s.windows[b]? = some u →
    if u.OnTitlebar mx my then
      ¬ u.OnCloseBox mx my ∧
        if u.OnDepthGadget mx my then closes = true ∧ b = 0 else ¬ u.OnMinimizeBox mx my
    else ∀ (j : Nat) (v : Window τ δ), s.windows[j]? = some v → v.closed = false →
      (closes = true → j ≠ a) → j ≠ b → ¬ v.OnClickArea mx my

/-- What a second poll must meet when the first one focuses another window: a drag has
started, or no other window would be clicked in turn. -/
def FocusCond (s : Wm τ δ) (mx my : Int) : Prop :=
  ∀ i w, s.topClickArea mx my = some i → s.windows[i]? = some w →
    my ≤ w.y.toInt + 24 ∨ ∀ (j : Nat) (v : Window τ δ), s.windows[j]? = some v →
      v.closed = false → j ≠ i → ¬ v.OnClickArea mx my

/-- When a held press is one action. -/
def PressCond (s : Wm τ δ) (mx my : Int) : Prop :=
  match s.openActive with
  | some (a, w) =>
    if w.OnTitlebar mx my then
      if w.OnCloseBox mx my then HandoverCond s mx my a true
      else if w.OnDepthGadget mx my then HandoverCond s mx my a false
      else ¬ w.OnMinimizeBox mx my
    else FocusCond s mx my
  | none => FocusCond s mx my

/-- The state the close box leaves is quiet exactly under the condition on the state
before. -/
theorem quiet_pressClose {a : Nat} (ha : s.activeWindow = some a) :
    (s.pressClose a).Quiet mx my ↔ HandoverCond s mx my a true := by
  have hnext := close_active ha
  rw [Wm.pressClose, activateTopmost_active] at hnext
  unfold HandoverCond Wm.pressClose
  cases hT : s.topOther with
  | none =>
      rw [hT] at hnext
      exact iff_of_true (quiet_handover_none hnext) trivial
  | some b =>
      rw [hT] at hnext
      obtain ⟨hlt, -, hne, -⟩ := topOther_eq_some hT
      have hba : a ≠ b := fun he => hne (he ▸ ha)
      have hu : s.windows[b]? = some s.windows[b] := List.getElem?_eq_getElem hlt
      rw [quiet_handover_some hnext (u := s.windows[b]) (by simp [hba, hu])]
      simp only [hu, Option.some.injEq, forall_eq', true_and, forall_const]
      refine ite_iff_ite (fun _ => Iff.rfl) fun _ =>
        ⟨fun h j v hv ho hja => ?_, fun h j v hv ho hjb => ?_⟩
      · exact h j v (by simp [hv, hja.symm]) ho
      · rw [List.getElem?_modify] at hv
        obtain ⟨v', hv', rfl⟩ := Option.map_eq_some_iff.1 hv
        by_cases haj : a = j
        · simp [haj] at ho
        · simp only [haj, if_false] at ho ⊢
          exact h j v' hv' ho (Ne.symm haj) hjb

/-- The state the rotation leaves is quiet exactly under the condition on the state before. -/
theorem quiet_cycle {a : Nat} {w : Window τ δ} (ha : s.openActive = some (a, w))
    (ht : w.OnTitlebar mx my) (hc : ¬ w.OnCloseBox mx my) (hg : w.OnDepthGadget mx my) :
    (activateTopmost s (setActive (moveToFront s.windows a) a false)).Quiet mx my ↔
      HandoverCond s mx my a false := by
  obtain ⟨hact, hw, -⟩ := openActive_eq_some.1 ha
  have hlt : a < s.windows.length := (List.getElem?_eq_some_iff.1 hw).1
  have hslot : ∀ (j : Nat) (v : Window τ δ), s.windows[j]? = some v →
      (setActive (moveToFront s.windows a) a false)[frontSlot a j]? =
        some { v with active := if a = frontSlot a j then false else v.active } := by
    intro j v hv
    rw [getElem?_setActive, getElem?_frontSlot hlt, hv, Option.map_some]
    split <;> rfl
  have hnext := cycle_active ha
  rw [activateTopmost_active] at hnext
  unfold HandoverCond
  cases hT : s.topOther with
  | none =>
      -- the window sent to slot 0 gets the focus back, on its depth gadget
      rw [hT] at hnext
      have hfront := hslot a w hw
      rw [frontSlot_self] at hfront
      rw [quiet_handover_some hnext hfront]
      exact iff_of_true ((if_pos ht).mpr ⟨hc, (if_pos hg).mpr rfl⟩) trivial
  | some b =>
      rw [hT] at hnext
      obtain ⟨hb, -, hne, -⟩ := topOther_eq_some hT
      have hu : s.windows[b]? = some s.windows[b] := List.getElem?_eq_getElem hb
      rw [quiet_handover_some hnext (hslot b _ hu)]
      simp only [hu, Option.some.injEq, forall_eq', Bool.false_eq_true, false_and,
        false_implies, true_implies]
      refine ite_iff_ite (fun _ => and_congr Iff.rfl (ite_iff_ite (fun _ => ?_) fun _ => Iff.rfl))
        fun _ => ?_
      · -- no other slot goes to the front
        simp only [iff_false]
        intro h0
        rw [← frontSlot_self a, frontSlot_inj] at h0
        exact hne (h0 ▸ hact)
      · constructor
        · intro h j v hv ho hjb
          exact h _ { v with active := if a = frontSlot a j then false else v.active }
            (hslot j v hv) ho fun he => hjb (frontSlot_inj.1 he)
        · intro h j v hv ho hjb
          obtain ⟨i, rfl⟩ := exists_frontSlot a j
          rw [getElem?_setActive, getElem?_frontSlot hlt] at hv
          obtain ⟨v', hv', rfl⟩ := Option.map_eq_some_iff.1 hv
          have hib : i ≠ b := fun he => hjb (congrArg _ he)
          have hclick := h i v' hv' (by split at ho <;> exact ho) hib
          split <;> exact hclick

/-- The window but for its flag. -/
def Window.unflag (w : Window τ δ) : Window τ δ := { w with active := false }

/-- The click area does not depend on who has the focus. -/
theorem onClickArea_of_unflag {v w : Window τ δ} (h : v.unflag = w.unflag) :
    v.OnClickArea mx my ↔ w.OnClickArea mx my := by
  have := congrArg (fun u : Window τ δ => u.OnClickArea mx my) h
  exact iff_of_eq this

/-- Windows that differ in their flag only are both closed or both open. -/
theorem closed_of_unflag {v w : Window τ δ} (h : v.unflag = w.unflag) : v.closed = w.closed := by
  have := congrArg Window.closed h
  exact this

/-- The state the second loop leaves, with no drag started, is quiet exactly when no other
window would be clicked in turn. -/
theorem quiet_pressOther {i : Nat} {w : Window τ δ} (hw : s.windows[i]? = some w)
    (hmy : ¬ my ≤ w.y.toInt + 24) :
    (s.pressOther i mx my).Quiet mx my ↔ ∀ (j : Nat) (v : Window τ δ),
      s.windows[j]? = some v → v.closed = false → j ≠ i → ¬ v.OnClickArea mx my := by
  have hmap : (s.pressOther i mx my).windows.map Window.unflag = s.windows.map Window.unflag :=
    map_pressOther (fun _ _ => rfl) s i mx my
  rw [quiet_of_not_titlebar, topClickArea_eq_none, pressOther_active]
  · constructor
    · intro h j v hv ho hji hclick
      obtain ⟨v', hv', he⟩ := getElem?_of_map hmap hv
      exact h j v' hv' ((closed_of_unflag he).trans ho) (fun hij => hji (Option.some.inj hij).symm)
        ((onClickArea_of_unflag he).2 hclick)
    · intro h j v hv ho hji hclick
      obtain ⟨v', hv', he⟩ := getElem?_of_map hmap.symm hv
      exact h j v' hv' ((closed_of_unflag he).trans ho) (fun hij => hji (congrArg some hij.symm))
        ((onClickArea_of_unflag he).2 hclick)
  · -- the press was below the strip of the window it focused
    intro b u hb htitle
    obtain ⟨hact, hu, -⟩ := openActive_eq_some.1 hb
    rw [pressOther_active] at hact
    cases hact
    obtain ⟨v, hv, he⟩ := getElem?_of_map hmap.symm hu
    rw [hw] at hv
    cases hv
    have hy := congrArg (fun v : Window τ δ => v.y.toInt) he
    exact hmy (hy ▸ htitle.2.2.2)

/-! ## The law -/

/-- A press on the title bar of another window focuses it and starts to drag it. -/
theorem pressOther_starts_drag {i : Nat} {w : Window τ δ} (hw : s.windows[i]? = some w)
    (hmy : my ≤ w.y.toInt + 24) : (s.pressOther i mx my).draggingWindowIdx = some i := by
  simp [Wm.pressOther, hw, hmy]

/-- A press below the title bar focuses the window and starts no drag. -/
theorem pressOther_no_drag {i : Nat} {w : Window τ δ} (hw : s.windows[i]? = some w)
    (hmy : ¬ my ≤ w.y.toInt + 24) :
    (s.pressOther i mx my).draggingWindowIdx = s.draggingWindowIdx := by
  simp [Wm.pressOther, hw, hmy]

/-- Off the title bar of the active window, the press goes to the other windows. -/
theorem pressCond_of_not_titlebar
    (ht : ∀ a w, s.openActive = some (a, w) → ¬ w.OnTitlebar mx my) :
    PressCond s mx my ↔ FocusCond s mx my := by
  unfold PressCond
  cases ha : s.openActive with
  | none => rfl
  | some p =>
      simp only
      rw [if_neg (ht p.1 p.2 ha)]

/-- The depth gadget: the polls after the rotation do nothing visible exactly if the window that got
the focus has nothing under the pointer. -/
theorem presses_cycleDepth_iff (h : s.WF) (hd : s.draggingWindowIdx = none) {a : Nat}
    {w : Window τ δ} (ha : s.openActive = some (a, w)) (ht : w.OnTitlebar mx my)
    (hc : ¬ w.OnCloseBox mx my) (hg : w.OnDepthGadget mx my)
    (hst : wmHandleMouse s mx my true = wmCycleDepth s) (hwf : (wmCycleDepth s).WF) :
    (∀ n, ((wmCycleDepth s).presses mx my n).obs = (wmCycleDepth s).obs) ↔
      HandoverCond s mx my a false := by
  rcases wmCycleDepth_cases h.active_lt with ⟨he, hle⟩ | ⟨b, hb, -, -, he⟩
  · -- a table of one window: the gadget does nothing
    have hnone := ((cycleDepth_obs_iff h ha).1 (congrArg Wm.obs he)).2
    rw [he] at hst ⊢
    refine iff_of_true (fun n => congrArg Wm.obs (presses_of_fixed hst n)) ?_
    rw [HandoverCond, hnone]
    trivial
  · rw [(openActive_eq_some.1 ha).1] at hb
    cases hb
    rw [he] at hwf ⊢
    rw [presses_obs_iff hwf (by rw [activateTopmost_drag, hd])]
    exact quiet_cycle ha ht hc hg

/-- The minimize box: the window is minimized where the next poll finds its box. -/
theorem not_quiet_pressMinimize {a : Nat} {w : Window τ δ} (ha : s.openActive = some (a, w))
    (ht : w.OnTitlebar mx my) (hg : ¬ w.OnDepthGadget mx my) (hm : w.OnMinimizeBox mx my) :
    ¬ (s.pressMinimize a).Quiet mx my := by
  intro hq
  obtain ⟨hact, hw, ho⟩ := openActive_eq_some.1 ha
  have hopen : (s.pressMinimize a).openActive = some (a, { w with minimized := !w.minimized }) :=
    openActive_eq_some.2 ⟨hact, pressMinimize_slot hw, ho⟩
  rw [quiet_of_openActive hopen] at hq
  have hq := ((if_pos ht).mp hq).2
  exact (if_neg hg).mp hq hm

/-- Another window: it is focused, and dragged if the press is on its strip. -/
theorem presses_pressOther_iff (hd : s.draggingWindowIdx = none) {i : Nat}
    (hi : s.topClickArea mx my = some i) (hwf : (s.pressOther i mx my).WF) :
    (∀ n, ((s.pressOther i mx my).presses mx my n).obs = (s.pressOther i mx my).obs) ↔
      FocusCond s mx my := by
  obtain ⟨w, hw, -⟩ := clickable_iff.1 (findDown_eq_some.1 hi).2.1
  by_cases hmy : my ≤ w.y.toInt + 24
  · -- the press is on the strip of the window it focuses: a drag starts
    refine iff_of_true (presses_obs_of_drag (pressOther_starts_drag hw hmy)) ?_
    intro i' w' hi' hw'
    rw [hi] at hi'
    cases hi'
    rw [hw] at hw'
    cases hw'
    exact .inl hmy
  · rw [presses_obs_iff hwf ((pressOther_no_drag hw hmy).trans hd), quiet_pressOther hw hmy]
    constructor
    · intro hq i' w' hi' hw'
      rw [hi] at hi'
      cases hi'
      exact .inr hq
    · intro hf
      exact (hf i w hi hw).resolve_left hmy

/-- **A held press is one action exactly under `PressCond`.** `wm_handle_mouse` is called in every
round of the loop while the button is down and does not look for the edge, so the first poll must
leave a state in which the same press does nothing that is seen. -/
theorem wm_press_is_one_action_iff (s : Wm τ δ) (hr : s.Reached)
    (hd : s.draggingWindowIdx = none) (mx my : Int) :
    PressIsOneAction s mx my ↔ PressCond s mx my := by
  have h := hr.wf
  have hp : Press s mx my (wmHandleMouse s mx my true) := wmHandleMouse_press hd
  have hwf := hp.wf h
  rw [pressIsOneAction_iff]
  generalize hst : wmHandleMouse s mx my true = t at hp hwf ⊢
  cases hp with
  | @close a w ha ht hc =>
      have hcond : PressCond s mx my ↔ HandoverCond s mx my a true := by
        simp only [PressCond, ha, ht, hc, if_true]
      rw [hcond, presses_obs_iff hwf (by rw [Wm.pressClose, activateTopmost_drag, hd])]
      exact quiet_pressClose (openActive_eq_some.1 ha).1
  | @depth a w ha ht hc hg =>
      have hcond : PressCond s mx my ↔ HandoverCond s mx my a false := by
        simp only [PressCond, ha, ht, hc, hg, if_true, if_false]
      rw [hcond]
      exact presses_cycleDepth_iff h hd ha ht hc hg hst hwf
  | @minimize a w ha ht hc hg hm =>
      have hcond : ¬ PressCond s mx my := by
        simp only [PressCond, ha, ht, hc, hg, hm, if_true, if_false, not_true, not_false_eq_true]
      rw [presses_obs_iff hwf hd]
      exact iff_of_false (not_quiet_pressMinimize ha ht hg hm) hcond
  | @drag a w ha ht hc hg hm =>
      have hcond : PressCond s mx my := by
        simp only [PressCond, ha, ht, hc, hg, hm, if_true, if_false, not_false_eq_true]
      exact iff_of_true (presses_obs_of_drag rfl) hcond
  | @other i ht hi =>
      rw [pressCond_of_not_titlebar ht]
      exact presses_pressOther_iff hd hi hwf
  | miss ht hi =>
      rw [pressCond_of_not_titlebar ht]
      refine iff_of_true (fun n => congrArg Wm.obs (presses_of_fixed hst n)) ?_
      intro i w hi'
      rw [hi] at hi'
      cases hi'

/-- A press on the title bar of the active window: the drag that starts is the only action, as later
polls at the same point move nothing. -/
theorem wm_press_is_one_action_on_titlebar :
    PressIsOneAction (wmRun [.addWindow 0 0 100 100 () (none : Option Unit),
      .addWindow 50 50 100 100 () none]) 90 60 := by
  refine (wm_press_is_one_action_iff _ ⟨_, rfl⟩ rfl 90 60).2 ?_
  have hm : ¬ (⟨50, 50, 100, 100, (), 0xC0C0C0, true, false, false, none, 1⟩ :
      Window Unit Unit).OnMinimizeBox 90 60 := by decide
  exact hm

/-- The minimise box of a window: the second poll restores what the first one minimised. -/
theorem wm_press_twice_toggles :
    ¬ ∀ s : Wm Unit Unit, s.Reached → s.draggingWindowIdx = none →
      ∀ mx my n, 1 ≤ n → (s.presses mx my n).obs = (wmHandleMouse s mx my true).obs := by
  intro hall
  have := hall (wmRun [.addWindow 0 0 100 100 () none]) ⟨_, rfl⟩ rfl 70 10 2 (by decide)
  exact absurd this (by decide)

end

end OnkenOS
