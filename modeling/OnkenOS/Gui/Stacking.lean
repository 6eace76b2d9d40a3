import OnkenOS.Gui.Reorder

/-!
# Stacking after two changes of focus

`wm_focus_window` takes its window to slot `0`, which it calls the front. `wm_draw_all` paints the
slots from `0` upward and the active window last, and `wm_cycle_depth` calls slot `0` the very
bottom. So a window that gets the focus is on top only for as long as it has it: the next change of
focus leaves it below every other open window (`wm_focus_stacking`).
-/

namespace OnkenOS

open Slots

section
variable {τ δ : Type} {s t : Wm τ δ} {u v : Nat}

/-! ## What is painted, in order -/

/-- The window whose frame or content a call paints. -/
def Wm.callSerial (s : Wm τ δ) : DrawCall → Option Nat
  | .frame i | .content i => (s.windows[i]?).map Window.serial

/-- The windows `wm_draw_all` paints, one entry for each call. -/
def Wm.painted (s : Wm τ δ) : List Nat := (wmDrawAll s).filterMap s.callSerial

/-- `u` is painted, and nothing of `v` is painted after it. -/
def PaintedAbove (s : Wm τ δ) (u v : Nat) : Prop :=
  u ∈ s.painted ∧ ∀ l r, s.painted = l ++ u :: r → v ∉ r

/-- What the calls for a window paint. -/
def Window.paints (w : Window τ δ) : List Nat :=
  if w.closed then []
  else w.serial :: if !w.minimized && w.drawContent.isSome then [w.serial] else []

/-- An open window is painted, and no other. -/
theorem mem_paints {w : Window τ δ} : u ∈ w.paints ↔ w.closed = false ∧ w.serial = u := by
  unfold Window.paints
  cases w.closed
  · cases !w.minimized && w.drawContent.isSome <;> simp [eq_comm]
  · simp

/-- The calls for an open window paint its frame and its content, which are both of that window. -/
theorem filterMap_callSerial {w : Window τ δ} {i : Nat} (hw : s.windows[i]? = some w)
    (ho : w.closed = false) : (drawCalls w i).filterMap s.callSerial = w.paints := by
  unfold drawCalls Window.paints
  cases !w.minimized && w.drawContent.isSome <;> simp [Wm.callSerial, hw, ho]

/-- Going through the slots by their number is going through the list. -/
theorem flatMap_range_getElem? {α β : Type*} (g : α → List β) : ∀ l : List α,
    (List.range l.length).flatMap (fun i => ((l[i]?).map g).getD []) = l.flatMap g
  | [] => rfl
  | a :: l => by
    rw [List.length_cons, List.range_succ_eq_map, List.flatMap_cons, List.flatMap_map,
      List.flatMap_cons, ← flatMap_range_getElem? g l]
    rfl

/-- With the focus on slot `0`, the other windows are painted in slot order below it. -/
theorem painted_of_focus {w : Window τ δ} {ws : List (Window τ δ)} (hws : s.windows = w :: ws)
    (hact : s.activeWindow = some 0) (ho : w.closed = false) :
    s.painted = ws.flatMap Window.paints ++ w.paints := by
  have h0 : s.windows[0]? = some w := by rw [hws]; rfl
  have hother : ∀ i, (s.drawInactive (i + 1)).filterMap s.callSerial =
      ((ws[i]?).map Window.paints).getD [] := by
    intro i
    have hi : s.windows[i + 1]? = ws[i]? := by rw [hws]; rfl
    unfold Wm.drawInactive
    rw [hi]
    cases hv : ws[i]? with
    | none => rfl
    | some v =>
        cases hc : v.closed with
        | true => simp [hact, hc, Window.paints]
        | false =>
            rw [hv] at hi
            simpa [hact, hc] using filterMap_callSerial hi hc
  have hfirst : s.drawInactive 0 = [] := by simp [Wm.drawInactive, h0, hact]
  have hactive : s.openActive = some (0, w) := openActive_eq_some.2 ⟨hact, h0, ho⟩
  have hcount : s.windowCount = ws.length + 1 := by rw [Wm.windowCount, hws]; rfl
  unfold Wm.painted wmDrawAll
  rw [hactive, hcount, List.range_succ_eq_map, List.flatMap_cons, List.flatMap_map, hfirst,
    List.nil_append, List.filterMap_append, List.filterMap_flatMap, filterMap_callSerial h0 ho,
    ← flatMap_range_getElem? Window.paints ws]
  exact congrArg (fun f => (List.range ws.length).flatMap f ++ w.paints) (funext hother)

/-! ## Above and below -/

/-- The calls split into a part that paints nothing of `u` and one that paints nothing of `v`. -/
theorem paintedAbove_of_append {l₁ l₂ : List Nat} (h : s.painted = l₁ ++ l₂) (hu : u ∈ l₂)
    (hul : u ∉ l₁) (hv : v ∉ l₂) : PaintedAbove s u v := by
  refine ⟨h ▸ List.mem_append_right l₁ hu, fun l r hsplit hr => ?_⟩
  rw [h] at hsplit
  rcases List.append_eq_append_iff.1 hsplit with ⟨m, -, hm⟩ | ⟨m, hm, hm'⟩
  · exact hv (hm ▸ List.mem_append_right m (List.mem_cons_of_mem u hr))
  · cases m with
    | nil =>
        rw [List.nil_append] at hm'
        exact hv (hm' ▸ List.mem_cons_of_mem u hr)
    | cons x m =>
        obtain ⟨rfl, -⟩ := List.cons.inj hm'
        exact hul (hm ▸ List.mem_append_right l List.mem_cons_self)

/-- Of two windows at most one is painted above the other. -/
theorem PaintedAbove.asymm (h : PaintedAbove s u v) (hne : u ≠ v) : ¬ PaintedAbove s v u := by
  rintro ⟨hv, hall⟩
  obtain ⟨l, r, hsplit⟩ := List.append_of_mem hv
  have hul : u ∈ l := by
    have hu := h.1
    rw [hsplit, List.mem_append, List.mem_cons] at hu
    rcases hu with hu | rfl | hu
    · exact hu
    · exact absurd rfl hne
    · exact absurd hu (hall l r hsplit)
  obtain ⟨l₁, l₂, rfl⟩ := List.append_of_mem hul
  refine h.2 l₁ (l₂ ++ v :: r) ?_ (List.mem_append_right l₂ List.mem_cons_self)
  rw [hsplit, List.append_assoc, List.cons_append]

/-! ## Two changes of focus -/

/-- The slot a window is in. -/
def Wm.slotOf (s : Wm τ δ) (u : Nat) : Option Nat := s.windows.findIdx? fun w => w.serial == u

/-- The windows that are open. -/
def Wm.openSerials (s : Wm τ δ) : List Nat :=
  (s.windows.filter fun w => !w.closed).map Window.serial

/-- `wm_focus_window` on `u` and then on `v`, each at its current slot. -/
def focusBoth (s : Wm τ δ) (u v : Nat) : Wm τ δ :=
  let s₁ := wmFocusWindow s (s.slotOf u)
  wmFocusWindow s₁ (s₁.slotOf v)

/-- The last window that got the focus is painted above all others, the one before it above all
other open ones. -/
def MostRecentOnTop (t : Wm τ δ) (u v : Nat) : Prop :=
  (∀ x ∈ t.windows, x.serial ≠ v → PaintedAbove t v x.serial) ∧
    ∀ x ∈ t.openSerials, x ≠ u → x ≠ v → PaintedAbove t u x

/-- A window is open if its slot is not marked closed. -/
theorem mem_openSerials : u ∈ s.openSerials ↔ (u, false) ∈ s.windows.map Window.status := by
  unfold Wm.openSerials Window.status
  simp only [List.mem_map, List.mem_filter, Prod.mk.injEq, Bool.not_eq_true', and_assoc]
  exact exists_congr fun w => and_congr_right fun _ => and_comm

/-- A window is found in the slot that holds it. -/
theorem slotOf_serial (h : s.WF) {i : Nat} {w : Window τ δ} (hw : s.windows[i]? = some w) :
    s.slotOf w.serial = some i := by
  obtain ⟨hi, he⟩ := List.getElem?_eq_some_iff.1 hw
  refine List.findIdx?_eq_some_iff_getElem.2 ⟨hi, by simp [he], fun j hj => ?_⟩
  intro hs
  have hjl : j < s.windows.length := by omega
  have hji := h.serial_inj (List.getElem?_eq_getElem hjl) hw (by simpa using hs)
  omega

/-- No two slots hold the same window. -/
theorem statuses_nodup (h : s.WF) : (s.windows.map Window.status).Nodup := by
  refine List.Nodup.of_map Prod.fst ?_
  rw [List.map_map]
  exact h.serials_nodup

/-- An open window that gets the focus goes to the front, and the others keep their order. -/
theorem focus_front (h : s.WF) (hu : u ∈ s.openSerials) :
    (wmFocusWindow s (s.slotOf u)).activeWindow = some 0 ∧
      (wmFocusWindow s (s.slotOf u)).windows.map Window.status =
        (u, false) :: (s.windows.map Window.status).erase (u, false) := by
  obtain ⟨w, hw, he⟩ := List.mem_map.1 (mem_openSerials.1 hu)
  obtain ⟨rfl, ho⟩ := Prod.mk.inj he
  obtain ⟨i, hi⟩ := List.mem_iff_getElem?.1 hw
  have hopen : isOpen s.windows i = true := isOpen_iff.2 ⟨w, hi, ho⟩
  have hlt : i < (s.windows.map Window.status).length := by
    simpa using (List.getElem?_eq_some_iff.1 hi).1
  have hget : (s.windows.map Window.status)[i] = (w.serial, false) := by
    rw [List.getElem_map, (List.getElem?_eq_some_iff.1 hi).2]
    exact he
  rw [slotOf_serial h hi]
  constructor
  · simp [wmFocusWindow, hi, ho]
  · rw [wmFocusWindow_map (fun _ _ => rfl), movedSlot, hopen, if_pos rfl, rotated, Option.elim_some,
      moveToFront_eq_cons hlt, ← hget, (statuses_nodup h).erase_getElem]

/-- After two changes of focus: the second window is in slot `0`, the first in slot `1`. -/
theorem focusBoth_front (h : s.WF) (hu : u ∈ s.openSerials) (hv : v ∈ s.openSerials)
    (hne : u ≠ v) :
    (focusBoth s u v).WF ∧ (focusBoth s u v).activeWindow = some 0 ∧
      (focusBoth s u v).windows.map Window.status = (v, false) :: (u, false) ::
        ((s.windows.map Window.status).erase (u, false)).erase (v, false) := by
  obtain ⟨-, hfront⟩ := focus_front h hu
  have h₁ := wmFocusWindow_wf h (s.slotOf u)
  have hv₁ : v ∈ (wmFocusWindow s (s.slotOf u)).openSerials := by
    have hpair : ((v, false) : Nat × Bool) ≠ (u, false) := fun he => hne (Prod.mk.inj he).1.symm
    rw [mem_openSerials, hfront]
    exact List.mem_cons_of_mem _ ((List.mem_erase_of_ne hpair).2 (mem_openSerials.1 hv))
  obtain ⟨hact, hfront'⟩ := focus_front h₁ hv₁
  have hpair : ¬ (((u, false) : Nat × Bool) == (v, false)) = true := by simpa using hne
  refine ⟨wmFocusWindow_wf h₁ _, hact, ?_⟩
  rw [focusBoth, hfront', hfront, List.erase_cons_tail hpair]

/-- No window is open twice. -/
theorem openSerials_nodup (h : s.WF) : s.openSerials.Nodup :=
  h.serials_nodup.sublist (List.filter_sublist.map Window.serial)

/-- Of three different numbers one is neither of two given ones. -/
theorem exists_third {l : List Nat} (hl : l.Nodup) (hthree : 3 ≤ l.length) (u v : Nat) :
    ∃ x ∈ l, x ≠ u ∧ x ≠ v := by
  by_contra hnone
  have hsub : l ⊆ [u, v] := by
    intro x hx
    by_contra hx'
    simp only [List.mem_cons, List.not_mem_nil, or_false, not_or] at hx'
    exact hnone ⟨x, hx, hx'⟩
  have hle := (List.subperm_of_subset hl hsub).length_le
  simp only [List.length_cons, List.length_nil] at hle
  omega

/-- What is painted is a window of the table. -/
theorem serial_of_mem_flatMap {ws : List (Window τ δ)} (h : u ∈ ws.flatMap Window.paints) :
    u ∈ ws.map Window.serial := by
  obtain ⟨w, hw, hp⟩ := List.mem_flatMap.1 h
  exact (mem_paints.1 hp).2 ▸ List.mem_map_of_mem hw

/-- The window in slot `0` that has the focus is above every other. -/
theorem front_above {a : Window τ δ} {ws : List (Window τ δ)} (h : s.WF)
    (hws : s.windows = a :: ws) (hact : s.activeWindow = some 0) (ho : a.closed = false)
    (hu : u ≠ a.serial) : PaintedAbove s a.serial u := by
  have hnodup := h.serials_nodup
  rw [hws, List.map_cons, List.nodup_cons] at hnodup
  refine paintedAbove_of_append (painted_of_focus hws hact ho) (mem_paints.2 ⟨ho, rfl⟩) ?_ ?_
  · exact fun hmem => hnodup.1 (serial_of_mem_flatMap hmem)
  · exact fun hmem => hu (mem_paints.1 hmem).2.symm

/-- The window in slot `1` is then below every other open window. -/
theorem above_second {a b : Window τ δ} {ws : List (Window τ δ)} (h : s.WF)
    (hws : s.windows = a :: b :: ws) (hact : s.activeWindow = some 0) (ho : a.closed = false)
    (hu : u ∈ s.openSerials) (hub : u ≠ b.serial) : PaintedAbove s u b.serial := by
  have hpainted := painted_of_focus hws hact ho
  have hnodup := h.serials_nodup
  rw [hws, List.map_cons, List.map_cons, List.nodup_cons, List.nodup_cons] at hnodup
  obtain ⟨hafresh, hbfresh, -⟩ := hnodup
  rw [List.flatMap_cons, List.append_assoc] at hpainted
  refine paintedAbove_of_append hpainted ?_ (fun hmem => hub (mem_paints.1 hmem).2.symm) ?_
  · obtain ⟨w, hw, he⟩ := List.mem_map.1 (mem_openSerials.1 hu)
    obtain ⟨rfl, hwo⟩ := Prod.mk.inj he
    rw [hws] at hw
    rcases List.mem_cons.1 hw with rfl | hw
    · exact List.mem_append_right _ (mem_paints.2 ⟨hwo, rfl⟩)
    · rcases List.mem_cons.1 hw with rfl | hw
      · exact absurd rfl hub
      · exact List.mem_append_left _ (List.mem_flatMap.2 ⟨w, hw, mem_paints.2 ⟨hwo, rfl⟩⟩)
  · intro hmem
    rcases List.mem_append.1 hmem with hmem | hmem
    · exact hbfresh (serial_of_mem_flatMap hmem)
    · exact hafresh ((mem_paints.1 hmem).2 ▸ List.mem_cons_self)

/-- **Focus does not stack.** With three windows open, the last window that got the focus is painted
above all others, and the one before it below all others. -/
theorem wm_focus_stacking (hr : s.Reached) (hu : u ∈ s.openSerials) (hv : v ∈ s.openSerials)
    (hne : u ≠ v) (hthree : 3 ≤ s.openSerials.length) :
    ¬ MostRecentOnTop (focusBoth s u v) u v ∧
      (∀ x ∈ (focusBoth s u v).windows, x.serial ≠ v →
        PaintedAbove (focusBoth s u v) v x.serial) ∧
      ∀ x ∈ (focusBoth s u v).openSerials, x ≠ u → PaintedAbove (focusBoth s u v) x u := by
  obtain ⟨hwf, hact, hfront⟩ := focusBoth_front hr.wf hu hv hne
  obtain ⟨x, hx, hxu, hxv⟩ := exists_third (openSerials_nodup hr.wf) hthree u v
  have hx' : x ∈ (focusBoth s u v).openSerials := by
    have hxu' : ((x, false) : Nat × Bool) ≠ (u, false) := fun he => hxu (Prod.mk.inj he).1
    have hxv' : ((x, false) : Nat × Bool) ≠ (v, false) := fun he => hxv (Prod.mk.inj he).1
    rw [mem_openSerials, hfront]
    refine List.mem_cons_of_mem _ (List.mem_cons_of_mem _ ?_)
    exact (List.mem_erase_of_ne hxv').2 ((List.mem_erase_of_ne hxu').2 (mem_openSerials.1 hx))
  obtain ⟨a, l, hal, ha, hl⟩ := List.map_eq_cons_iff.1 hfront
  obtain ⟨b, ws, rfl, hb, -⟩ := List.map_eq_cons_iff.1 hl
  obtain ⟨rfl, hao⟩ := Prod.mk.inj ha
  obtain ⟨rfl, -⟩ := Prod.mk.inj hb
  refine ⟨fun hrecent => ?_, fun x _ => front_above hwf hal hact hao,
    fun x => above_second hwf hal hact hao⟩
  exact (above_second hwf hal hact hao hx' hxu).asymm hxu (hrecent.2 x hx' hxu hxv)

/-- Three windows; the focus goes to the first and then to the second. -/
theorem wm_focus_stacking_three :
    ¬ MostRecentOnTop (focusBoth (wmRun [.addWindow 0 0 100 100 () (none : Option Unit),
      .addWindow 0 0 100 100 () none, .addWindow 0 0 100 100 () none]) 0 1) 0 1 :=
  (wm_focus_stacking ⟨_, rfl⟩ (by decide) (by decide) (by decide) (by decide)).1

/-- The third window, which never got the focus again, covers the first. -/
theorem wm_focus_stacking_fails :
    ¬ ∀ (s : Wm Unit Unit) (u v : Nat), s.Reached → u ∈ s.openSerials → v ∈ s.openSerials →
      u ≠ v → 3 ≤ s.openSerials.length → MostRecentOnTop (focusBoth s u v) u v := by
  intro h
  have hrecent := h (wmRun [.addWindow 0 0 100 100 () none, .addWindow 0 0 100 100 () none,
    .addWindow 0 0 100 100 () none]) 0 1 ⟨_, rfl⟩ (by decide) (by decide) (by decide) (by decide)
  exact (hrecent.2 2 (by decide) (by decide) (by decide)).2 [] [2, 1] (by decide) (by decide)

end

end OnkenOS
