import OnkenOS.Gui.Handover

/-!
# Hit-testing against painting order

`wm_draw_all` paints the inactive windows in slot order and the active one last;
`wm_handle_mouse` looks for the window under a press by its own rules. The two differ in three
places: the active window is tested on its title bar strip only, the bounds of the click areas
are inclusive, and a minimized window is painted 26 rows high and clicked 24. `HitCond` is the
exact condition under which a press acts on the window painted last at that point.
-/

namespace OnkenOS

open Slots

section
variable {τ δ : Type} {s t : Wm τ δ} {ws : List (Window τ δ)} {mx my : Int}

/-! ## The window painted last -/

/-- The slot of a frame call whose frame holds the point. -/
def Wm.frameAt (s : Wm τ δ) (mx my : Int) : DrawCall → Option Nat
  | .frame i =>
    match s.windows[i]? with
    | some w => if w.FrameHas mx my then some i else none
    | none => none
  | .content _ => none

/-- The last window `wm_draw_all` paints among those whose frame holds the point. -/
def Wm.topPainted (s : Wm τ δ) (mx my : Int) : Option Nat :=
  ((wmDrawAll s).filterMap (s.frameAt mx my)).getLast?

/-- Slot `i` is painted at the point by the first loop of `wm_draw_all`. -/
def Wm.paintedInactive (s : Wm τ δ) (mx my : Int) (i : Nat) : Bool :=
  match s.windows[i]? with
  | none => false
  | some w => !w.closed && s.activeWindow != some i && decide (w.FrameHas mx my)

/-- The first loop paints a slot at a point if its window is open, inactive, and its frame has the
point. -/
theorem paintedInactive_iff {i : Nat} :
    s.paintedInactive mx my i = true ↔ ∃ w, s.windows[i]? = some w ∧ w.closed = false ∧
      s.activeWindow ≠ some i ∧ w.FrameHas mx my := by
  unfold Wm.paintedInactive
  cases s.windows[i]? with
  | none => simp
  | some w => simp [and_assoc]

/-- Of the calls for a window that has the point, the frame is the one that shows there. -/
theorem filterMap_drawCalls {w : Window τ δ} {i : Nat} (hw : s.windows[i]? = some w) :
    (drawCalls w i).filterMap (s.frameAt mx my) =
      if w.FrameHas mx my then [i] else [] := by
  unfold drawCalls
  by_cases hf : w.FrameHas mx my <;>
    by_cases hc : (!w.minimized && w.drawContent.isSome) = true <;>
      simp [Wm.frameAt, hw, hf, hc]

/-- The same of a slot of the first loop, which skips closed windows and the active one. -/
theorem filterMap_drawInactive (i : Nat) :
    (s.drawInactive i).filterMap (s.frameAt mx my) =
      if s.paintedInactive mx my i then [i] else [] := by
  unfold Wm.drawInactive Wm.paintedInactive
  cases hw : s.windows[i]? with
  | none => simp
  | some w =>
      by_cases hc : w.closed
      · simp [hc]
      · by_cases ha : s.activeWindow = some i
        · simp [ha]
        · simp [hc, ha, filterMap_drawCalls hw]

/-- The slots whose calls show at a point, in the order of the loop. -/
theorem filterMap_flatMap_range {g : Nat → List DrawCall} {f : DrawCall → Option Nat}
    {q : Nat → Bool} (h : ∀ i, (g i).filterMap f = if q i then [i] else []) (n : Nat) :
    ((List.range n).flatMap g).filterMap f = (List.range n).filter q := by
  induction n with
  | zero => rfl
  | succ n ih =>
      rw [List.range_succ, List.flatMap_append, List.filterMap_append, ih,
        List.filter_append, List.flatMap_singleton, h]
      by_cases hq : q n <;> simp [hq]

/-- The active window hides the others where its frame is; elsewhere the last of the
inactive ones is on top. -/
theorem topPainted_eq (s : Wm τ δ) (mx my : Int) :
    s.topPainted mx my =
      match s.openActive with
      | some (a, w) =>
        if w.FrameHas mx my then some a
        else findDown (s.paintedInactive mx my) s.windowCount
      | none => findDown (s.paintedInactive mx my) s.windowCount := by
  unfold Wm.topPainted wmDrawAll
  rw [List.filterMap_append, filterMap_flatMap_range filterMap_drawInactive]
  cases ho : s.openActive with
  | none => exact (congrArg _ (List.append_nil _)).trans (getLast?_filter_range _ _)
  | some p =>
      obtain ⟨a, w⟩ := p
      simp only [filterMap_drawCalls (openActive_eq_some.1 ho).2.1]
      by_cases hf : w.FrameHas mx my
      · simp [hf]
      · simp only [hf, if_false, List.append_nil]
        exact getLast?_filter_range _ _

/-! ## What the statement compares -/

/-- What a press may change of a window that is not hit: nothing. -/
def Window.view (w : Window τ δ) : Nat × BitVec 32 × BitVec 32 × Bool × Bool :=
  (w.serial, w.x, w.y, w.closed, w.minimized)

/-- Which window has the focus. -/
def Wm.activeSerial (s : Wm τ δ) : Option Nat :=
  match s.activeWindow with
  | none => none
  | some a => (s.windows[a]?).map Window.serial

/-- The step from `s` to `t` acts on the window `w` of slot `T` and on nothing else: the
other windows keep position, closed and minimized flags; the focus goes to `w`, or leaves it
through its own close box or depth gadget; the order changes only through its depth gadget;
and a drag that starts is a drag of `w`. -/
structure ActsOnlyOn (s t : Wm τ δ) (T : Nat) (w : Window τ δ) (mx my : Int) : Prop where
  others : ∀ v ∈ s.windows, v.serial ≠ w.serial → ∃ v' ∈ t.windows, v'.view = v.view
  focus : t.activeSerial = some w.serial ∨ s.activeWindow = some T ∧ w.OnTitlebar mx my ∧
    (w.OnCloseBox mx my ∨ w.OnDepthGadget mx my)
  order : t.windows.map Window.serial = s.windows.map Window.serial ∨
    s.activeWindow = some T ∧ w.OnTitlebar mx my ∧ w.OnDepthGadget mx my
  drag : ∀ d, t.draggingWindowIdx = some d → ∃ v, t.windows[d]? = some v ∧ v.serial = w.serial

/-- A press acts on the window painted last at that point, or on nothing if there is none. -/
def HitAgreesWithPaint (s : Wm τ δ) (mx my : Int) : Prop :=
  match s.topPainted mx my with
  | none => wmHandleMouse s mx my true = s
  | some T => ∀ w, s.windows[T]? = some w →
      ActsOnlyOn s (wmHandleMouse s mx my true) T w mx my

/-- When hit-testing agrees with painting. Inside the frame of the active window: on its title
bar strip, or over no other window's click area. Outside it but on its strip: only on a depth
gadget with nothing to send back. Elsewhere: when the last inactive window with the point in
its click area is the last one with the point in its frame. -/
def HitCond (s : Wm τ δ) (mx my : Int) : Prop :=
  match s.openActive with
  | some (a, w) =>
    if w.FrameHas mx my then w.OnTitlebar mx my ∨ s.topClickArea mx my = none
    else if w.OnTitlebar mx my then
      ¬ w.OnCloseBox mx my ∧ w.OnDepthGadget mx my ∧ a = 0 ∧ s.topOther = s.topPainted mx my
    else s.topClickArea mx my = s.topPainted mx my
  | none => s.topClickArea mx my = s.topPainted mx my

/-! ## What each branch acts on -/

/-- The focus is named by the serial number, which does not change when the slots are moved. -/
theorem activeSerial_eq {a : Nat} {w : Window τ δ} (ha : s.activeWindow = some a)
    (hw : s.windows[a]? = some w) : s.activeSerial = some w.serial := by
  simp [Wm.activeSerial, ha, hw]

/-- A window whose view is among the views of `t` is, up to its view, in `t`. -/
theorem exists_view {v : Window τ δ} (h : v.view ∈ t.windows.map Window.view) :
    ∃ v' ∈ t.windows, v'.view = v.view :=
  List.mem_map.1 h

/-- Steps that permute the views keep every window. -/
theorem others_of_perm (h : (t.windows.map Window.view).Perm (s.windows.map Window.view))
    (u : Nat) : ∀ v ∈ s.windows, v.serial ≠ u → ∃ v' ∈ t.windows, v'.view = v.view :=
  fun _ hv _ => exists_view (h.mem_iff.2 (List.mem_map_of_mem hv))

/-- Steps that write one slot, and flags, keep every other window: the case of the close box and the
minimise box. -/
theorem others_of_modify {a : Nat} {w : Window τ δ} {f : Window τ δ → Window τ δ}
    (hw : s.windows[a]? = some w)
    (h : t.windows.map Window.view = (s.windows.modify a f).map Window.view) :
    ∀ v ∈ s.windows, v.serial ≠ w.serial → ∃ v' ∈ t.windows, v'.view = v.view := by
  intro v hv hne
  obtain ⟨j, hj⟩ := List.mem_iff_getElem?.1 hv
  have hja : a ≠ j := by
    rintro rfl
    rw [hw] at hj
    cases hj
    exact hne rfl
  refine exists_view (h ▸ List.mem_map_of_mem (List.mem_of_getElem? (i := j) ?_))
  rw [List.getElem?_modify, hj]
  simp [hja]

/-- Setting `active` is not seen in what a press may change. -/
theorem map_view_setActive (ws : List (Window τ δ)) (i : Nat) (b : Bool) :
    (setActive ws i b).map Window.view = ws.map Window.view :=
  map_setActive (fun _ _ => rfl) ws i b

/-- Windows that look the same are the same window. -/
theorem serial_of_view {v w : Window τ δ} (h : v.view = w.view) : v.serial = w.serial :=
  congrArg Prod.fst h

/-- The close box acts on the active window only: it closes that one, and the focus leaves it. -/
theorem pressClose_acts {a : Nat} {w : Window τ δ} (hd : s.draggingWindowIdx = none)
    (ha : s.openActive = some (a, w)) (ht : w.OnTitlebar mx my) (hc : w.OnCloseBox mx my) :
    ActsOnlyOn s (s.pressClose a) a w mx my := by
  obtain ⟨hact, hw, -⟩ := openActive_eq_some.1 ha
  refine ⟨others_of_modify (f := fun v => { v with closed := true }) hw ?_,
    .inr ⟨hact, ht, .inl hc⟩, .inl ?_, ?_⟩
  · exact map_activateTopmost (fun _ _ => rfl) s _
  · rw [Wm.pressClose, map_activateTopmost (fun _ _ => rfl)]
    apply map_modify_of_eq
    exact fun _ => rfl
  · intro d hdd
    rw [Wm.pressClose, activateTopmost_drag, hd] at hdd
    cases hdd

/-- Cycling moves the slots and changes nothing of the windows. -/
theorem cycleDepth_view_perm (h : s.WF) :
    ((wmCycleDepth s).windows.map Window.view).Perm (s.windows.map Window.view) := by
  rcases wmCycleDepth_cases h.active_lt with ⟨he, -⟩ | ⟨a, -, -, -, he⟩
  · rw [he]
  · rw [he, map_activateTopmost (fun _ _ => rfl), map_view_setActive]
    exact (moveToFront_perm _ _).map _

/-- The depth gadget acts on the active window only: the order changes through its move to the back,
and the others look as before. -/
theorem cycleDepth_acts (h : s.WF) {a : Nat} {w : Window τ δ}
    (hd : s.draggingWindowIdx = none) (ha : s.openActive = some (a, w))
    (ht : w.OnTitlebar mx my) (hg : w.OnDepthGadget mx my) :
    ActsOnlyOn s (wmCycleDepth s) a w mx my := by
  have hact := (openActive_eq_some.1 ha).1
  refine ⟨others_of_perm (cycleDepth_view_perm h) _, .inr ⟨hact, ht, .inr hg⟩,
    .inr ⟨hact, ht, hg⟩, fun d hdd => ?_⟩
  rw [cycleDepth_drag h, hd] at hdd
  cases hdd

/-- The minimise box acts on the active window only: it turns its flag over in place. -/
theorem pressMinimize_acts {a : Nat} {w : Window τ δ} (hd : s.draggingWindowIdx = none)
    (ha : s.openActive = some (a, w)) : ActsOnlyOn s (s.pressMinimize a) a w mx my := by
  obtain ⟨hact, hw, -⟩ := openActive_eq_some.1 ha
  refine ⟨others_of_modify hw rfl, .inl ?_, .inl ?_, ?_⟩
  · simp [Wm.activeSerial, Wm.pressMinimize, hact, hw]
  · apply map_modify_of_eq
    exact fun _ => rfl
  · intro d hdd
    rw [Wm.pressMinimize, hd] at hdd
    cases hdd

/-- Starting a drag acts on the active window only: it writes the index and the distances. -/
theorem pressDrag_acts {a : Nat} {w : Window τ δ} (ha : s.openActive = some (a, w)) :
    ActsOnlyOn s (s.pressDrag a w mx my) a w mx my := by
  obtain ⟨hact, hw, -⟩ := openActive_eq_some.1 ha
  refine ⟨others_of_perm (.refl _) _, .inl (activeSerial_eq hact hw), .inl rfl, ?_⟩
  rintro d ⟨⟩
  exact ⟨w, hw, rfl⟩

/-- A press on another window starts a drag of it or leaves `dragging_window_idx`. -/
theorem pressOther_drag (s : Wm τ δ) (i : Nat) (mx my : Int) :
    (s.pressOther i mx my).draggingWindowIdx = s.draggingWindowIdx ∨
      (s.pressOther i mx my).draggingWindowIdx = some i := by
  unfold Wm.pressOther
  split
  · exact .inl rfl
  · split
    · exact .inr rfl
    · exact .inl rfl

/-- If every slot looks as before, it holds the window it held. -/
theorem map_serial_of_view (h : t.windows.map Window.view = s.windows.map Window.view) :
    t.windows.map Window.serial = s.windows.map Window.serial := by
  have := congrArg (List.map Prod.fst) h
  rw [List.map_map, List.map_map] at this
  exact this

/-- The second loop acts on the window it hits only. -/
theorem pressOther_acts {i : Nat} {w : Window τ δ} (hd : s.draggingWindowIdx = none)
    (hw : s.windows[i]? = some w) : ActsOnlyOn s (s.pressOther i mx my) i w mx my := by
  have hv := map_pressOther (f := Window.view) (fun _ _ => rfl) s i mx my
  obtain ⟨v, hvi, hvw⟩ := getElem?_of_map hv hw
  refine ⟨others_of_perm (.of_eq hv) _, .inl ?_, .inl (map_serial_of_view hv), fun d hdd => ?_⟩
  · rw [activeSerial_eq (pressOther_active s i mx my) hvi, serial_of_view hvw]
  · rcases pressOther_drag s i mx my with h | h
    · rw [h, hd] at hdd
      cases hdd
    · rw [h] at hdd
      cases hdd
      exact ⟨v, hvi, serial_of_view hvw⟩

/-! ## When a press misses the window on top -/

/-- A step that changes the view of one window changes the state, and breaks the clause on
the others for every other window. -/
theorem not_kept_of_changed (h : t.WF) {a : Nat} {v w : Window τ δ}
    (hw : s.windows[a]? = some w) (hv : t.windows[a]? = some v) (hs : v.serial = w.serial)
    (hne : v.view ≠ w.view) :
    t ≠ s ∧ ∀ u, w.serial ≠ u →
      ¬ ∀ v ∈ s.windows, v.serial ≠ u → ∃ v' ∈ t.windows, v'.view = v.view := by
  constructor
  · rintro rfl
    rw [hw] at hv
    cases hv
    exact hne rfl
  · intro u hu hall
    obtain ⟨v', hv', hview⟩ := hall w (List.mem_of_getElem? hw) hu
    obtain ⟨j, hj⟩ := List.mem_iff_getElem?.1 hv'
    have hja := h.serial_inj hj hv ((serial_of_view hview).trans hs.symm)
    subst hja
    rw [hv] at hj
    cases hj
    exact hne hview

/-- The close box closes the window in its slot, and changes nothing else that is seen of it. -/
theorem pressClose_slot {a : Nat} {w : Window τ δ} (hw : s.windows[a]? = some w) :
    ∃ v, (s.pressClose a).windows[a]? = some v ∧ v.view = { w with closed := true }.view := by
  have hm := map_activateTopmost (f := Window.view) (fun _ _ => rfl) s
    (s.windows.modify a fun v => { v with closed := true })
  have := congrArg (·[a]?) hm
  simp only [List.getElem?_map, List.getElem?_modify, hw, if_true] at this
  exact Option.map_eq_some_iff.1 this

/-- What is painted last at a point outside the frame of the active window is an inactive window. -/
theorem topPainted_inactive {T : Nat} (hT : s.topPainted mx my = some T)
    (hf : ∀ a w, s.openActive = some (a, w) → ¬ w.FrameHas mx my) :
    ∃ v, s.windows[T]? = some v ∧ s.activeWindow ≠ some T := by
  have hp : s.paintedInactive mx my T = true := by
    rw [topPainted_eq] at hT
    split at hT
    · next a w ha =>
        rw [if_neg (hf a w ha)] at hT
        exact (findDown_eq_some.1 hT).2.1
    · exact (findDown_eq_some.1 hT).2.1
  obtain ⟨v, hv, -, hne, -⟩ := paintedInactive_iff.1 hp
  exact ⟨v, hv, hne⟩

/-- The focus of `t` is on the window of slot `T`: a slot with the same serial number. -/
theorem slot_of_activeSerial (h : s.WF) (hs : t.windows.map Window.serial =
      s.windows.map Window.serial) {T i : Nat} {v : Window τ δ}
    (hv : s.windows[T]? = some v) (hi : t.activeWindow = some i)
    (hf : t.activeSerial = some v.serial) : i = T := by
  have hmap := congrArg (·[i]?) hs
  simp only [List.getElem?_map] at hmap
  rw [Wm.activeSerial, hi] at hf
  simp only at hf
  rw [hf] at hmap
  obtain ⟨u, hu, hus⟩ := Option.map_eq_some_iff.1 hmap.symm
  exact h.serial_inj hu hv hus

/-- Outside the frame and the strip of the active window the press goes to the last inactive window
with the point in its click area, and what is seen there is the last one with the point in its
frame. -/
theorem hit_others_iff (h : s.WF) (hd : s.draggingWindowIdx = none)
    (ht : ∀ a w, s.openActive = some (a, w) → ¬ w.OnTitlebar mx my)
    (hf : ∀ a w, s.openActive = some (a, w) → ¬ w.FrameHas mx my) :
    HitAgreesWithPaint s mx my ↔ s.topClickArea mx my = s.topPainted mx my := by
  have hp : Press s mx my (wmHandleMouse s mx my true) := wmHandleMouse_press hd
  unfold HitAgreesWithPaint
  generalize wmHandleMouse s mx my true = t at hp ⊢
  cases hp with
  | close ha htt | depth ha htt | minimize ha htt | drag ha htt => exact absurd htt (ht _ _ ha)
  | @other i _ hi =>
      rw [hi]
      obtain ⟨w, hw, -, hne, -⟩ := clickable_iff.1 (findDown_eq_some.1 hi).2.1
      have hact := pressOther_active s i mx my
      cases hT : s.topPainted mx my with
      | none =>
          simp only [reduceCtorEq, iff_false]
          intro he
          rw [he] at hact
          exact hne hact
      | some T =>
          obtain ⟨v, hv, hTne⟩ := topPainted_inactive hT hf
          constructor
          · intro hall
            rcases (hall v hv).focus with hfo | ⟨hb, -⟩
            · rw [slot_of_activeSerial h (map_pressOther (fun _ _ => rfl) s i mx my) hv
                hact hfo]
            · exact absurd hb hTne
          · rintro ⟨⟩ v' hv'
            exact pressOther_acts hd hv'
  | miss _ hi =>
      rw [hi]
      cases hT : s.topPainted mx my with
      | none => simp
      | some T =>
          obtain ⟨v, hv, hTne⟩ := topPainted_inactive hT hf
          simp only [reduceCtorEq, iff_false]
          intro hall
          rcases (hall v hv).focus with hfo | ⟨hb, -⟩
          · cases ha : s.activeWindow with
            | none => simp [Wm.activeSerial, ha] at hfo
            | some b =>
                have := slot_of_activeSerial h rfl hv ha hfo
                rw [ha, this] at hTne
                exact hTne rfl
          · exact hTne hb

/-- Inside the frame of the active window, which is painted last, the press must be on its title
bar, or must not meet another window behind its body. -/
theorem hit_frame_iff (h : s.WF) (hd : s.draggingWindowIdx = none) {a : Nat}
    {w : Window τ δ} (ha : s.openActive = some (a, w)) (hf : w.FrameHas mx my) :
    HitAgreesWithPaint s mx my ↔ w.OnTitlebar mx my ∨ s.topClickArea mx my = none := by
  obtain ⟨hact, hw, -⟩ := openActive_eq_some.1 ha
  have hT : s.topPainted mx my = some a := by
    rw [topPainted_eq, ha]
    simp [hf]
  have hp : Press s mx my (wmHandleMouse s mx my true) := wmHandleMouse_press hd
  unfold HitAgreesWithPaint
  simp only [hT, hw, Option.some.injEq, forall_eq']
  generalize wmHandleMouse s mx my true = t at hp ⊢
  cases hp with
  | close hb ht hc =>
      rw [ha] at hb
      cases hb
      exact ⟨fun _ => .inl ht, fun _ => pressClose_acts hd ha ht hc⟩
  | depth hb ht hc hg =>
      rw [ha] at hb
      cases hb
      exact ⟨fun _ => .inl ht, fun _ => cycleDepth_acts h hd ha ht hg⟩
  | minimize hb ht =>
      rw [ha] at hb
      cases hb
      exact ⟨fun _ => .inl ht, fun _ => pressMinimize_acts hd ha⟩
  | drag hb ht =>
      rw [ha] at hb
      cases hb
      exact ⟨fun _ => .inl ht, fun _ => pressDrag_acts ha⟩
  | @other i ht hi =>
      -- the press falls through to a window under the active one
      obtain ⟨-, -, -, hne, -⟩ := clickable_iff.1 (findDown_eq_some.1 hi).2.1
      rw [hi]
      simp only [ht a w ha, reduceCtorEq, or_self, iff_false]
      intro hacts
      rcases hacts.focus with hfo | ⟨-, hb, -⟩
      · have := slot_of_activeSerial h (map_pressOther (fun _ _ => rfl) s i mx my) hw
          (pressOther_active s i mx my) hfo
        rw [hact, this] at hne
        exact hne rfl
      · exact ht a w ha hb
  | miss ht hi =>
      rw [hi]
      refine ⟨fun _ => .inr rfl, fun _ => ⟨others_of_perm (.refl _) _,
        .inl (activeSerial_eq hact hw), .inl rfl, fun d hdd => ?_⟩⟩
      rw [hd] at hdd
      cases hdd

/-! ## The strip outside the frame -/

/-- The rotation leaves the stack alone if the active window is at the back, and the focus goes to
the window that had it before. -/
theorem cycle_back_acts (hd : s.draggingWindowIdx = none) {w : Window τ δ}
    (ha : s.openActive = some (0, w)) {T : Nat} {u : Window τ δ} (hO : s.topOther = some T)
    (hu : s.windows[T]? = some u) :
    ActsOnlyOn s (activateTopmost s (setActive (moveToFront s.windows 0) 0 false)) T u mx my := by
  have hview : (activateTopmost s (setActive (moveToFront s.windows 0) 0
      false)).windows.map Window.view = s.windows.map Window.view := by
    rw [map_activateTopmost (fun _ _ => rfl), map_view_setActive, moveToFront_zero]
  have hnext := cycle_active ha
  simp only [frontSlot_zero] at hnext
  rw [hO] at hnext
  obtain ⟨u', hu', huu⟩ := getElem?_of_map hview hu
  refine ⟨others_of_perm (.of_eq hview) _, .inl ?_, .inl (map_serial_of_view hview),
    fun d hdd => ?_⟩
  · rw [activeSerial_eq hnext hu', serial_of_view huu]
  · rw [activateTopmost_drag, hd] at hdd
    cases hdd

/-- A rotation that acts only on another window finds the active one at the back, and hands the
focus to that window. -/
theorem topOther_of_cycle_acts (h : s.WF) {a T : Nat} {w u : Window τ δ}
    (ha : s.openActive = some (a, w)) (hu : s.windows[T]? = some u)
    (hTne : s.activeWindow ≠ some T)
    (hacts : ActsOnlyOn s (activateTopmost s (setActive (moveToFront s.windows a) a false)) T u
      mx my) : a = 0 ∧ s.topOther = some T := by
  have hact := (openActive_eq_some.1 ha).1
  have hserials := map_serial_cycle (a := a) s
  have hord := hacts.order.resolve_right fun hr => hTne hr.1
  have ha0 : a = 0 :=
    eq_zero_of_cycle_order h (h.active_lt a hact) (hserials.symm.trans hord)
  subst ha0
  have hfo := hacts.focus.resolve_right fun hr => hTne hr.1
  have hnext := cycle_active ha
  simp only [frontSlot_zero] at hnext
  cases hO : s.topOther with
  | none =>
      rw [hO] at hnext
      have := slot_of_activeSerial h hord hu hnext hfo
      exact absurd (hact.trans (congrArg some this)) hTne
  | some i =>
      rw [hO] at hnext
      exact ⟨rfl, congrArg some (slot_of_activeSerial h hord hu hnext hfo)⟩

/-- On the depth gadget of the active window, outside its frame: the call must leave the
stack alone and hand the focus to the window on top, if there is one. -/
theorem hit_depth_iff (h : s.WF) (hd : s.draggingWindowIdx = none) {a : Nat}
    {w : Window τ δ} (ha : s.openActive = some (a, w))
    (hf : ∀ b v, s.openActive = some (b, v) → ¬ v.FrameHas mx my) :
    (match s.topPainted mx my with
      | none => wmCycleDepth s = s
      | some T => ∀ u, s.windows[T]? = some u → ActsOnlyOn s (wmCycleDepth s) T u mx my) ↔
      a = 0 ∧ s.topOther = s.topPainted mx my := by
  have hact := (openActive_eq_some.1 ha).1
  have hlt := h.active_lt a hact
  cases hT : s.topPainted mx my with
  | none => exact wmCycleDepth_eq_self_iff h ha
  | some T =>
      obtain ⟨u, hu, hTne⟩ := topPainted_inactive hT hf
      have hTlt : T < s.windows.length := (List.getElem?_eq_some_iff.1 hu).1
      rcases wmCycleDepth_cases h.active_lt with ⟨-, hle⟩ | ⟨b, hb, -, -, he⟩
      · -- a table of one window has none behind the active one
        have hle : s.windows.length ≤ 1 := by simpa [hact] using hle
        rw [hact, show T = a by omega] at hTne
        exact absurd rfl hTne
      · rw [hact] at hb
        cases hb
        rw [he]
        constructor
        · intro hall
          exact topOther_of_cycle_acts h ha hu hTne (hall u hu)
        · rintro ⟨rfl, hO⟩ v hv
          exact cycle_back_acts hd ha hO hv

/-- An inactive window is not the active one: no serial number is in two slots. -/
theorem serial_ne_of_inactive (h : s.WF) {a T : Nat} {w u : Window τ δ}
    (ha : s.openActive = some (a, w)) (hu : s.windows[T]? = some u)
    (hne : s.activeWindow ≠ some T) : w.serial ≠ u.serial := by
  obtain ⟨hact, hw, -⟩ := openActive_eq_some.1 ha
  exact fun he => hne (hact.trans (congrArg some (h.serial_inj hw hu he)))

/-- A press that changes the active window is wrong, whatever is on top. -/
theorem not_hit_of_changed (h : s.WF) (hwf : t.WF) {a : Nat} {w v : Window τ δ}
    (ha : s.openActive = some (a, w))
    (hf : ∀ b u, s.openActive = some (b, u) → ¬ u.FrameHas mx my)
    (hv : t.windows[a]? = some v) (hvs : v.serial = w.serial) (hne : v.view ≠ w.view) :
    ¬ match s.topPainted mx my with
      | none => t = s
      | some T => ∀ u, s.windows[T]? = some u → ActsOnlyOn s t T u mx my := by
  intro hall
  have hkept := not_kept_of_changed hwf (openActive_eq_some.1 ha).2.1 hv hvs hne
  cases hT : s.topPainted mx my with
  | none =>
      rw [hT] at hall
      exact hkept.1 hall
  | some T =>
      rw [hT] at hall
      obtain ⟨u, hu, hTne⟩ := topPainted_inactive hT hf
      exact hkept.2 u.serial (serial_ne_of_inactive h ha hu hTne) (hall u hu).others

/-- A drag of the active window is wrong where it does not have the pixel. -/
theorem not_hit_of_drag (h : s.WF) (hd : s.draggingWindowIdx = none) {a : Nat}
    {w : Window τ δ} (ha : s.openActive = some (a, w))
    (hf : ∀ b u, s.openActive = some (b, u) → ¬ u.FrameHas mx my) :
    ¬ match s.topPainted mx my with
      | none => s.pressDrag a w mx my = s
      | some T => ∀ u, s.windows[T]? = some u →
          ActsOnlyOn s (s.pressDrag a w mx my) T u mx my := by
  intro hall
  obtain ⟨hact, hw, -⟩ := openActive_eq_some.1 ha
  cases hT : s.topPainted mx my with
  | none =>
      rw [hT] at hall
      have hdrag := congrArg Wm.draggingWindowIdx hall
      rw [hd] at hdrag
      cases hdrag
  | some T =>
      rw [hT] at hall
      obtain ⟨u, hu, hTne⟩ := topPainted_inactive hT hf
      rcases (hall u hu).focus with hfo | ⟨hb, -⟩
      · rw [activeSerial_eq (s := s.pressDrag a w mx my) hact hw] at hfo
        injection hfo with hfo
        exact absurd hfo (serial_ne_of_inactive h ha hu hTne)
      · exact absurd hb hTne

/-- On the strip of the active window but outside its frame something else is seen, so the press
must do nothing: it is on the depth gadget, and no window is there to take the focus. -/
theorem hit_strip_iff (h : s.WF) (hd : s.draggingWindowIdx = none) {a : Nat}
    {w : Window τ δ} (ha : s.openActive = some (a, w)) (hf : ¬ w.FrameHas mx my)
    (ht : w.OnTitlebar mx my) :
    HitAgreesWithPaint s mx my ↔ ¬ w.OnCloseBox mx my ∧ w.OnDepthGadget mx my ∧ a = 0 ∧
      s.topOther = s.topPainted mx my := by
  obtain ⟨hact, hw, ho⟩ := openActive_eq_some.1 ha
  have hf' : ∀ b v, s.openActive = some (b, v) → ¬ v.FrameHas mx my := by
    intro b v hb
    rw [ha] at hb
    cases hb
    exact hf
  have hp : Press s mx my (wmHandleMouse s mx my true) := wmHandleMouse_press hd
  have hwf := hp.wf h
  unfold HitAgreesWithPaint
  generalize wmHandleMouse s mx my true = t at hp hwf ⊢
  cases hp with
  | close hb _ hc =>
      rw [ha] at hb
      cases hb
      obtain ⟨v, hv, hview⟩ := pressClose_slot hw
      have hvs : v.serial = w.serial := congrArg Prod.fst hview
      refine iff_of_false (not_hit_of_changed h hwf ha hf' hv hvs fun he => ?_)
        fun hcond => hcond.1 hc
      have := congrArg (fun p => p.2.2.2.1) (hview.symm.trans he)
      simp [Window.view, ho] at this
  | minimize hb _ hc hg =>
      rw [ha] at hb
      cases hb
      refine iff_of_false (not_hit_of_changed h hwf ha hf' (pressMinimize_slot hw) rfl
        fun he => ?_) fun hcond => hg hcond.2.1
      have := congrArg (fun p => p.2.2.2.2) he
      simp [Window.view] at this
  | drag hb _ hc hg =>
      rw [ha] at hb
      cases hb
      exact iff_of_false (not_hit_of_drag h hd ha hf') fun hcond => hg hcond.2.1
  | other htt | miss htt => exact absurd ht (htt a w ha)
  | depth hb _ hc hg =>
      rw [ha] at hb
      cases hb
      simp only [hc, hg, not_false_eq_true, true_and]
      exact hit_depth_iff h hd ha hf'

/-- **Hit-testing agrees with painting order exactly under `HitCond`.** A press is tested on the
title bar of the active window first, and then on the other windows from the last to the first,
while `wm_draw_all` paints the active window above all of them: the two agree where these orders
meet the same window first. -/
theorem wm_hit_test_agrees_iff (s : Wm τ δ) (hr : s.Reached)
    (hd : s.draggingWindowIdx = none) (mx my : Int) :
    HitAgreesWithPaint s mx my ↔ HitCond s mx my := by
  have h := hr.wf
  unfold HitCond
  split
  · next a w ha =>
      have huniq : ∀ {P : Window τ δ → Prop}, ¬ P w →
          ∀ b v, s.openActive = some (b, v) → ¬ P v := by
        intro P hP b v hb
        rw [ha] at hb
        cases hb
        exact hP
      by_cases hf : w.FrameHas mx my
      · rw [if_pos hf]
        exact hit_frame_iff h hd ha hf
      · rw [if_neg hf]
        by_cases ht : w.OnTitlebar mx my
        · rw [if_pos ht]
          exact hit_strip_iff h hd ha hf ht
        · rw [if_neg ht]
          exact hit_others_iff h hd (huniq ht) (huniq hf)
  · next ha =>
      refine hit_others_iff h hd (fun b v hb => ?_) (fun b v hb => ?_) <;>
        · rw [ha] at hb
          cases hb

/-- A press on the title bar of the active window, over another window: it is the first that is
tested and the last that is painted. -/
theorem wm_hit_test_agrees_on_titlebar :
    HitAgreesWithPaint (wmRun [.addWindow 0 0 100 100 () (none : Option Unit),
      .addWindow 50 50 100 100 () none]) 90 60 :=
  (wm_hit_test_agrees_iff _ ⟨_, rfl⟩ rfl 90 60).2 (.inl (by decide))

/-- Two overlapping windows and a press in the body of the active one: it goes through to the
window below. -/
theorem wm_hit_test_disagrees :
    ¬ ∀ s : Wm Unit Unit, s.Reached → s.draggingWindowIdx = none →
      ∀ mx my, HitAgreesWithPaint s mx my := by
  intro hall
  have hwf := wmRun_wf [.addWindow 0 0 100 100 () (none : Option Unit),
    .addWindow 50 50 100 100 () none]
  rcases (hit_frame_iff hwf rfl rfl (by decide)).1 (hall _ ⟨_, rfl⟩ rfl 70 90) with h | h
  · exact absurd h (by decide)
  · exact absurd h (by decide)

end

end OnkenOS
