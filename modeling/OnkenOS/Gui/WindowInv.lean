import Mathlib.Data.List.Nodup
import OnkenOS.Gui.Window

/-!
# Invariants of the window manager

`Press` lists what `wm_handle_mouse` does on a press with no drag in progress, one constructor
for each branch; every proof about a press is a case analysis on it. `Wm.WF` is what every
reachable state satisfies: the pointer and the drag index are slots of the array, the flag of
the window the pointer holds is set, and each window is in the array once.
-/

namespace OnkenOS

open Slots

section
variable {τ δ : Type} {s : Wm τ δ} {ws : List (Window τ δ)} {mx my : Int}

/-! ## Slots after a flag write -/

@[simp] theorem length_setActive (ws : List (Window τ δ)) (i : Nat) (b : Bool) :
    (setActive ws i b).length = ws.length := by
  simp [setActive]

@[simp] theorem length_clearActive (ws : List (Window τ δ)) (p : Option Nat) :
    (clearActive ws p).length = ws.length := by
  cases p <;> simp [clearActive]

/-- Setting `active` of one slot writes no other slot, and no other field of that one. -/
theorem getElem?_setActive (ws : List (Window τ δ)) (i : Nat) (b : Bool) (j : Nat) :
    (setActive ws i b)[j]? =
      (ws[j]?).map fun w => if i = j then { w with active := b } else w := by
  rw [setActive, List.getElem?_modify]; rfl

/-- A projection that does not read the flag does not see a flag write. -/
theorem map_setActive {β : Type*} {f : Window τ δ → β}
    (hf : ∀ w b, f { w with active := b } = f w) (ws : List (Window τ δ)) (i : Nat) (b : Bool) :
    (setActive ws i b).map f = ws.map f :=
  map_modify_of_eq (fun w => hf w b) ws i

/-- What does not read `active` is the same after `active` of the old active window was cleared. -/
theorem map_clearActive {β : Type*} {f : Window τ δ → β}
    (hf : ∀ w b, f { w with active := b } = f w) (ws : List (Window τ δ)) (p : Option Nat) :
    (clearActive ws p).map f = ws.map f := by
  cases p with
  | none => rfl
  | some a => exact map_setActive hf ws a false

/-- A slot is open if it holds a window that is not closed. -/
theorem isOpen_iff {i : Nat} : isOpen ws i = true ↔ ∃ w, ws[i]? = some w ∧ w.closed = false := by
  unfold isOpen
  cases ws[i]? with
  | none => simp
  | some w => simp

/-- A window of an array with the same projections, slot by slot. -/
theorem getElem?_of_map {β : Type*} {f : Window τ δ → β} {ws' : List (Window τ δ)}
    (h : ws'.map f = ws.map f) {i : Nat} {w : Window τ δ} (hw : ws[i]? = some w) :
    ∃ v, ws'[i]? = some v ∧ f v = f w := by
  have := congrArg (·[i]?) h
  simp only [List.getElem?_map, hw, Option.map_some] at this
  exact Option.map_eq_some_iff.1 this

/-- A flag write opens and closes nothing. -/
@[simp] theorem isOpen_setActive (ws : List (Window τ δ)) (i : Nat) (b : Bool) (j : Nat) :
    isOpen (setActive ws i b) j = isOpen ws j := by
  unfold isOpen
  rw [getElem?_setActive]
  cases ws[j]? with
  | none => rfl
  | some w => by_cases hij : i = j <;> simp [hij]

/-! ## The successor scan -/

/-- The successor scan changes no projection that does not read the flag. -/
theorem map_activateTopmost {β : Type*} {f : Window τ δ → β}
    (hf : ∀ w b, f { w with active := b } = f w) (s : Wm τ δ) (ws : List (Window τ δ)) :
    (activateTopmost s ws).windows.map f = ws.map f := by
  unfold activateTopmost
  split
  · rfl
  · exact map_setActive hf ws _ true

@[simp] theorem length_activateTopmost (s : Wm τ δ) (ws : List (Window τ δ)) :
    (activateTopmost s ws).windows.length = ws.length := by
  unfold activateTopmost; split <;> simp

/-- The topmost open window becomes the active one, and there is none if none is open. -/
@[simp] theorem activateTopmost_active (s : Wm τ δ) (ws : List (Window τ δ)) :
    (activateTopmost s ws).activeWindow = findDown (isOpen ws) ws.length := by
  unfold activateTopmost
  split <;> next h => exact h.symm

@[simp] theorem activateTopmost_drag (s : Wm τ δ) (ws : List (Window τ δ)) :
    (activateTopmost s ws).draggingWindowIdx = s.draggingWindowIdx := by
  unfold activateTopmost; split <;> rfl

/-- The topmost open window gets `active`; every slot holds the window it held. -/
theorem getElem?_activateTopmost (s : Wm τ δ) (ws : List (Window τ δ)) (j : Nat) :
    (activateTopmost s ws).windows[j]? =
      (ws[j]?).map fun w =>
        if findDown (isOpen ws) ws.length = some j then { w with active := true } else w := by
  unfold activateTopmost
  split
  · next h => rw [h]; simp
  · next i h =>
      rw [h, getElem?_setActive]
      simp only [Option.some.injEq]

/-! ## The active window -/

/-- The active window counts only while it is open: both a press and a key look at `closed` first.
-/
theorem openActive_eq_some {a : Nat} {w : Window τ δ} :
    s.openActive = some (a, w) ↔
      s.activeWindow = some a ∧ s.windows[a]? = some w ∧ w.closed = false := by
  unfold Wm.openActive
  constructor
  · intro h
    split at h
    · cases h
    · next b hb =>
        split at h
        · cases h
        · next v hv =>
            split at h
            · cases h
            · next hc =>
                cases h
                exact ⟨hb, hv, by simpa using hc⟩
  · rintro ⟨ha, hw, hc⟩
    simp [ha, hw, hc]

/-- What the loop over the other windows tests of a slot: open, not the active one, and the pointer
on its click area. -/
theorem clickable_iff {i : Nat} :
    s.clickable mx my i = true ↔ ∃ w, s.windows[i]? = some w ∧ w.closed = false ∧
      s.activeWindow ≠ some i ∧ w.OnClickArea mx my := by
  unfold Wm.clickable
  cases s.windows[i]? with
  | none => simp
  | some w => simp [and_assoc]

/-! ## What a press does -/

/-- The last open inactive window whose click area holds the point. -/
def Wm.topClickArea (s : Wm τ δ) (mx my : Int) : Option Nat :=
  findDown (s.clickable mx my) s.windowCount

/-- That loop finds nothing exactly if the click area of no open inactive window holds the point. -/
theorem topClickArea_eq_none : s.topClickArea mx my = none ↔ ∀ (i : Nat) (w : Window τ δ),
    s.windows[i]? = some w → w.closed = false → s.activeWindow ≠ some i →
      ¬ w.OnClickArea mx my := by
  unfold Wm.topClickArea
  rw [findDown_eq_none]
  constructor
  · intro h i w hw ho hne harea
    have hi := h i (List.getElem?_eq_some_iff.1 hw).1
    rw [clickable_iff.2 ⟨w, hw, ho, hne, harea⟩] at hi
    cases hi
  · intro h i _
    by_contra hc
    obtain ⟨w, hw, ho, hne, harea⟩ := clickable_iff.1 (by simpa using hc)
    exact h i w hw ho hne harea

/-- The outcomes of a press with no drag in progress, one for each branch. -/
inductive Press (s : Wm τ δ) (mx my : Int) : Wm τ δ → Prop where
  | close {a : Nat} {w : Window τ δ} (ha : s.openActive = some (a, w))
      (ht : w.OnTitlebar mx my) (hc : w.OnCloseBox mx my) : Press s mx my (s.pressClose a)
  | depth {a : Nat} {w : Window τ δ} (ha : s.openActive = some (a, w))
      (ht : w.OnTitlebar mx my) (hc : ¬ w.OnCloseBox mx my) (hd : w.OnDepthGadget mx my) :
      Press s mx my (wmCycleDepth s)
  | minimize {a : Nat} {w : Window τ δ} (ha : s.openActive = some (a, w))
      (ht : w.OnTitlebar mx my) (hc : ¬ w.OnCloseBox mx my) (hd : ¬ w.OnDepthGadget mx my)
      (hm : w.OnMinimizeBox mx my) : Press s mx my (s.pressMinimize a)
  | drag {a : Nat} {w : Window τ δ} (ha : s.openActive = some (a, w))
      (ht : w.OnTitlebar mx my) (hc : ¬ w.OnCloseBox mx my) (hd : ¬ w.OnDepthGadget mx my)
      (hm : ¬ w.OnMinimizeBox mx my) : Press s mx my (s.pressDrag a w mx my)
  | other {i : Nat} (ht : ∀ a w, s.openActive = some (a, w) → ¬ w.OnTitlebar mx my)
      (hi : s.topClickArea mx my = some i) :
      Press s mx my (s.pressOther i mx my)
  | miss (ht : ∀ a w, s.openActive = some (a, w) → ¬ w.OnTitlebar mx my)
      (hi : s.topClickArea mx my = none) : Press s mx my s

/-- A press that misses the title bar of the active window comes to the other windows, whose
outcomes are among those of a press. -/
theorem pressOthers_press
    (ht : ∀ a w, s.openActive = some (a, w) → ¬ w.OnTitlebar mx my) :
    Press s mx my (s.pressOthers mx my) := by
  unfold Wm.pressOthers
  split
  · next h => exact .miss ht h
  · next i h => exact .other ht h

/-- A press with no drag in progress takes one of the listed branches. -/
theorem wmHandleMouse_press (hd : s.draggingWindowIdx = none) :
    Press s mx my (wmHandleMouse s mx my true) := by
  simp only [wmHandleMouse, Bool.not_true, Bool.false_eq_true, if_false, hd]
  split
  · next a w ha =>
      split
      · next ht =>
          unfold Wm.pressTitlebar
          split
          · next hc => exact .close ha ht hc
          · next hc =>
              split
              · next hg => exact .depth ha ht hc hg
              · next hg =>
                  split
                  · next hm => exact .minimize ha ht hc hg hm
                  · next hm => exact .drag ha ht hc hg hm
      · next ht =>
          refine pressOthers_press fun a' w' ha' => ?_
          rw [ha] at ha'
          cases ha'
          exact ht
  · next ha =>
      refine pressOthers_press fun a' w' ha' => ?_
      rw [ha] at ha'
      cases ha'

/-- A poll while a drag is in progress. -/
theorem wmHandleMouse_drag {d : Nat} (hd : s.draggingWindowIdx = some d) :
    wmHandleMouse s mx my true = s.dragTo d mx my := by
  simp [wmHandleMouse, hd]

/-- The minimise box turns `minimized` of its window over, and writes nothing else of it. -/
theorem pressMinimize_slot {a : Nat} {w : Window τ δ} (hw : s.windows[a]? = some w) :
    (s.pressMinimize a).windows[a]? = some { w with minimized := !w.minimized } := by
  simp [Wm.pressMinimize, hw]

/-- The second loop changes no projection that does not read the flag. -/
theorem map_pressOther {β : Type*} {f : Window τ δ → β}
    (hf : ∀ w b, f { w with active := b } = f w) (s : Wm τ δ) (i : Nat) (mx my : Int) :
    (s.pressOther i mx my).windows.map f = s.windows.map f := by
  have : (setActive (clearActive s.windows s.activeWindow) i true).map f =
      s.windows.map f := by
    rw [map_setActive hf, map_clearActive hf]
  unfold Wm.pressOther
  split
  · exact this
  · split <;> exact this

/-- The window that a press found among the others is the active one afterwards. -/
theorem pressOther_active (s : Wm τ δ) (i : Nat) (mx my : Int) :
    (s.pressOther i mx my).activeWindow = some i := by
  unfold Wm.pressOther
  split
  · rfl
  · split <;> rfl

/-! ## What the other operations do -/

/-- `wm_focus_window` does nothing, or raises the open window in a slot: what every invariant of it
is proved from. -/
theorem wmFocusWindow_cases (s : Wm τ δ) (p : Option Nat) :
    wmFocusWindow s p = s ∨ ∃ idx w, p = some idx ∧ s.windows[idx]? = some w ∧
      w.closed = false ∧ wmFocusWindow s p = { s with
        windows := setActive (moveToFront (clearActive s.windows s.activeWindow) idx) 0 true
        activeWindow := some 0 } := by
  unfold wmFocusWindow
  split
  · exact .inl rfl
  · next idx =>
      split
      · exact .inl rfl
      · next w hw =>
          split
          · exact .inl rfl
          · next hc => exact .inr ⟨idx, w, rfl, hw, by simpa using hc, rfl⟩

/-- Counting up finds a number below the bound. -/
theorem find?_range_beq {n a : Nat} (h : a < n) : (List.range n).find? (· == a) = some a := by
  rw [List.find?_range_eq_some]
  exact ⟨by simp, by simpa using h, fun j hj => by simp; omega⟩

/-- `wm_cycle_depth` does nothing, or sends the active window to slot `0`: what every invariant of
it is proved from. -/
theorem wmCycleDepth_cases (hs : ∀ a, s.activeWindow = some a → a < s.windows.length) :
    (wmCycleDepth s = s ∧ (s.activeWindow = none ∨ s.windows.length ≤ 1)) ∨
      ∃ a, s.activeWindow = some a ∧ a < s.windows.length ∧ 1 < s.windows.length ∧
        wmCycleDepth s = activateTopmost s (setActive (moveToFront s.windows a) a false) := by
  unfold wmCycleDepth
  cases ha : s.activeWindow with
  | none => exact .inl ⟨rfl, .inl rfl⟩
  | some a =>
      have hlt := hs a ha
      by_cases hn : s.windowCount ≤ 1
      · simp only [hn, if_true, true_and]
        exact .inl (.inr hn)
      · simp only [hn, if_false, find?_range_beq (show a < s.windowCount from hlt)]
        exact .inr ⟨a, rfl, hlt, by simpa [Wm.windowCount] using hn, rfl⟩

/-- `wm_add_window` does nothing on a full table, or appends an active window. -/
theorem wmAddWindow_cases (s : Wm τ δ) (x y w h : BitVec 32) (title : τ)
    (drawFn : Option δ) :
    wmAddWindow s x y w h title drawFn = s ∨ s.windows.length < maxWindows ∧
      ∃ new : Window τ δ, new.serial = s.windows.length ∧ new.active = true ∧
        new.closed = false ∧ wmAddWindow s x y w h title drawFn = { s with
          windows := clearActive (s.windows ++ [new]) s.activeWindow
          activeWindow := some s.windows.length } := by
  unfold wmAddWindow
  split
  · exact .inl rfl
  · next hn => exact .inr ⟨by simpa [Wm.windowCount] using hn, _, rfl, rfl, rfl, rfl⟩

/-! ## The invariant of the reachable states -/

/-- What every reachable state satisfies. -/
structure Wm.WF (s : Wm τ δ) : Prop where
  active_lt : ∀ a, s.activeWindow = some a → a < s.windows.length
  active_flag : ∀ a w, s.activeWindow = some a → s.windows[a]? = some w → w.active = true
  drag_lt : ∀ d, s.draggingWindowIdx = some d → d < s.windows.length
  count_le : s.windows.length ≤ maxWindows
  serials : (s.windows.map Window.serial).Perm (List.range s.windows.length)

/-- A step that permutes the serial numbers has not changed the number of slots in use. -/
theorem length_eq_of_serials (hp : (ws.map Window.serial).Perm (s.windows.map Window.serial)) :
    ws.length = s.windows.length := by
  simpa using hp.length_eq

/-- Making slot `i` of a rearranged array the active one keeps the invariant: the windows are the
same, and `i` is in range. -/
theorem Wm.WF.raise (h : s.WF) {i : Nat} (hi : i < ws.length)
    (hp : (ws.map Window.serial).Perm (s.windows.map Window.serial)) :
    Wm.WF { s with windows := setActive ws i true, activeWindow := some i } := by
  have hlen := length_eq_of_serials hp
  refine ⟨?_, ?_, ?_, ?_, ?_⟩
  · rintro a ⟨⟩
    simpa using hi
  · rintro a w ⟨⟩ hw
    simp only [getElem?_setActive, if_true] at hw
    obtain ⟨v, -, rfl⟩ := Option.map_eq_some_iff.1 hw
    rfl
  · intro d hd
    simpa [hlen] using h.drag_lt d hd
  · simpa [hlen] using h.count_le
  · rw [map_setActive (fun _ _ => rfl), length_setActive, hlen]
    exact hp.trans h.serials

/-- The successor scan over a rearranged array keeps the invariant: what it finds is a slot, or
there is none. -/
theorem Wm.WF.activateTopmost (h : s.WF)
    (hp : (ws.map Window.serial).Perm (s.windows.map Window.serial)) :
    (OnkenOS.activateTopmost s ws).WF := by
  have hlen := length_eq_of_serials hp
  unfold OnkenOS.activateTopmost
  split
  · refine ⟨nofun, nofun, fun d hd => ?_, ?_, ?_⟩
    · simpa [hlen] using h.drag_lt d hd
    · simpa [hlen] using h.count_le
    · simp only [hlen]
      exact hp.trans h.serials
  · next i hi => exact h.raise (findDown_eq_some.1 hi).1 hp

/-- A write to one slot that keeps its serial number and its flag. -/
theorem Wm.WF.modify (h : s.WF) (i : Nat) {f : Window τ δ → Window τ δ}
    (hs : ∀ w, (f w).serial = w.serial) (ha : ∀ w, (f w).active = w.active) :
    Wm.WF { s with windows := s.windows.modify i f } := by
  refine ⟨fun a haa => ?_, fun a w haa hw => ?_, fun d hd => ?_, ?_, ?_⟩
  · simpa using h.active_lt a haa
  · rw [List.getElem?_modify] at hw
    obtain ⟨v, hv, rfl⟩ := Option.map_eq_some_iff.1 hw
    have := h.active_flag a v haa hv
    split
    · rw [ha, this]
    · exact this
  · simpa using h.drag_lt d hd
  · simpa using h.count_le
  · rw [map_modify_of_eq hs, List.length_modify]
    exact h.serials

/-- Starting a drag on a slot of the array keeps the invariant: the index is in range. -/
theorem Wm.WF.drag (h : s.WF) {d : Nat} (hd : d < s.windows.length) (ox oy : Int) :
    Wm.WF { s with draggingWindowIdx := some d, dragOffX := ox, dragOffY := oy } := by
  refine ⟨h.active_lt, h.active_flag, ?_, h.count_le, h.serials⟩
  rintro d' ⟨⟩
  exact hd

/-- `wm_init` leaves an empty table, of which all of it holds. -/
theorem wmInit_wf : (wmInit Wm.static : Wm τ δ).WF :=
  ⟨nofun, nofun, nofun, Nat.zero_le _, .refl _⟩

/-- `wm_focus_window` moves a window to slot `0` and makes it the active one: the same windows, and
the indices are in range. -/
theorem wmFocusWindow_wf (h : s.WF) (p : Option Nat) : (wmFocusWindow s p).WF := by
  rcases wmFocusWindow_cases s p with he | ⟨idx, w, -, hw, -, he⟩
  · rw [he]; exact h
  · rw [he]
    have hidx : idx < s.windows.length := (List.getElem?_eq_some_iff.1 hw).1
    refine h.raise (by simp; omega) ?_
    refine ((moveToFront_perm _ _).map _).trans ?_
    rw [map_clearActive (fun _ _ => rfl)]

/-- `wm_cycle_depth` moves the active window to slot `0` and activates the topmost one: the same
windows, and the indices are in range. -/
theorem wmCycleDepth_wf (h : s.WF) : (wmCycleDepth s).WF := by
  rcases wmCycleDepth_cases h.active_lt with ⟨he, -⟩ | ⟨a, -, -, -, he⟩
  · rw [he]; exact h
  · rw [he]
    refine h.activateTopmost ?_
    rw [map_setActive (fun _ _ => rfl)]
    exact (moveToFront_perm _ _).map _

/-- `wm_add_window` gives the new window the next serial number, or returns `NULL` when the table is
full. -/
theorem wmAddWindow_wf (h : s.WF) (x y w hh : BitVec 32) (title : τ) (drawFn : Option δ) :
    (wmAddWindow s x y w hh title drawFn).WF := by
  rcases wmAddWindow_cases s x y w hh title drawFn with he | ⟨hn, new, hser, hact, -, he⟩
  · rw [he]; exact h
  · rw [he]
    refine ⟨?_, ?_, fun d hd => ?_, ?_, ?_⟩
    · rintro a ⟨⟩
      simp
    · rintro a v ⟨⟩ hv
      -- the appended slot is not the one whose flag is cleared
      cases ha : s.activeWindow with
      | none => simp_all [clearActive]
      | some a =>
          have := h.active_lt a ha
          simp only [ha, clearActive, getElem?_setActive, List.getElem?_concat_length,
            Option.map_some, Option.some.injEq] at hv
          rw [if_neg (by omega)] at hv
          rw [← hv, hact]
    · have := h.drag_lt d hd
      simp; omega
    · simpa using Nat.succ_le_of_lt hn
    · rw [map_clearActive (fun _ _ => rfl)]
      simp only [List.map_append, List.map_cons, List.map_nil, hser, length_clearActive,
        List.length_append, List.length_singleton, List.range_succ]
      exact h.serials.append_right _

/-- A press on another window focuses it, and the index it may start to drag is in range. -/
theorem pressOther_wf (h : s.WF) {i : Nat} (hi : i < s.windows.length) :
    (s.pressOther i mx my).WF := by
  have hr : Wm.WF { s with
      windows := setActive (clearActive s.windows s.activeWindow) i true
      activeWindow := some i } :=
    h.raise (by simpa using hi) (by rw [map_clearActive (fun _ _ => rfl)])
  unfold Wm.pressOther
  split
  · exact hr
  · split
    · exact hr.drag (by simpa using hi) _ _
    · exact hr

/-- Every outcome of a press keeps the invariant: one case for each branch of `wm_handle_mouse`. -/
theorem Press.wf {t : Wm τ δ} (hp : Press s mx my t) (h : s.WF) : t.WF := by
  cases hp with
  | close ha =>
      refine h.activateTopmost (.of_eq ?_)
      apply map_modify_of_eq
      exact fun _ => rfl
  | depth => exact wmCycleDepth_wf h
  | minimize => exact h.modify _ (fun _ => rfl) (fun _ => rfl)
  | drag ha => exact h.drag (h.active_lt _ (openActive_eq_some.1 ha).1) _ _
  | other _ hi => exact pressOther_wf h (findDown_eq_some.1 hi).1
  | miss => exact h

/-- So does every call of `wm_handle_mouse`: a press, a drag that goes on, or a release. -/
theorem wmHandleMouse_wf (h : s.WF) (mx my : Int) (left : Bool) :
    (wmHandleMouse s mx my left).WF := by
  cases left with
  | false => exact ⟨h.active_lt, h.active_flag, nofun, h.count_le, h.serials⟩
  | true =>
      cases hd : s.draggingWindowIdx with
      | none => exact (wmHandleMouse_press hd).wf h
      | some d =>
          rw [wmHandleMouse_drag hd]
          exact h.modify _ (fun _ => rfl) (fun _ => rfl)

/-- Closing the active window only sets `closed`, which the invariant does not read. -/
theorem wmCloseActive_wf (h : s.WF) : (wmCloseActive s).WF := by
  unfold wmCloseActive
  split
  · exact h
  · exact h.modify _ (fun _ => rfl) (fun _ => rfl)

/-- Every event keeps the invariant. One case for each, from the lemmas on the operations. -/
theorem wmStep_wf (s : Wm τ δ) (e : WmEvent τ δ) (h : s.WF) : (wmStep s e).WF := by
  cases e with
  | addWindow x y w hh title drawFn => exact wmAddWindow_wf h x y w hh title drawFn
  | focusWindow i => exact wmFocusWindow_wf h (some i)
  | cycleDepth => exact wmCycleDepth_wf h
  | handleMouse mx my left => exact wmHandleMouse_wf h mx my left
  | closeActive => exact wmCloseActive_wf h
  | restore i => exact h.modify i (fun _ => rfl) (fun _ => rfl)

/-- Every reachable state satisfies the invariant. -/
theorem Wm.Reached.wf (h : s.Reached) : s.WF :=
  Machine.Reachable.invariant h wmInit_wf wmStep_wf

/-- Every state that a run from `wm_init` reaches satisfies the invariant. -/
theorem wmRun_wf (es : List (WmEvent τ δ)) : (wmRun es).WF :=
  Machine.run_invariant wmStep_wf es wmInit_wf

/-- No two slots hold the same window: the serial numbers are those from zero on, each of them once.
-/
theorem Wm.WF.serials_nodup (h : s.WF) : (s.windows.map Window.serial).Nodup :=
  h.serials.nodup_iff.2 List.nodup_range

/-- A window is in one slot: two slots with its number are the same. -/
theorem Wm.WF.serial_inj (h : s.WF) {i j : Nat} {v w : Window τ δ}
    (hv : s.windows[i]? = some v) (hw : s.windows[j]? = some w) (he : v.serial = w.serial) :
    i = j := by
  obtain ⟨hi, rfl⟩ := List.getElem?_eq_some_iff.1 hv
  obtain ⟨hj, rfl⟩ := List.getElem?_eq_some_iff.1 hw
  have hget : (s.windows.map Window.serial).get ⟨i, by simpa using hi⟩ =
      (s.windows.map Window.serial).get ⟨j, by simpa using hj⟩ := by simpa using he
  exact congrArg Fin.val (List.nodup_iff_injective_get.1 h.serials_nodup hget)

end

end OnkenOS
