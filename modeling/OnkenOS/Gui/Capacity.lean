import OnkenOS.Gui.Stacking

/-!
# The places of closed windows

`window_count` counts the windows ever added: closing one only sets a flag, and no operation
takes it out of the array. So `wm_add_window` runs out of places when `MAX_WINDOWS` windows have
been opened, however many of them are closed again (`closed_windows_free_iff`).
-/

namespace OnkenOS

open Slots Machine

section
variable {τ δ : Type} {s t : Wm τ δ} {x y w h : BitVec 32} {title : τ} {drawFn : Option δ}

/-- `t` has a new window with these arguments: it is open and active, and the open windows are
those of `s` and it. -/
def AddsWindow (s t : Wm τ δ) (x y w h : BitVec 32) (title : τ) (drawFn : Option δ) : Prop :=
  ∃ b new, t.openActive = some (b, new) ∧
    (new.x, new.y, new.given) = (x, y, w, h, title, drawFn) ∧
    new.serial ∉ s.windows.map Window.serial ∧ t.openSerials = s.openSerials ++ [new.serial]

/-- A call of `wm_add_window` with fewer than `MAX_WINDOWS` windows open adds its window. -/
def AddLaw (s : Wm τ δ) : WmEvent τ δ → Prop
  | .addWindow x y w h title drawFn =>
      s.openSerials.length < maxWindows →
        AddsWindow s (wmAddWindow s x y w h title drawFn) x y w h title drawFn
  | _ => True

/-- A call of `wm_add_window` with fewer than `MAX_WINDOWS` windows open finds fewer than
`MAX_WINDOWS` windows in the array, the closed ones included. -/
def PlaceLeft (s : Wm τ δ) : WmEvent τ δ → Prop
  | .addWindow .. => s.openSerials.length < maxWindows → s.windowCount < maxWindows
  | _ => True

/-- Which windows are open can be read off their serial numbers and `closed` flags. -/
theorem openSerials_of_status (s : Wm τ δ) :
    s.openSerials = ((s.windows.map Window.status).filter fun p => !p.2).map Prod.fst := by
  unfold Wm.openSerials
  rw [List.filter_map, List.map_map]
  rfl

/-- A full array is left alone. -/
theorem wmAddWindow_full (hfull : maxWindows ≤ s.windowCount) (x y w h : BitVec 32) (title : τ)
    (drawFn : Option δ) : wmAddWindow s x y w h title drawFn = s := if_pos hfull

/-- A full array gets no window. -/
theorem not_addsWindow_self : ¬ AddsWindow s s x y w h title drawFn := by
  rintro ⟨b, new, -, -, -, hopen⟩
  simpa using congrArg List.length hopen

/-- The window just appended, after the old active window lost its flag. -/
theorem getElem?_added (hwf : s.WF) (new : Window τ δ) :
    (clearActive (s.windows ++ [new]) s.activeWindow)[s.windows.length]? = some new := by
  cases ha : s.activeWindow with
  | none => simp [clearActive]
  | some a =>
      have hlt := hwf.active_lt a ha
      rw [clearActive, getElem?_setActive, List.getElem?_concat_length, Option.map_some,
        if_neg (Nat.ne_of_lt hlt)]

/-- An array that is not full gets the window: its serial number is new, and its slot is the next
one. -/
theorem addsWindow_of_room (hwf : s.WF) (hroom : s.windowCount < maxWindows) :
    AddsWindow s (wmAddWindow s x y w h title drawFn) x y w h title drawFn := by
  have hadd : ∃ new : Window τ δ, (new.x, new.y, new.given) = (x, y, w, h, title, drawFn) ∧
      new.serial = s.windows.length ∧ new.closed = false ∧
      wmAddWindow s x y w h title drawFn = { s with
        windows := clearActive (s.windows ++ [new]) s.activeWindow
        activeWindow := some s.windows.length } := by
    unfold wmAddWindow
    rw [if_neg (Nat.not_le.2 hroom)]
    exact ⟨_, rfl, rfl, rfl, rfl⟩
  obtain ⟨new, hgiven, hserial, hopen, he⟩ := hadd
  refine ⟨s.windows.length, new, ?_, hgiven, ?_, ?_⟩
  · rw [he]
    exact openActive_eq_some.2 ⟨rfl, getElem?_added hwf new, hopen⟩
  · rw [hserial, hwf.serials.mem_iff, List.mem_range]
    exact Nat.lt_irrefl _
  · rw [he, openSerials_of_status, openSerials_of_status]
    dsimp only
    rw [map_clearActive (fun _ _ => rfl)]
    simp [Window.status, hopen]

/-- The law of one call: with fewer windows open than the array has places, it adds its window
exactly if the array is not full. -/
theorem addLaw_iff (hwf : s.WF) (e : WmEvent τ δ) : AddLaw s e ↔ PlaceLeft s e := by
  cases e with
  | addWindow x y w h title drawFn =>
      refine forall_congr' fun _ => ⟨fun hadds => ?_, fun hroom => addsWindow_of_room hwf hroom⟩
      by_contra hfull
      rw [wmAddWindow_full (Nat.not_lt.1 hfull)] at hadds
      exact not_addsWindow_self hadds
  | focusWindow | cycleDepth | handleMouse | closeActive | restore => exact Iff.rfl

end

/-- In every run of the window manager, each `wm_add_window` with fewer than `MAX_WINDOWS` windows
open adds its window exactly when each finds a place in the array: `window_count` counts the closed
windows too, and never goes down. -/
theorem closed_windows_free_iff {τ δ : Type} (es : List (WmEvent τ δ)) :
    RunOk wmStep AddLaw (wmInit Wm.static) es ↔ RunOk wmStep PlaceLeft (wmInit Wm.static) es :=
  RunOk_congr Wm.WF wmStep_wf (fun _ e hwf => addLaw_iff hwf e) es wmInit_wf

/-- Sixteen windows are opened, the last one is closed, and another one is opened: it is not
added. -/
theorem closed_window_keeps_place :
    ¬ ∀ es : List (WmEvent Unit Unit), RunOk wmStep AddLaw (wmInit Wm.static) es := by
  intro hall
  have hrun := hall (List.replicate 16 (.addWindow 0 0 1 1 () none) ++
    [.closeActive, .addWindow 0 0 1 1 () none])
  rw [RunOk_append] at hrun
  obtain ⟨-, -, hlaw, -⟩ := hrun
  obtain ⟨b, new, -, -, -, hopen⟩ := hlaw (by decide +kernel)
  have hlength := congrArg List.length hopen
  rw [List.length_append, List.length_singleton] at hlength
  revert hlength
  decide +kernel

end OnkenOS
