import Mathlib.Data.List.Induction
import OnkenOS.Lib.Run

/-!
# Editing at the end of a text with a capacity

An edit appends to a list or takes its last entry away. An editor with a buffer of `cap` entries
ignores an append that has no room, and starts with as much of the text as fits. What it loses is
lost until the text is empty again: `run_capped_eq_iff` says exactly when the two end with one text.
-/

namespace Capped

open Machine

variable {α : Type*}

/-- An edit at the end of a text. -/
inductive Edit (α : Type*) where
  | push (a : α)
  | pop

/-- The text after an edit. -/
def edit (l : List α) : Edit α → List α
  | .push a => l ++ [a]
  | .pop => l.dropLast

/-- The text after an edit, in a buffer of `cap` entries. -/
def capped (cap : Nat) (l : List α) : Edit α → List α
  | .push a => if l.length < cap then l ++ [a] else l
  | .pop => l.dropLast

/-- Appending puts the entry at the end. -/
@[simp] theorem edit_push (l : List α) (a : α) : edit l (.push a) = l ++ [a] := rfl

/-- Taking away takes the last entry, if there is one. -/
@[simp] theorem edit_pop (l : List α) : edit l .pop = l.dropLast := rfl

/-- The buffer appends only while it has room. -/
@[simp] theorem capped_push (cap : Nat) (l : List α) (a : α) :
    capped cap l (.push a) = if l.length < cap then l ++ [a] else l := rfl

/-- In the buffer too the last entry is taken away. -/
@[simp] theorem capped_pop (cap : Nat) (l : List α) : capped cap l .pop = l.dropLast := rfl

/-- The text has had room ever since the start, or ever since a moment when it was empty. -/
def RoomSinceEmpty (cap : Nat) (l : List α) (es : List (Edit α)) : Prop :=
  ∃ es₁ es₂, es = es₁ ++ es₂ ∧ (es₁ = [] ∧ l.length ≤ cap ∨ run edit l es₁ = []) ∧
    RunOk edit (fun t e => (edit t e).length ≤ cap) (run edit l es₁) es₂

section
variable {cap : Nat} {l t : List α} {e : Edit α} {es : List (Edit α)}

/-- What the buffer holds against the text: no more entries, and the text itself if as many. -/
structure Lags (cap : Nat) (l t : List α) : Prop where
  le_cap : t.length ≤ cap
  le_length : t.length ≤ l.length
  eq_of_length : t.length = l.length → t = l

/-- At the start the buffer holds as much of the text as fits, and the text itself if all of it
does. -/
theorem lags_take (cap : Nat) (l : List α) : Lags cap l (l.take cap) where
  le_cap := List.length_take_le cap l
  le_length := List.length_take_le' cap l
  eq_of_length h := by
    rw [List.length_take] at h
    exact List.take_of_length_le (by omega)

/-- An edit keeps it: an append that is ignored leaves the buffer shorter than the text, and the two
shrink together. -/
theorem Lags.step (h : Lags cap l t) (e : Edit α) : Lags cap (edit l e) (capped cap t e) := by
  obtain ⟨hcap, hle, heq⟩ := h
  cases e with
  | push a =>
      rw [edit_push, capped_push]
      split
      · next hroom =>
          refine ⟨by simpa using Nat.succ_le_of_lt hroom, by simpa using hle, fun hlen => ?_⟩
          rw [heq (by simpa using hlen)]
      · refine ⟨hcap, ?_, fun hlen => ?_⟩
        · rw [List.length_append]
          omega
        · rw [List.length_append, List.length_singleton] at hlen
          omega
  | pop =>
      rw [edit_pop, capped_pop]
      refine ⟨?_, ?_, fun hlen => ?_⟩
      · rw [List.length_dropLast]
        omega
      · rw [List.length_dropLast, List.length_dropLast]
        omega
      · rw [List.length_dropLast, List.length_dropLast] at hlen
        rcases Nat.lt_or_ge 1 l.length with hl | hl
        · rw [heq (by omega)]
        · -- both are empty now
          have hl' : l.dropLast = [] := List.eq_nil_of_length_eq_zero (by simp; omega)
          have ht' : t.dropLast = [] := List.eq_nil_of_length_eq_zero (by simp; omega)
          rw [hl', ht']

/-- After an edit the buffer holds the text exactly when it did before and there was room, or when
the text is empty now. -/
theorem Lags.step_eq_iff (h : Lags cap l t) :
    capped cap t e = edit l e ↔ t = l ∧ (edit l e).length ≤ cap ∨ edit l e = [] := by
  have hstep := h.step e
  obtain ⟨hcap, hle, heq⟩ := h
  constructor
  · intro he
    have hroom : (edit l e).length ≤ cap := he ▸ hstep.le_cap
    rcases Nat.lt_or_eq_of_le hle with hlt | hlen
    · refine .inr (List.eq_nil_of_length_eq_zero ?_)
      have hlen := congrArg List.length he
      cases e with
      | push a =>
          rw [edit_push, capped_push] at hlen
          split at hlen
          · simp only [List.length_append, List.length_singleton] at hlen
            omega
          · rw [List.length_append, List.length_singleton] at hlen
            omega
      | pop =>
          rw [edit_pop, capped_pop, List.length_dropLast, List.length_dropLast] at hlen
          rw [edit_pop, List.length_dropLast]
          omega
    · exact .inl ⟨heq hlen, hroom⟩
  · rintro (⟨rfl, hroom⟩ | hnil)
    · cases e with
      | push a =>
          rw [edit_push, List.length_append, List.length_singleton] at hroom
          rw [edit_push, capped_push, if_pos (by omega)]
      | pop => rfl
    · refine hstep.eq_of_length ?_
      have hlen := hstep.le_length
      rw [hnil, List.length_nil] at hlen ⊢
      omega

/-- So it holds after any edits, by induction. -/
theorem Lags.run (h : Lags cap l t) (es : List (Edit α)) :
    Lags cap (run edit l es) (run (capped cap) t es) :=
  run_simulation (fun _ _ e h => h.step e) es h

/-- The buffer never holds more than its capacity. -/
theorem length_run_capped_le (h : l.length ≤ cap) (es : List (Edit α)) :
    (Machine.run (capped cap) l es).length ≤ cap := by
  rw [← List.take_of_length_le h]
  exact ((lags_take cap l).run es).le_cap

/-- One edit more: the text had room before and has room now, or it is empty now. -/
theorem roomSinceEmpty_concat : RoomSinceEmpty cap l (es ++ [e]) ↔
    RoomSinceEmpty cap l es ∧ (run edit l (es ++ [e])).length ≤ cap ∨
      run edit l (es ++ [e]) = [] := by
  constructor
  · rintro ⟨es₁, es₂, hsplit, hstart, hok⟩
    rcases List.eq_nil_or_concat es₂ with rfl | ⟨es₂, e', rfl⟩
    · rw [List.append_nil] at hsplit
      subst hsplit
      rcases hstart with ⟨hnil, -⟩ | hnil
      · simp at hnil
      · exact .inr hnil
    · rw [List.concat_eq_append, ← List.append_assoc] at hsplit
      obtain ⟨rfl, rfl⟩ := List.append_singleton_inj.1 hsplit
      rw [List.concat_eq_append, RunOk_append, RunOk_cons] at hok
      refine .inl ⟨⟨es₁, es₂, rfl, hstart, hok.1⟩, ?_⟩
      rw [run_append, run_append]
      exact hok.2.1
  · rintro (⟨⟨es₁, es₂, rfl, hstart, hok⟩, hroom⟩ | hnil)
    · refine ⟨es₁, es₂ ++ [e], List.append_assoc _ _ _, hstart, ?_⟩
      rw [run_append, run_append] at hroom
      rw [RunOk_append, RunOk_cons]
      exact ⟨hok, hroom, trivial⟩
    · exact ⟨es ++ [e], [], (List.append_nil _).symm, .inr hnil, trivial⟩

/-- The buffer ends with the text exactly when the text has had room since it was last empty. -/
theorem run_capped_eq_iff (cap : Nat) (l : List α) (es : List (Edit α)) :
    run (capped cap) (l.take cap) es = run edit l es ↔ RoomSinceEmpty cap l es := by
  induction es using List.reverseRecOn with
  | nil =>
      rw [run_nil, run_nil]
      constructor
      · intro htake
        have hlen := List.length_take_le cap l
        rw [htake] at hlen
        exact ⟨[], [], rfl, .inl ⟨rfl, hlen⟩, trivial⟩
      · rintro ⟨es₁, es₂, hsplit, hstart, -⟩
        obtain ⟨rfl, -⟩ := List.append_eq_nil_iff.1 hsplit.symm
        rcases hstart with ⟨-, hlen⟩ | hnil
        · exact List.take_of_length_le hlen
        · rw [run_nil] at hnil
          rw [hnil]
          exact List.take_nil
  | append_singleton es e ih =>
      rw [roomSinceEmpty_concat, ← ih, run_append, run_append]
      exact ((lags_take cap l).run es).step_eq_iff

end

end Capped
