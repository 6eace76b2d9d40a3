import OnkenOS.Lib.Run

/-!
# A mailbox of one slot

A sender stores into a slot; a receiver takes from it in two steps, a read and a clear, and a
store may fall between them. A store of nothing empties the slot. What the receiver takes is a
subsequence of what was sent (`taken_sublist_sent`): nothing comes twice or out of order. It is
all that was sent exactly when every store finds the slot empty, and no message is stored
between a read and its clear (`taken_eq_sent_iff`).
-/

namespace Mailbox

open Machine

variable {α : Type*}

/-- The mailbox: its slot, what the receiver has read and not cleared yet, and the messages sent
and taken so far. -/
structure Box (α : Type*) where
  slot : Option α
  held : Option (Option α)
  sent : List α
  taken : List α

/-- A store, or the next step of the receiver. -/
inductive Event (α : Type*) where
  | store (o : Option α)
  | receive

/-- One event. -/
def step (s : Box α) : Event α → Box α
  | .store o => { s with slot := o, sent := s.sent ++ o.toList }
  | .receive =>
      match s.held with
      | none => { s with held := some s.slot }
      | some o => { s with slot := none, held := none, taken := s.taken ++ o.toList }

/-- The empty mailbox. -/
def empty : Box α := ⟨none, none, [], []⟩

/-- The message that the next clear, or the next read, will take. -/
def pending (s : Box α) : Option α := s.held.getD s.slot

/-- What is taken, and will be. -/
def delivered (s : Box α) : List α := s.taken ++ (pending s).toList

/-- No message gets lost by the event: a store finds an empty slot, or stores nothing while the
receiver is between its read and its clear. -/
def Safe (s : Box α) : Event α → Prop
  | .store o => if s.held.isSome then o = none else s.slot = none
  | .receive => True

/-- What is delivered was sent, in this order. -/
def Ordered (s : Box α) : Prop := (delivered s).Sublist s.sent

section
variable {s : Box α}

/-- The receiver's steps deliver nothing new: what is read is only moved from the slot to what was
taken. -/
theorem delivered_receive (s : Box α) : delivered (step s .receive) = delivered s := by
  obtain ⟨slot, held, sent, taken⟩ := s
  cases held with
  | none => rfl
  | some o =>
      change (taken ++ o.toList) ++ [] = taken ++ o.toList
      exact List.append_nil _

/-- A step of the receiver sends nothing. -/
theorem sent_receive (s : Box α) : (step s .receive).sent = s.sent := by
  obtain ⟨slot, held, sent, taken⟩ := s
  cases held <;> rfl

/-- A store before the read replaces what was pending, so it delivers itself in its place. -/
theorem delivered_store_of_idle (hh : s.held = none) (o : Option α) :
    delivered (step s (.store o)) = s.taken ++ o.toList := by
  unfold delivered pending step
  rw [hh]
  rfl

/-- A store between the read and the clear will be cleared. -/
theorem delivered_store_of_held {k : Option α} (hh : s.held = some k) (o : Option α) :
    delivered (step s (.store o)) = delivered s := by
  unfold delivered pending step
  rw [hh]
  rfl

/-- Every event keeps the order: a store replaces what was pending, and is the last message sent. -/
theorem Ordered.step (h : Ordered s) (e : Event α) : Ordered (step s e) := by
  unfold Ordered at h ⊢
  cases e with
  | receive =>
      rw [delivered_receive, sent_receive]
      exact h
  | store o =>
      cases hh : s.held with
      | none =>
          rw [delivered_store_of_idle hh]
          exact ((List.sublist_append_left _ _).trans h).append (.refl _)
      | some k =>
          rw [delivered_store_of_held hh]
          exact h.trans (List.sublist_append_left _ _)

/-- A list that is longer by a message is not a subsequence. -/
theorem ne_of_append_sublist {l m : List α} {x : α} (h : (l ++ [x]).Sublist m) : l ≠ m := by
  rintro rfl
  have := h.length_le
  rw [List.length_append, List.length_singleton] at this
  omega

/-- An event loses nothing exactly when it is safe, and what is lost stays lost. -/
theorem lossless_step_iff (h : Ordered s) (e : Event α) :
    delivered (step s e) = (step s e).sent ↔ delivered s = s.sent ∧ Safe s e := by
  cases e with
  | receive =>
      rw [delivered_receive, sent_receive]
      exact (and_iff_left trivial).symm
  | store o =>
      have hsent : (Mailbox.step s (.store o)).sent = s.sent ++ o.toList := rfl
      rw [hsent]
      unfold Safe
      cases hh : s.held with
      | none =>
          rw [delivered_store_of_idle hh, List.append_left_inj]
          change s.taken = s.sent ↔ _ ∧ s.slot = none
          unfold Ordered delivered pending at h
          unfold delivered pending
          rw [hh] at h ⊢
          cases hs : s.slot with
          | none => simp
          | some x =>
              rw [hs] at h
              exact iff_of_false (ne_of_append_sublist h) fun hx => nomatch hx.2
      | some k =>
          rw [delivered_store_of_held hh]
          change _ ↔ _ ∧ o = none
          cases o with
          | none => simp
          | some x =>
              refine iff_of_false (fun he => ?_) fun hx => nomatch hx.2
              have hle := h.length_le
              rw [he, Option.toList_some, List.length_append, List.length_singleton] at hle
              omega

/-- What the receiver takes is a subsequence of what was sent. -/
theorem taken_sublist_sent (es : List (Event α)) :
    (run step empty es).taken.Sublist (run step empty es).sent := by
  have h : Ordered (run step (empty : Box α) es) :=
    run_invariant (fun s e h => h.step e) es (List.nil_sublist _)
  exact (List.sublist_append_left _ _).trans h

/-- Once nothing is pending, all that was sent is taken exactly when every event was safe. -/
theorem taken_eq_sent_iff (es : List (Event α)) (hend : pending (run step empty es) = none) :
    (run step empty es).taken = (run step empty es).sent ↔ RunOk step Safe empty es := by
  have hiff : delivered (run step empty es) = (run step empty es).sent ↔
      delivered (empty : Box α) = [] ∧ RunOk step Safe empty es :=
    run_iff_runOk (P := fun s => delivered s = s.sent) Ordered (fun s e h => h.step e)
      (fun s e h => lossless_step_iff h e) es (List.nil_sublist _)
  rw [and_iff_right (show delivered (empty : Box α) = [] from rfl)] at hiff
  rw [← hiff]
  unfold delivered
  rw [hend, Option.toList_none, List.append_nil]

end

end Mailbox
