import Mathlib.Data.List.Induction

/-!
# Layers of paint

A layer says of each point which colour it puts there, or that it leaves the point alone. Layers
are put down one after the other, and the last one that has a colour for a point decides (`stack`).
Layers that agree wherever they meet are together the layer of all that they say (`stack_eq`).
-/

namespace Layers

variable {π α : Type*}

/-- Which points get which colour. -/
abbrev Layer (π α : Type*) := π → Option α

/-- The layer `b` on top of `a`. -/
def overlay (a b : Layer π α) : Layer π α := fun p => (b p).or (a p)

/-- Layers put down in this order. -/
def stack : List (Layer π α) → Layer π α
  | [] => fun _ => none
  | a :: as => overlay a (stack as)

section
variable {a b f : Layer π α} {as bs : List (Layer π α)} {p : π} {c : α}

/-- A layer without colours hides nothing. -/
theorem overlay_none (a : Layer π α) : overlay a (fun _ => none) = a := by
  funext p
  rfl

/-- What covers what does not depend on how the layers are bracketed. -/
theorem overlay_assoc (a b f : Layer π α) : overlay (overlay a b) f = overlay a (overlay b f) := by
  funext p
  exact (Option.or_assoc).symm

@[simp] theorem stack_nil : stack ([] : List (Layer π α)) = fun _ => none := rfl

@[simp] theorem stack_cons : stack (a :: as) = overlay a (stack as) := rfl

/-- Layers put down after others cover them. -/
theorem stack_append (as bs : List (Layer π α)) :
    stack (as ++ bs) = overlay (stack as) (stack bs) := by
  induction as with
  | nil =>
      funext p
      simp [overlay]
  | cons a as ih => rw [List.cons_append, stack_cons, ih, stack_cons, overlay_assoc]

/-- A colour comes from one of the layers: the topmost one that has a colour there. -/
theorem exists_of_stack (h : stack as p = some c) : ∃ a ∈ as, a p = some c := by
  induction as with
  | nil => cases h
  | cons a as ih =>
      rw [stack_cons, overlay] at h
      cases hrest : stack as p with
      | none =>
          rw [hrest] at h
          exact ⟨a, List.mem_cons_self, h⟩
      | some d =>
          rw [hrest] at h
          cases h
          obtain ⟨b, hb, hbp⟩ := ih hrest
          exact ⟨b, List.mem_cons_of_mem a hb, hbp⟩

/-- A point without a colour has none in any of the layers. -/
theorem stack_eq_none : stack as p = none ↔ ∀ a ∈ as, a p = none := by
  induction as with
  | nil => exact iff_of_true rfl nofun
  | cons a as ih =>
      rw [stack_cons, overlay, Option.or_eq_none_iff, ih, List.forall_mem_cons, and_comm]

/-- A point has a colour if any of the layers has one there. -/
theorem stack_isSome : (stack as p).isSome ↔ ∃ a ∈ as, (a p).isSome := by
  rw [← not_iff_not, Option.not_isSome_iff_eq_none, stack_eq_none]
  simp

/-- Layers that say nothing but what `f` says, and together all of it. -/
theorem stack_eq (hsub : ∀ a ∈ as, ∀ p c, a p = some c → f p = some c)
    (hcover : ∀ p, (f p).isSome → ∃ a ∈ as, (a p).isSome) : stack as = f := by
  funext p
  cases hp : stack as p with
  | some c =>
      obtain ⟨a, ha, hap⟩ := exists_of_stack hp
      exact (hsub a ha p c hap).symm
  | none =>
      rw [stack_eq_none] at hp
      cases hf : f p with
      | none => rfl
      | some c =>
          obtain ⟨a, ha, hap⟩ := hcover p (hf ▸ rfl)
          rw [hp a ha] at hap
          cases hap

/-- A point has a colour if one of the two layers has. -/
theorem overlay_isSome : (overlay a b p).isSome ↔ (a p).isSome ∨ (b p).isSome := by
  rw [overlay, Option.isSome_or, Bool.or_eq_true, or_comm]

/-- The same of a family of layers. -/
theorem stack_map_isSome {ι : Type*} {l : List ι} {f : ι → Layer π α} :
    (stack (l.map f) p).isSome ↔ ∃ e ∈ l, (f e p).isSome := by
  rw [stack_isSome]
  simp

/-- Of the layers that cover a point the last one is seen. -/
theorem stack_map_top {ι : Type*} {l : List ι} {f : ι → Layer π α} {q : ι → Bool}
    (h : ∀ e ∈ l, (f e p).isSome = q e) :
    stack (l.map f) p = (l.filter q).getLast?.bind fun e => f e p := by
  induction l using List.reverseRecOn with
  | nil => rfl
  | append_singleton l e ih =>
      have hlast := h e (List.mem_append_right l (List.mem_singleton_self e))
      have hrest := ih fun d hd => h d (List.mem_append_left [e] hd)
      rw [List.map_append, stack_append, List.map_singleton, stack_cons, stack_nil, overlay_none,
        overlay, List.filter_append]
      cases hq : q e with
      | false =>
          rw [hq, Option.isSome_eq_false_iff, Option.isNone_iff_eq_none] at hlast
          rw [hlast, hrest, List.filter_cons_of_neg (by simp [hq]), List.filter_nil,
            List.append_nil]
          rfl
      | true =>
          rw [hq] at hlast
          obtain ⟨c, hc⟩ := Option.isSome_iff_exists.1 hlast
          rw [hc, List.filter_cons_of_pos hq, List.filter_nil, List.getLast?_concat,
            Option.bind_some, hc]
          rfl

/-- A point that only one of the layers can cover shows what that one has there. -/
theorem stack_map_of_only {ι : Type*} {l : List ι} {f : ι → Layer π α} {e : ι} {i : Nat}
    (hi : l[i]? = some e) (hothers : ∀ j d, l[j]? = some d → j ≠ i → f d p = none) :
    stack (l.map f) p = f e p := by
  cases hstack : stack (l.map f) p with
  | none =>
      rw [stack_eq_none] at hstack
      exact (hstack _ (List.mem_map_of_mem (List.mem_of_getElem? hi))).symm
  | some c =>
      obtain ⟨a, ha, hc⟩ := exists_of_stack hstack
      obtain ⟨d, hd, rfl⟩ := List.mem_map.1 ha
      obtain ⟨j, hj⟩ := List.mem_iff_getElem?.1 hd
      rcases eq_or_ne j i with rfl | hne
      · rw [hi] at hj
        cases hj
        exact hc.symm
      · rw [hothers j d hj hne] at hc
        cases hc

/-- The layers of a loop show a layer if none of them shows anything else, and every point of it is
covered by one. -/
theorem stack_range_eq {n : Nat} {a : Nat → Layer π α}
    (hsub : ∀ i < n, ∀ p c, a i p = some c → f p = some c)
    (hcover : ∀ p, (f p).isSome → ∃ i < n, (a i p).isSome) :
    stack ((List.range n).map a) = f := by
  refine stack_eq (fun b hb => ?_) fun p hp => ?_
  · obtain ⟨i, hi, rfl⟩ := List.mem_map.1 hb
    exact hsub i (List.mem_range.1 hi)
  · obtain ⟨i, hi, hip⟩ := hcover p hp
    exact ⟨a i, List.mem_map_of_mem (List.mem_range.2 hi), hip⟩

end

end Layers
