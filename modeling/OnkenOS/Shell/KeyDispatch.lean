import Mathlib.Data.List.Perm.Basic
import OnkenOS.Shell.Os

/-!
# Which application a key goes to

`app_find_by_title` takes the first registered application whose title the window's title is, or
starts with. The test for an equal title never decides anything, as a title starts with itself, so
an application that is registered earlier and whose title is shorter takes the keys of another
one's windows. What is found is the same for every order of registration exactly if no two
registered titles start the window's title (`appFindByTitle_order_iff`).
-/

namespace OnkenOS

open Os

/-- `MAX_APPS`. -/
abbrev maxApps : Nat := 32

/-- `app_register`. -/
def appRegister (registry : List AppEntry) (app : AppEntry) : List AppEntry :=
  if registry.length < maxApps then registry ++ [app] else registry

/-- The registry after `app_registry_init` and some registrations. -/
def registerAll (apps : List AppEntry) : List AppEntry := apps.foldl appRegister []

/-! ## Strings and searches -/

/-- `strncmp` with the length of the first string tells if the second one starts with it. -/
theorem strncmp_strlen_iff (s t : List UInt8) :
    strncmp s t (strlen s) = 0 ↔ cstr s <+: cstr t := by
  induction s generalizing t with
  | nil => simp [strlen, strncmp]
  | cons c s ih =>
      unfold strlen
      rw [cstr_cons]
      split
      · simp [strncmp]
      · next hc =>
          rw [List.length_cons, strncmp, List.headD_cons, List.tail_cons]
          cases t with
          | nil =>
              have hne : c.toNat ≠ 0 := fun h => hc (UInt8.toNat_inj.1 h)
              simp [hc, hne]
          | cons d t =>
              rw [List.headD_cons, List.tail_cons, cstr_cons]
              rcases eq_or_ne c d with rfl | hcd
              · simp [hc, ← ih t, strlen]
              · have hne : (c.toNat : Int) - d.toNat ≠ 0 := fun h =>
                  hcd ((toNat_sub_eq_zero c d).1 h)
                have hpre : ¬ c :: cstr s <+: if d = 0 then [] else d :: cstr t := by
                  split
                  · simp
                  · simp [List.cons_prefix_cons, hcd]
                simp [hc, hcd, hne, hpre]

/-- The only match is the first one, in whatever order the list is. -/
theorem find?_eq_some_of_unique {α : Type*} {p : α → Bool} {l : List α} {a : α} (ha : a ∈ l)
    (hpa : p a = true) (hone : ∀ b ∈ l, p b = true → b = a) : l.find? p = some a := by
  cases hf : l.find? p with
  | none => exact absurd hpa (List.find?_eq_none.1 hf a ha)
  | some b => rw [hone b (List.mem_of_find?_eq_some hf) (List.find?_some hf)]

/-- The first match does not depend on the order exactly if there is at most one. -/
theorem find?_perm_iff {α : Type*} [DecidableEq α] (p : α → Bool) (l : List α) :
    (∀ l₁ l₂ : List α, l₁.Perm l → l₂.Perm l → l₁.find? p = l₂.find? p) ↔
      ∀ a ∈ l, ∀ b ∈ l, p a = true → p b = true → a = b := by
  constructor
  · intro horder a ha b hb hpa hpb
    have hfirst := horder _ _ (List.perm_cons_erase ha).symm (List.perm_cons_erase hb).symm
    rw [List.find?_cons_of_pos hpa, List.find?_cons_of_pos hpb] at hfirst
    exact Option.some.inj hfirst
  · intro hone l₁ l₂ h₁ h₂
    cases hf : l₁.find? p with
    | none =>
        refine (List.find?_eq_none.2 fun a ha => ?_).symm
        exact List.find?_eq_none.1 hf a (h₁.mem_iff.2 (h₂.mem_iff.1 ha))
    | some a =>
        have ha := h₁.mem_iff.1 (List.mem_of_find?_eq_some hf)
        have hpa := List.find?_some hf
        exact (find?_eq_some_of_unique (h₂.mem_iff.2 ha) hpa fun b hb hpb =>
          hone b (h₂.mem_iff.1 hb) a ha hpb hpa).symm

/-! ## The registry -/

section
variable {apps : List AppEntry} {title : List UInt8}

/-- Up to `MAX_APPS` applications are all registered, in their order. -/
theorem registerAll_eq (hcount : apps.length ≤ maxApps) : registerAll apps = apps := by
  have hfold (apps registry : List AppEntry) (h : registry.length + apps.length ≤ maxApps) :
      apps.foldl appRegister registry = registry ++ apps := by
    induction apps generalizing registry with
    | nil => exact (List.append_nil registry).symm
    | cons app apps ih =>
        rw [List.length_cons] at h
        rw [List.foldl_cons, appRegister, if_pos (by omega), ih, List.append_assoc]
        · rfl
        · rw [List.length_append, List.length_singleton]
          omega
  exact hfold apps [] (by rw [List.length_nil]; omega)

/-- The search is for a title that the window's title starts with. -/
theorem appFindByTitle_eq (entries : List AppEntry) (title : List UInt8) :
    appFindByTitle entries title = entries.find? fun a => decide (cstr a.title <+: cstr title) := by
  refine congrArg (entries.find? ·) (funext fun a => ?_)
  rw [Bool.eq_iff_iff, Bool.or_eq_true, beq_iff_eq, beq_iff_eq, strcmp_eq_zero_iff,
    strncmp_strlen_iff, decide_eq_true_eq]
  refine or_iff_right_of_imp fun heq => ?_
  rw [heq]

/-- Whatever the order of registration, the same application gets the keys of a window with this
title, and it is the one with exactly this title if there is one. -/
def DispatchFixed (apps : List AppEntry) (title : List UInt8) : Prop :=
  (∀ l₁ l₂ : List AppEntry, l₁.Perm apps → l₂.Perm apps →
    appFindByTitle (registerAll l₁) title = appFindByTitle (registerAll l₂) title) ∧
  ∀ a ∈ apps, cstr a.title = cstr title →
    ∀ l : List AppEntry, l.Perm apps → appFindByTitle (registerAll l) title = some a

/-- The dispatch does not depend on the order exactly if at most one registered title starts the
title of the window. -/
theorem appFindByTitle_order_iff (hcount : apps.length ≤ maxApps) (title : List UInt8) :
    DispatchFixed apps title ↔
      ∀ a ∈ apps, ∀ b ∈ apps, cstr a.title <+: cstr title → cstr b.title <+: cstr title →
        a = b := by
  have hfind (l : List AppEntry) (hl : l.Perm apps) : appFindByTitle (registerAll l) title =
      l.find? fun a => decide (cstr a.title <+: cstr title) := by
    rw [registerAll_eq (by rw [hl.length_eq]; exact hcount), appFindByTitle_eq]
  have horder : (∀ l₁ l₂ : List AppEntry, l₁.Perm apps → l₂.Perm apps →
      appFindByTitle (registerAll l₁) title = appFindByTitle (registerAll l₂) title) ↔
      ∀ a ∈ apps, ∀ b ∈ apps, cstr a.title <+: cstr title → cstr b.title <+: cstr title →
        a = b := by
    have hperm := find?_perm_iff (fun a => decide (cstr a.title <+: cstr title)) apps
    simp only [decide_eq_true_eq] at hperm
    rw [← hperm]
    refine forall₂_congr fun l₁ l₂ => forall₂_congr fun h₁ h₂ => ?_
    rw [hfind l₁ h₁, hfind l₂ h₂]
  refine ⟨fun h => horder.1 h.1, fun hone => ⟨horder.2 hone, fun a ha heq l hl => ?_⟩⟩
  have hpre : cstr a.title <+: cstr title := by rw [heq]
  rw [hfind l hl]
  refine find?_eq_some_of_unique (hl.mem_iff.2 ha) (decide_eq_true hpre) fun b hb hpb => ?_
  exact hone b (hl.mem_iff.1 hb) a ha (of_decide_eq_true hpb) hpre

end

/-- The applications of the system and a window of the editor. -/
theorem appFindByTitle_order_iff_shell :
    shellRegistry.entries.length ≤ maxApps ∧
      (DispatchFixed shellRegistry.entries (str "yano - new.txt") ↔
        ∀ a ∈ shellRegistry.entries, ∀ b ∈ shellRegistry.entries,
          cstr a.title <+: cstr (str "yano - new.txt") →
          cstr b.title <+: cstr (str "yano - new.txt") → a = b) :=
  ⟨by decide, appFindByTitle_order_iff (by decide) (str "yano - new.txt")⟩

/-- Two applications, the title of one the start of the other's. -/
def editors : List AppEntry :=
  [⟨str "yano", str "yano", str "Text Editor"⟩, ⟨str "yano2", str "yano2", str "Text Editor"⟩]

/-- With `yano` registered before `yano2`, the keys of the second go to the first. -/
theorem appFindByTitle_editors :
    ¬ ∀ (apps : List AppEntry) (title : List UInt8), apps.length ≤ maxApps →
      (apps.map fun a => cstr a.title).Nodup → DispatchFixed apps title := by
  intro h
  have hfixed := h editors (str "yano2") (by decide) (by decide)
  have hfirst := hfixed.1 editors editors.reverse (List.Perm.refl _) (List.reverse_perm _)
  revert hfirst
  decide

end OnkenOS
