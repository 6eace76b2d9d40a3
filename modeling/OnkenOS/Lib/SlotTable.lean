import Mathlib.Data.Finmap
import Mathlib.Data.Fintype.Card

/-!
# Slot tables

A table of `n` slots, each of them free or taken by an entry with a key and a value, is a
finite map of at most `n` keys when no two taken slots have one key. `view` reads a slot:
`none` when it is free. Writing a slot is inserting, replacing or erasing the entry of the
map, and a table without a free slot is a map with `n` keys.
-/

namespace SlotTable

variable {n : Nat} {σ κ ν : Type*} [DecidableEq κ]

/-- Storing under a key adds the key. -/
theorem keys_insert (m : Finmap fun _ : κ => ν) (k : κ) (v : ν) :
    (m.insert k v).keys = insert k m.keys := by
  ext k'
  rw [Finmap.mem_keys, Finmap.mem_insert, Finset.mem_insert, Finmap.mem_keys]

/-- The entries of the table are those of the map, each in one slot. -/
structure Refines (view : σ → Option (κ × ν)) (t : Fin n → σ) (m : Finmap fun _ : κ => ν) :
    Prop where
  lookup_iff : ∀ k v, m.lookup k = some v ↔ ∃ i, view (t i) = some (k, v)
  distinct : ∀ {i j k v w}, view (t i) = some (k, v) → view (t j) = some (k, w) → i = j

/-- No two taken slots have one key. -/
def Distinct (view : σ → Option (κ × ν)) (t : Fin n → σ) : Prop :=
  ∀ i j k v w, view (t i) = some (k, v) → view (t j) = some (k, w) → i = j

section
omit [DecidableEq κ]
variable {view : σ → Option (κ × ν)} {t : Fin n → σ} {i : Fin n} {k : κ} {v w : ν} {x : σ}

/-- What a table holds after a write to slot `i`. -/
theorem view_update {j : Fin n} {e : κ × ν} : view (Function.update t i x j) = some e ↔
    j = i ∧ view x = some e ∨ j ≠ i ∧ view (t j) = some e := by
  rcases eq_or_ne j i with rfl | hne
  · simp
  · simp [hne]

/-- Freeing a slot keeps the keys distinct: there is one less. -/
theorem Distinct.update_none (h : Distinct view t) (hx : view x = none) :
    Distinct view (Function.update t i x) := by
  have hold : ∀ {j k w}, view (Function.update t i x j) = some (k, w) →
      view (t j) = some (k, w) := by
    intro j k w hj
    rcases view_update.1 hj with ⟨-, hnew⟩ | ⟨-, hold⟩
    · rw [hx] at hnew
      cases hnew
    · exact hold
  intro j j' k v w hj hj'
  exact h j j' k v w (hold hj) (hold hj')

/-- Writing an entry for `k` into a slot that holds no other key keeps the keys distinct exactly
when no other slot holds `k`. -/
theorem Distinct.update_iff (h : Distinct view t) (hx : view x = some (k, v))
    (hslot : ∀ k' w, view (t i) = some (k', w) → k' = k) :
    Distinct view (Function.update t i x) ↔ ∀ j w, view (t j) = some (k, w) → j = i := by
  constructor
  · intro h' j w hj
    by_contra hne
    have hj' : view (Function.update t i x j) = some (k, w) := view_update.2 (.inr ⟨hne, hj⟩)
    have hi' : view (Function.update t i x i) = some (k, v) := view_update.2 (.inl ⟨rfl, hx⟩)
    exact hne (h' j i k w v hj' hi')
  · intro hkey
    have hview : ∀ {j k' w}, view (Function.update t i x j) = some (k', w) →
        j = i ∧ k' = k ∨ j ≠ i ∧ view (t j) = some (k', w) := by
      intro j k' w hj
      rcases view_update.1 hj with ⟨hji, hnew⟩ | hold
      · rw [hx, Option.some.injEq, Prod.mk.injEq] at hnew
        exact .inl ⟨hji, hnew.1.symm⟩
      · exact .inr hold
    intro j j' k' w w' hj hj'
    rcases hview hj with ⟨rfl, rfl⟩ | ⟨-, hold⟩
    · rcases hview hj' with ⟨rfl, -⟩ | ⟨-, hold'⟩
      · rfl
      · exact (hkey _ _ hold').symm
    · rcases hview hj' with ⟨rfl, rfl⟩ | ⟨-, hold'⟩
      · exact hkey _ _ hold
      · exact h _ _ _ _ _ hold hold'

end

section
variable {view : σ → Option (κ × ν)} {t : Fin n → σ} {m : Finmap fun _ : κ => ν}
  {i : Fin n} {k : κ} {v w : ν} {x : σ}

/-- A table of free slots is the empty map: the start of every refinement. -/
theorem refines_empty (h : ∀ i, view (t i) = none) :
    Refines view t (∅ : Finmap fun _ : κ => ν) where
  lookup_iff k v := by
    rw [Finmap.lookup_empty]
    exact ⟨fun he => (by cases he), fun ⟨i, hi⟩ => (by rw [h i] at hi; cases hi)⟩
  distinct {i} _ _ _ _ hi := by rw [h i] at hi; cases hi

/-- A taken slot holds a key of the map. -/
theorem Refines.lookup_of_view (h : Refines view t m) (hi : view (t i) = some (k, v)) :
    m.lookup k = some v := (h.lookup_iff k v).2 ⟨i, hi⟩

/-- A table that refines a map has each key in one slot. -/
theorem Refines.keys_distinct (h : Refines view t m) : Distinct view t :=
  fun _ _ _ _ _ => h.distinct

/-- The keys of the map are the keys of the taken slots. -/
theorem Refines.mem_iff (h : Refines view t m) : k ∈ m ↔ ∃ i v, view (t i) = some (k, v) := by
  rw [Finmap.mem_iff]
  refine ⟨fun ⟨v, hv⟩ => ?_, fun ⟨i, v, hi⟩ => ⟨v, h.lookup_of_view hi⟩⟩
  obtain ⟨i, hi⟩ := (h.lookup_iff k v).1 hv
  exact ⟨i, v, hi⟩

/-- Writing an entry for `k` into a slot that holds no other key, when no other slot holds
`k`. -/
theorem Refines.insert (h : Refines view t m) (hx : view x = some (k, v))
    (hslot : ∀ k' w, view (t i) = some (k', w) → k' = k)
    (hkey : ∀ j w, view (t j) = some (k, w) → j = i) :
    Refines view (Function.update t i x) (m.insert k v) := by
  have hdistinct : Distinct view (Function.update t i x) :=
    (h.keys_distinct.update_iff hx hslot).2 hkey
  refine ⟨fun k' w => ?_, fun {j j' k' w w'} => hdistinct j j' k' w w'⟩
  rcases eq_or_ne k' k with rfl | hk
  · rw [Finmap.lookup_insert]
    constructor
    · intro he
      exact ⟨i, view_update.2 (.inl ⟨rfl, by rw [hx, Option.some.inj he]⟩)⟩
    · rintro ⟨j, hj⟩
      rcases view_update.1 hj with ⟨-, hnew⟩ | ⟨hne, hold⟩
      · rw [hx, Option.some.injEq, Prod.mk.injEq] at hnew
        rw [hnew.2]
      · exact absurd (hkey j w hold) hne
  · rw [Finmap.lookup_insert_of_ne _ hk, h.lookup_iff k' w]
    refine exists_congr fun j => ⟨fun hj => view_update.2 (.inr ⟨?_, hj⟩), fun hj => ?_⟩
    · rintro rfl
      exact hk (hslot k' w hj)
    · rcases view_update.1 hj with ⟨-, hnew⟩ | ⟨-, hold⟩
      · rw [hx, Option.some.injEq, Prod.mk.injEq] at hnew
        exact absurd hnew.1.symm hk
      · exact hold

/-- Taking a free slot for a new key inserts the key. -/
theorem Refines.insert_free (h : Refines view t m) (hfree : view (t i) = none) (hk : k ∉ m)
    (hx : view x = some (k, v)) : Refines view (Function.update t i x) (m.insert k v) :=
  h.insert hx (fun k' w he => by rw [hfree] at he; cases he)
    fun j w hj => absurd (h.mem_iff.2 ⟨j, w, hj⟩) hk

/-- Writing another value for the key of a slot replaces the value under that key. -/
theorem Refines.replace (h : Refines view t m) (hi : view (t i) = some (k, w))
    (hx : view x = some (k, v)) : Refines view (Function.update t i x) (m.insert k v) := by
  refine h.insert hx (fun k' w' he => ?_) fun j w' hj => h.distinct hj hi
  rw [hi] at he
  simp only [Option.some.injEq, Prod.mk.injEq] at he
  exact he.1.symm

/-- Freeing the slot of a key erases the key: no other slot has it. -/
theorem Refines.erase (h : Refines view t m) (hi : view (t i) = some (k, w))
    (hx : view x = none) : Refines view (Function.update t i x) (m.erase k) := by
  have hdistinct : Distinct view (Function.update t i x) := h.keys_distinct.update_none hx
  have hview : ∀ {j k' w'}, view (Function.update t i x j) = some (k', w') →
      k' ≠ k ∧ view (t j) = some (k', w') := by
    intro j k' w' hj
    rcases view_update.1 hj with ⟨-, hnew⟩ | ⟨hne, hold⟩
    · rw [hx] at hnew
      cases hnew
    · refine ⟨?_, hold⟩
      rintro rfl
      exact hne (h.distinct hold hi)
  refine ⟨fun k' w' => ?_, fun {j j' k' w w'} => hdistinct j j' k' w w'⟩
  rcases eq_or_ne k' k with rfl | hk
  · rw [Finmap.lookup_erase]
    exact ⟨fun he => (by cases he), fun ⟨j, hj⟩ => absurd rfl (hview hj).1⟩
  · rw [Finmap.lookup_erase_ne hk, h.lookup_iff k' w']
    refine exists_congr fun j => ⟨fun hj => view_update.2 (.inr ⟨?_, hj⟩), fun hj => (hview hj).2⟩
    rintro rfl
    rw [hi, Option.some.injEq, Prod.mk.injEq] at hj
    exact hk hj.1.symm

/-- The map has as many keys as the table has taken slots. -/
theorem Refines.card_keys (h : Refines view t m) :
    m.keys.card = (Finset.univ.filter fun i => (view (t i)).isSome).card := by
  have hget : ∀ i (hi : (view (t i)).isSome), view (t i) = some ((view (t i)).get hi) :=
    fun i hi => (Option.some_get hi).symm
  refine (Finset.card_bij (fun i hi => ((view (t i)).get (Finset.mem_filter.1 hi).2).1)
    (fun i hi => ?_) (fun i hi j hj he => ?_) fun k hk => ?_).symm
  · exact Finmap.mem_keys.2 (h.mem_iff.2 ⟨i, _, hget i (Finset.mem_filter.1 hi).2⟩)
  · have hi' := hget i (Finset.mem_filter.1 hi).2
    have hj' := hget j (Finset.mem_filter.1 hj).2
    rw [← Prod.mk.eta (p := (view (t i)).get _)] at hi'
    rw [← Prod.mk.eta (p := (view (t j)).get _)] at hj'
    exact h.distinct (hi'.trans (by rw [he])) hj'
  · obtain ⟨i, v, hi⟩ := h.mem_iff.1 (Finmap.mem_keys.1 hk)
    refine ⟨i, Finset.mem_filter.2 ⟨Finset.mem_univ i, ?_⟩, ?_⟩
    · rw [hi]
      rfl
    · simp only [hi, Option.get_some]

/-- The map has at most `n` keys. -/
theorem Refines.card_le (h : Refines view t m) : m.keys.card ≤ n := by
  rw [h.card_keys]
  exact (Finset.card_le_univ _).trans_eq (Fintype.card_fin n)

/-- The map has `n` keys exactly when no slot is free. -/
theorem Refines.card_lt_iff (h : Refines view t m) :
    m.keys.card < n ↔ ∃ i, view (t i) = none := by
  have hfull : m.keys.card = n ↔ ∀ i, (view (t i)).isSome := by
    have hcard := Finset.card_filter_eq_iff (s := Finset.univ) (p := fun i => (view (t i)).isSome)
    rw [Finset.card_univ, Fintype.card_fin, ← h.card_keys] at hcard
    rw [hcard]
    exact ⟨fun hall i => hall i (Finset.mem_univ i), fun hall i _ => hall i⟩
  rw [Nat.lt_iff_le_and_ne, and_iff_right h.card_le, ne_eq, hfull, not_forall]
  exact exists_congr fun i => by rw [Option.not_isSome_iff_eq_none]

end

section
variable {view : σ → Option (κ × ν)} {t : Fin n → σ}

/-- The entries of the taken slots, in the order of the slots. -/
def entries (view : σ → Option (κ × ν)) (t : Fin n → σ) : List (Sigma fun _ : κ => ν) :=
  (List.finRange n).filterMap fun i => (view (t i)).map fun e => ⟨e.1, e.2⟩

omit [DecidableEq κ] in
/-- The entries are what some slot shows. -/
theorem mem_entries {k : κ} {v : ν} :
    ⟨k, v⟩ ∈ entries view t ↔ ∃ i, view (t i) = some (k, v) := by
  simp [entries, Sigma.ext_iff, eq_comm]

/-- A table whose keys are distinct is a map: that of its entries. -/
theorem Distinct.exists_refines (h : Distinct view t) :
    ∃ m : Finmap fun _ : κ => ν, Refines view t m := by
  have hkeys : (entries view t).NodupKeys := by
    have hmap : (entries view t).keys =
        (List.finRange n).filterMap fun i => (view (t i)).map Prod.fst := by
      simp [List.keys, entries, List.map_filterMap, Function.comp_def]
    rw [List.NodupKeys, hmap]
    refine (List.nodup_finRange n).filterMap fun i j k hi hj => ?_
    obtain ⟨⟨k, v⟩, hvi, rfl⟩ := Option.map_eq_some_iff.1 hi
    obtain ⟨⟨l, w⟩, hwj, rfl⟩ := Option.map_eq_some_iff.1 hj
    exact h i j _ v w hvi hwj
  refine ⟨(entries view t).toFinmap, fun k v => ?_, fun {i j k v w} => h i j k v w⟩
  rw [Finmap.dlookup_list_toFinmap]
  exact (List.mem_dlookup_iff hkeys).trans mem_entries

end

end SlotTable
