import Mathlib.Data.List.Basic
import Mathlib.Data.List.Perm.Subperm

/-!
# Linked lists in memory

Cells in memory, each with the address of the next one or null. `IsChain` relates an address to the
addresses that are visited from it on; there is at most one such list (`IsChain.unique`), and it has
no address twice (`IsChain.nodup`). Walks take an explicit bound: a chain that is no longer is
walked to its end (`last_chain`, `cells_chain`). Linking a new cell behind the last one appends its
address (`IsChain.snoc`), and linking past a cell takes its address out (`IsChain.unlink`).
-/

namespace Linked

variable {α : Type*} (next : α → Option Nat)

/-- From `p` on, the addresses `ps` are visited, and null ends the list. -/
def IsChain (mem : List α) : Option Nat → List Nat → Prop
  | p, [] => p = none
  | p, q :: ps => p = some q ∧ ∃ a, mem[q]? = some a ∧ IsChain mem (next a) ps

/-- The address of the last cell from `p` on, at most `n` cells further. -/
def last (mem : List α) : Nat → Nat → Nat
  | 0, p => p
  | n + 1, p =>
      match (mem[p]?).bind next with
      | none => p
      | some q => last mem n q

/-- The cells from `p` on, at most `n` of them. -/
def cells (mem : List α) : Nat → Option Nat → List α
  | 0, _ => []
  | _ + 1, none => []
  | n + 1, some p =>
      match mem[p]? with
      | none => []
      | some a => a :: cells mem n (next a)

/-- The first cell behind `p` that passes the test, at most `n` cells further, with the cell that
links to it. -/
def findBehind (test : α → Bool) (mem : List α) : Nat → Nat → Option (Nat × Nat)
  | 0, _ => none
  | n + 1, p =>
      match (mem[p]?).bind next with
      | none => none
      | some q => if (mem[q]?).any test then some (p, q) else findBehind test mem n q

section
variable {next} {mem mem' : List α} {p : Option Nat} {q q' : Nat} {ps qs : List Nat} {a : α}

/-! ## Chains -/

/-- A chain that is not empty begins at its first address. -/
theorem IsChain.head (h : IsChain next mem p (q :: ps)) : p = some q := h.1

/-- The addresses that are visited are determined by the links, so a list has one chain. -/
theorem IsChain.unique (h : IsChain next mem p ps) (h' : IsChain next mem p qs) : ps = qs := by
  induction ps generalizing p qs with
  | nil =>
      cases qs with
      | nil => rfl
      | cons r qs => exact absurd (h.symm.trans h'.1) (by simp)
  | cons q ps ih =>
      obtain ⟨rfl, a, ha, hrest⟩ := h
      cases qs with
      | nil => exact absurd h' (by simp [IsChain])
      | cons r qs =>
          obtain ⟨hr, b, hb, hrest'⟩ := h'
          cases hr
          rw [ha] at hb
          cases hb
          rw [ih hrest hrest']

/-- The part of a chain from one of its cells on is the chain from there. -/
theorem IsChain.suffix (h : IsChain next mem p (qs ++ q :: ps)) :
    IsChain next mem (some q) (q :: ps) := by
  induction qs generalizing p with
  | nil =>
      obtain ⟨rfl, hrest⟩ := h
      exact ⟨rfl, hrest⟩
  | cons r qs ih =>
      obtain ⟨-, a, -, hrest⟩ := h
      exact ih hrest

/-- No address is visited twice: from there on, the chain would be shorter than itself. -/
theorem IsChain.nodup (h : IsChain next mem p ps) : ps.Nodup := by
  induction ps generalizing p with
  | nil => exact List.nodup_nil
  | cons q ps ih =>
      obtain ⟨rfl, a, ha, hrest⟩ := id h
      refine List.nodup_cons.2 ⟨fun hmem => ?_, ih hrest⟩
      obtain ⟨front, back, rfl⟩ := List.append_of_mem hmem
      have hback : IsChain next mem (some q) (q :: back) := hrest.suffix
      have heq := congrArg List.length (hback.unique h)
      simp at heq
      omega

/-- A cell is not any other one of the chain, as none is visited twice. -/
theorem IsChain.ne_of_mem (h : IsChain next mem p (qs ++ q :: ps)) : ∀ r ∈ qs ++ ps, q ≠ r := by
  obtain ⟨-, hback, hdisj⟩ := List.nodup_append.1 h.nodup
  rintro r hr rfl
  rcases List.mem_append.1 hr with hr | hr
  · exact hdisj q hr q (.head _) rfl
  · exact (List.nodup_cons.1 hback).1 hr

/-- Every address of a chain is that of a cell. -/
theorem IsChain.mem_lt (h : IsChain next mem p ps) : ∀ q ∈ ps, q < mem.length := by
  induction ps generalizing p with
  | nil => simp
  | cons r ps ih =>
      obtain ⟨-, a, ha, hrest⟩ := h
      intro q hq
      rcases List.mem_cons.1 hq with rfl | hq
      · exact (List.getElem?_eq_some_iff.1 ha).1
      · exact ih hrest q hq

/-- A chain visits no cell twice, so it is no longer than the memory. -/
theorem IsChain.length_le (h : IsChain next mem p ps) : ps.length ≤ mem.length := by
  have hsub : ps ⊆ List.range mem.length := fun q hq => List.mem_range.2 (h.mem_lt q hq)
  have hlen := (List.Nodup.subperm h.nodup hsub).length_le
  rwa [List.length_range] at hlen

/-- Cells that keep their links keep the chain, whatever else of them changes. -/
theorem IsChain.congr (h : IsChain next mem p ps)
    (hlink : ∀ q ∈ ps, (mem'[q]?).map next = (mem[q]?).map next) : IsChain next mem' p ps := by
  induction ps generalizing p with
  | nil => exact h
  | cons q ps ih =>
      obtain ⟨rfl, a, ha, hrest⟩ := h
      have hq := hlink q (.head _)
      rw [ha, Option.map_some] at hq
      obtain ⟨b, hb, hnext⟩ := Option.map_eq_some_iff.1 hq
      exact ⟨rfl, b, hb, hnext ▸ ih hrest fun r hr => hlink r (.tail _ hr)⟩

/-- The front of a chain keeps its links, and the rest is another one. -/
theorem IsChain.replace (h : IsChain next mem p (ps ++ q :: qs)) {qs' : List Nat}
    (hlink : ∀ r ∈ ps, (mem'[r]?).map next = (mem[r]?).map next)
    (hnew : IsChain next mem' (some q) (q :: qs')) : IsChain next mem' p (ps ++ q :: qs') := by
  induction ps generalizing p with
  | nil =>
      rw [List.nil_append] at h ⊢
      rw [h.head]
      exact hnew
  | cons r ps ih =>
      obtain ⟨rfl, a, ha, hrest⟩ := h
      have hr := hlink r (.head _)
      rw [ha, Option.map_some] at hr
      obtain ⟨b, hb, hnext⟩ := Option.map_eq_some_iff.1 hr
      exact ⟨rfl, b, hb, hnext ▸ ih hrest fun s hs => hlink s (.tail _ hs)⟩

/-- A new cell that is linked behind the last one makes the chain longer by itself. -/
theorem IsChain.snoc (h : IsChain next mem p (ps ++ [q])) {new : Nat}
    (hlink : ∀ r ∈ ps, (mem'[r]?).map next = (mem[r]?).map next)
    (hlast : (mem'[q]?).map next = some (some new)) (hnew : (mem'[new]?).map next = some none) :
    IsChain next mem' p (ps ++ [q, new]) := by
  obtain ⟨b, hb, hqnext⟩ := Option.map_eq_some_iff.1 hlast
  obtain ⟨c, hc, hcnext⟩ := Option.map_eq_some_iff.1 hnew
  exact h.replace hlink ⟨rfl, b, hb, hqnext, c, hc, hcnext⟩

/-- The link past a cell takes it out of the chain, and the cells behind it stay. -/
theorem IsChain.unlink {r : Nat} (h : IsChain next mem p (ps ++ r :: q :: qs))
    (hlink : ∀ s ∈ ps ++ qs, (mem'[s]?).map next = (mem[s]?).map next)
    (hr : (mem'[r]?).map next = (mem[q]?).map next) : IsChain next mem' p (ps ++ r :: qs) := by
  obtain ⟨-, a, ha, -, b, hb, hrest⟩ := h.suffix
  rw [hb, Option.map_some] at hr
  obtain ⟨c, hc, hcnext⟩ := Option.map_eq_some_iff.1 hr
  refine h.replace (fun s hs => hlink s (List.mem_append_left _ hs)) ⟨rfl, c, hc, ?_⟩
  rw [hcnext]
  exact hrest.congr fun s hs => hlink s (List.mem_append_right _ hs)

/-! ## Walks -/

/-- Following the links with enough steps ends at the last address of the chain. -/
theorem last_chain (h : IsChain next mem (some q) (ps ++ [q'])) {n : Nat} (hn : ps.length ≤ n) :
    last next mem n q = q' := by
  induction ps generalizing q n with
  | nil =>
      obtain ⟨hq, a, ha, hend⟩ := h
      cases hq
      cases n with
      | zero => rfl
      | succ n => simp [last, ha, show next a = none from hend]
  | cons r ps ih =>
      obtain ⟨hq, a, ha, hrest⟩ := h
      cases hq
      cases n with
      | zero => simp at hn
      | succ n =>
          obtain ⟨s, hs⟩ : ∃ s, next a = some s := by
            cases ps with
            | nil => exact ⟨_, hrest.head⟩
            | cons s ps => exact ⟨_, hrest.head⟩
          rw [hs] at hrest
          simp only [last, ha, Option.bind_some, hs]
          exact ih hrest (by simpa using hn)

/-- Following the links with enough steps reads the cells of the chain in order. -/
theorem cells_chain (h : IsChain next mem p ps) {n : Nat} (hn : ps.length ≤ n) :
    cells next mem n p = ps.filterMap fun q => mem[q]? := by
  induction ps generalizing p n with
  | nil =>
      cases n with
      | zero => rfl
      | succ n =>
          cases h
          rfl
  | cons q ps ih =>
      obtain ⟨rfl, a, ha, hrest⟩ := h
      cases n with
      | zero => simp at hn
      | succ n =>
          simp only [cells, ha, List.filterMap_cons]
          rw [ih hrest (by simpa using hn)]

/-- The search finds a cell of the chain and the one before it, or there is none. -/
theorem findBehind_chain (test : α → Bool) (h : IsChain next mem (some q) (q :: ps)) {n : Nat}
    (hn : ps.length ≤ n) :
    (findBehind next test mem n q = none ∧ ∀ s ∈ ps, (mem[s]?).any test = false) ∨
      ∃ front r s back, findBehind next test mem n q = some (r, s) ∧
        q :: ps = front ++ r :: s :: back ∧ (mem[s]?).any test = true ∧
        ∀ t ∈ front ++ [r], t = q ∨ (mem[t]?).any test = false := by
  induction ps generalizing q n with
  | nil =>
      obtain ⟨-, a, ha, hend⟩ := h
      refine .inl ⟨?_, by simp⟩
      cases n with
      | zero => rfl
      | succ n => simp [findBehind, ha, show next a = none from hend]
  | cons r ps ih =>
      obtain ⟨-, a, ha, hrest⟩ := h
      have hlink := hrest.head
      cases n with
      | zero => simp at hn
      | succ n =>
          simp only [findBehind, ha, Option.bind_some, hlink]
          cases htest : (mem[r]?).any test with
          | true =>
              refine .inr ⟨[], q, r, ps, rfl, rfl, htest, ?_⟩
              simp
          | false =>
              rw [hlink] at hrest
              rcases ih hrest (by simpa using hn) with
                ⟨hnone, hall⟩ | ⟨front, s, t, back, hfind, hps, ht, hbefore⟩
              · refine .inl ⟨hnone, ?_⟩
                simpa [htest] using hall
              · refine .inr ⟨q :: front, s, t, back, hfind, by rw [hps]; rfl, ht, ?_⟩
                intro u hu
                rcases List.mem_cons.1 hu with rfl | hu
                · exact .inl rfl
                · rcases hbefore u hu with rfl | hfalse
                  · exact .inr htest
                  · exact .inr hfalse

end

end Linked
