import Mathlib.Algebra.Group.Nat.Defs
import Mathlib.Logic.Function.Basic
import Mathlib.Data.List.Basic
import Mathlib.Data.Set.Insert

/-!
# Counted loops over word arrays

An array is a function from indices to words. A counted loop is `forUp`; a loop that only
stores is a list of writes (`forUp_writes`), and what an array holds after a list of writes is
read off the list (`writes_of_mem`, `writes_of_not_mem`). A loop that stores one word everywhere
is described by the places it stores it at (`Paints`). `copyWords` is the word-by-word copy
loop, and `scanSpan` the scan for the first and the last accepted index of a row.
-/

namespace Words

variable {σ α κ : Type*}

/-! ## Counted loops -/

/-- `for (i = 0; i < n; i++) body(i)`. -/
def forUp : Nat → (Nat → σ → σ) → σ → σ
  | 0, _, s => s
  | n + 1, body, s => body n (forUp n body s)

@[simp] theorem forUp_succ (n : Nat) (body : Nat → σ → σ) (s : σ) :
    forUp (n + 1) body s = body n (forUp n body s) := rfl

/-- The rule of a counted loop: an invariant indexed by the iterations done. -/
theorem forUp_invariant {I : Nat → σ → Prop} {n : Nat} {body : Nat → σ → σ} {s : σ}
    (h₀ : I 0 s) (hstep : ∀ i t, i < n → I i t → I (i + 1) (body i t)) :
    I n (forUp n body s) := by
  induction n with
  | zero => exact h₀
  | succ n ih =>
      exact hstep n _ (Nat.lt_succ_self n) (ih fun i t hi => hstep i t (Nat.lt_succ_of_lt hi))

/-- Loops with the same rounds do the same. -/
theorem forUp_congr {n : Nat} {body body' : Nat → σ → σ} {s : σ}
    (h : ∀ i t, i < n → body i t = body' i t) : forUp n body s = forUp n body' s := by
  induction n with
  | zero => rfl
  | succ n ih =>
      rw [forUp_succ, forUp_succ, ih fun i t hi => h i t (Nat.lt_succ_of_lt hi),
        h n _ (Nat.lt_succ_self n)]

/-- A loop that only changes one component of the state is a loop on that component. -/
theorem forUp_component {β : Type*} (mk : β → σ) (body' : Nat → β → β) {n : Nat}
    {body : Nat → σ → σ} (h : ∀ i b, i < n → body i (mk b) = mk (body' i b)) (b : β) :
    forUp n body (mk b) = mk (forUp n body' b) := by
  induction n with
  | zero => rfl
  | succ n ih =>
      rw [forUp_succ, ih fun i b hi => h i b (Nat.lt_succ_of_lt hi), h n _ (Nat.lt_succ_self n),
        forUp_succ]

/-- The place `i` behind `p`, if the sum does not wrap. -/
theorem toNat_add_ofNat {w i : Nat} {p : BitVec w} (h : p.toNat + i < 2 ^ w) :
    (p + BitVec.ofNat w i).toNat = p.toNat + i := by
  rw [BitVec.toNat_add, BitVec.toNat_ofNat, Nat.add_mod_mod, Nat.mod_eq_of_lt h]

/-! ## Lists of writes -/

section
variable [DecidableEq κ]

/-- The array after the writes `l`, first to last. -/
def writes (l : List (κ × α)) (b : κ → α) : κ → α :=
  l.foldl (fun b p => Function.update b p.1 p.2) b

@[simp] theorem writes_nil (b : κ → α) : writes [] b = b := rfl

/-- The first write is done first. -/
theorem writes_cons (p : κ × α) (l : List (κ × α)) (b : κ → α) :
    writes (p :: l) b = writes l (Function.update b p.1 p.2) := rfl

/-- Some writes after others are all of them in order. -/
theorem writes_append (l m : List (κ × α)) (b : κ → α) :
    writes (l ++ m) b = writes m (writes l b) := List.foldl_append

/-- An index no write is at keeps its word. -/
theorem writes_of_not_mem {l : List (κ × α)} {k : κ} (h : ∀ v, (k, v) ∉ l) (b : κ → α) :
    writes l b k = b k := by
  induction l generalizing b with
  | nil => rfl
  | cons p l ih =>
      have hk : k ≠ p.1 := fun he => h p.2 (he ▸ List.mem_cons_self)
      rw [writes_cons, ih fun v hv => h v (List.mem_cons_of_mem _ hv),
        Function.update_of_ne hk]

/-- An index whose writes all store one word holds that word, in whatever order they are done. -/
theorem writes_of_mem {l : List (κ × α)} {k : κ} {v : α} (h : (k, v) ∈ l)
    (hf : ∀ v', (k, v') ∈ l → v' = v) (b : κ → α) : writes l b k = v := by
  induction l generalizing b with
  | nil => cases h
  | cons p l ih =>
      rw [writes_cons]
      by_cases hl : (k, v) ∈ l
      · exact ih hl (fun v' hv' => hf v' (List.mem_cons_of_mem _ hv')) _
      · have hp : p = (k, v) := ((List.mem_cons.1 h).resolve_right hl).symm
        have hnot : ∀ v', (k, v') ∉ l := by
          intro v' hv'
          have := hf v' (List.mem_cons_of_mem _ hv')
          exact hl (this ▸ hv')
        rw [writes_of_not_mem hnot, hp, Function.update_self]

/-- What an index holds whose writes are known: `o` is the word stored there, if any. -/
theorem writes_eq_getD {l : List (κ × α)} {k : κ} {o : Option α}
    (h : ∀ v, (k, v) ∈ l ↔ o = some v) (b : κ → α) : writes l b k = o.getD (b k) := by
  cases o with
  | none => exact writes_of_not_mem (fun v hv => nomatch (h v).1 hv) b
  | some v =>
      refine writes_of_mem ((h v).2 rfl) (fun v' hv' => ?_) b
      exact (Option.some.inj ((h v').1 hv')).symm

/-- A loop that only writes is a list of writes. -/
theorem forUp_writes (n : Nat) (f : Nat → List (κ × α)) (b : κ → α) :
    forUp n (fun i b => writes (f i) b) b = writes ((List.range n).flatMap f) b := by
  induction n with
  | zero => rfl
  | succ n ih =>
      rw [forUp_succ, ih, List.range_succ, List.flatMap_append, writes_append,
        List.flatMap_singleton]

/-! ## Writes over a grid -/

/-- Two nested loops that store `v x y` at `k x y` for `x < w` and `y < h`, row by row. -/
def fillGrid (w h : Nat) (k : Nat → Nat → κ) (v : Nat → Nat → α) (b : κ → α) : κ → α :=
  forUp h (fun y b => forUp w (fun x b => Function.update b (k x y) (v x y)) b) b

/-- The nested loops do the writes of their grid, row by row. -/
theorem fillGrid_eq_writes (w h : Nat) (k : Nat → Nat → κ) (v : Nat → Nat → α) (b : κ → α) :
    fillGrid w h k v b = writes ((List.range h).flatMap fun y =>
      (List.range w).flatMap fun x => [(k x y, v x y)]) b := by
  rw [← forUp_writes]
  exact forUp_congr fun y t _ => forUp_writes w (fun x => [(k x y, v x y)]) t

omit [DecidableEq κ] in
/-- The writes of a grid are those of its places. -/
theorem mem_gridWrites {w h : Nat} {k : Nat → Nat → κ} {v : Nat → Nat → α} {i : κ} {c : α} :
    (i, c) ∈ ((List.range h).flatMap fun y => (List.range w).flatMap fun x => [(k x y, v x y)]) ↔
      ∃ y x, y < h ∧ x < w ∧ i = k x y ∧ c = v x y := by
  simp only [List.mem_flatMap, List.mem_range, List.mem_singleton, Prod.mk.injEq]
  constructor
  · rintro ⟨y, hy, x, hx, he⟩
    exact ⟨y, x, hy, hx, he⟩
  · rintro ⟨y, x, hy, hx, he⟩
    exact ⟨y, hy, x, hx, he⟩

/-- A cell of the grid holds its word, if the cells stored at one place store one word. -/
theorem fillGrid_at {w h : Nat} {k : Nat → Nat → κ} {v : Nat → Nat → α} {x y : Nat}
    (hx : x < w) (hy : y < h)
    (hf : ∀ x' y', x' < w → y' < h → k x' y' = k x y → v x' y' = v x y) (b : κ → α) :
    fillGrid w h k v b (k x y) = v x y := by
  rw [fillGrid_eq_writes]
  refine writes_of_mem (mem_gridWrites.2 ⟨y, x, hy, hx, rfl, rfl⟩) (fun v' hv' => ?_) b
  obtain ⟨y', x', hy', hx', hk, rfl⟩ := mem_gridWrites.1 hv'
  exact hf x' y' hx' hy' hk.symm

/-- A place outside the grid is unchanged. -/
theorem fillGrid_of_ne {w h : Nat} {k : Nat → Nat → κ} {v : Nat → Nat → α} {i : κ}
    (hi : ∀ x y, x < w → y < h → i ≠ k x y) (b : κ → α) : fillGrid w h k v b i = b i := by
  rw [fillGrid_eq_writes]
  refine writes_of_not_mem (fun c hc => ?_) b
  obtain ⟨y, x, hy, hx, hk, -⟩ := mem_gridWrites.1 hc
  exact hi x y hx hy hk

end

/-! ## Painting -/

/-- `f` stores `c` at the places in `P` and changes nothing else. -/
structure Paints (P : Set κ) (c : α) (f : (κ → α) → κ → α) : Prop where
  at_mem : ∀ (b : κ → α) {k : κ}, k ∈ P → f b k = c
  of_not_mem : ∀ (b : κ → α) {k : κ}, k ∉ P → f b k = b k

/-- Doing nothing paints nothing. -/
theorem Paints.id (c : α) : Paints (∅ : Set κ) c fun b => b where
  at_mem _ _ hk := hk.elim
  of_not_mem _ _ _ := rfl

/-- A single store paints its place. -/
theorem Paints.update [DecidableEq κ] (i : κ) (c : α) :
    Paints {i} c fun b => Function.update b i c where
  at_mem b k hk := by rw [Set.mem_singleton_iff.1 hk, Function.update_self]
  of_not_mem b k hk := Function.update_of_ne hk c b

/-- A loop whose iterations paint paints all of their places, and changes nothing else. -/
theorem Paints.forUp {P : Nat → Set κ} {c : α} {f : Nat → (κ → α) → κ → α}
    (h : ∀ i, Paints (P i) c (f i)) (n : Nat) :
    Paints {k | ∃ i < n, k ∈ P i} c (Words.forUp n f) := by
  constructor
  · rintro b k ⟨i, hi, hk⟩
    induction n with
    | zero => omega
    | succ n ih =>
        rw [forUp_succ]
        by_cases hn : k ∈ P n
        · exact (h n).at_mem _ hn
        · have hlt : i ≠ n := fun he => hn (he ▸ hk)
          rw [(h n).of_not_mem _ hn]
          exact ih (by omega)
  · intro b k hk
    induction n with
    | zero => rfl
    | succ n ih =>
        have hn : k ∉ P n := fun hn => hk ⟨n, Nat.lt_succ_self n, hn⟩
        rw [forUp_succ, (h n).of_not_mem _ hn]
        exact ih fun ⟨i, hi, hki⟩ => hk ⟨i, Nat.lt_succ_of_lt hi, hki⟩

/-- A loop that paints each of its rounds in a colour of its own: a place has the colour of the last
round that paints it. -/
theorem Paints.forUp_of_mem {P : Nat → Set κ} {c : Nat → α} {f : Nat → (κ → α) → κ → α} {n j : Nat}
    {k : κ} (h : ∀ i, Paints (P i) (c i) (f i)) (hj : j < n) (hk : k ∈ P j)
    (hlast : ∀ i, j < i → i < n → k ∉ P i) (b : κ → α) : Words.forUp n f b k = c j := by
  induction n with
  | zero => exact absurd hj (Nat.not_lt_zero j)
  | succ n ih =>
      rw [forUp_succ]
      rcases Nat.lt_or_eq_of_le (Nat.le_of_lt_succ hj) with hlt | rfl
      · rw [(h n).of_not_mem _ (hlast n hlt (Nat.lt_succ_self n))]
        exact ih hlt fun i hi hin => hlast i hi (Nat.lt_succ_of_lt hin)
      · exact (h j).at_mem _ hk

/-- Two paintings in one colour are the same exactly when they paint the same places. -/
theorem Paints.eq_iff [Nontrivial α] {P Q : Set κ} {c : α} {f g : (κ → α) → κ → α}
    (hf : Paints P c f) (hg : Paints Q c g) : (∀ b, f b = g b) ↔ P = Q := by
  constructor
  · intro h
    obtain ⟨d, hd⟩ := exists_ne c
    -- on an array without the colour, the painted places are those that hold it
    have hmem : ∀ {R : Set κ} {e : (κ → α) → κ → α}, Paints R c e → ∀ k,
        k ∈ R ↔ e (fun _ => d) k = c := by
      intro R e he k
      refine ⟨fun hk => he.at_mem _ hk, fun hk => ?_⟩
      by_contra hnot
      exact hd ((he.of_not_mem _ hnot).symm.trans hk)
    ext k
    rw [hmem hf, hmem hg, h]
  · rintro rfl b
    funext k
    by_cases hk : k ∈ P
    · rw [hf.at_mem b hk, hg.at_mem b hk]
    · rw [hf.of_not_mem b hk, hg.of_not_mem b hk]

/-! ## Copies -/

/-- `while (n--) *d++ = *s++;` at the offsets `dOff` and `sOff`. -/
def copyWords (d s : Nat → α) (dOff sOff n : Nat) : Nat → α :=
  forUp n (fun i d => Function.update d (dOff + i) (s (sOff + i))) d

/-- Inside of the range a copied word comes from the source. -/
theorem copyWords_of_lt {d s : Nat → α} {dOff sOff n i : Nat} (h : i < n) :
    copyWords d s dOff sOff n (dOff + i) = s (sOff + i) := by
  unfold copyWords
  induction n with
  | zero => omega
  | succ n ih =>
      rw [forUp_succ]
      rcases Nat.lt_or_ge i n with hi | hi
      · rw [Function.update_of_ne (by omega), ih hi]
      · rw [show i = n by omega, Function.update_self]

/-- Outside of it nothing changes. -/
theorem copyWords_of_not_mem {d s : Nat → α} {dOff sOff n k : Nat}
    (h : k < dOff ∨ dOff + n ≤ k) : copyWords d s dOff sOff n k = d k := by
  unfold copyWords
  induction n with
  | zero => rfl
  | succ n ih => rw [forUp_succ, Function.update_of_ne (by omega), ih (by omega)]

/-- A copy between equal offsets takes the words of its range from the source and leaves the others.
-/
theorem copyWords_apply (d s : Nat → α) (off n k : Nat) :
    copyWords d s off off n k = if off ≤ k ∧ k < off + n then s k else d k := by
  split
  · next h =>
      obtain ⟨i, rfl⟩ := Nat.exists_eq_add_of_le h.1
      exact copyWords_of_lt (by omega)
  · next h => exact copyWords_of_not_mem (by omega)

/-! ## Copies inside one array -/

section
variable [DecidableEq κ] {d s : Nat → κ} {n : Nat}

/-- `for (i = 0; i < n; i++) b[d(i)] = b[s(i)];` -/
def copyWithin (d s : Nat → κ) (n : Nat) (b : κ → α) : κ → α :=
  forUp n (fun i b => Function.update b (d i) (b (s i))) b

/-- A place that is not a destination is unchanged. -/
theorem copyWithin_of_ne {k : κ} (hk : ∀ i, i < n → k ≠ d i) (b : κ → α) :
    copyWithin d s n b k = b k := by
  unfold copyWithin
  induction n with
  | zero => rfl
  | succ n ih =>
      rw [forUp_succ, Function.update_of_ne (hk n (Nat.lt_succ_self n)),
        ih fun i hi => hk i (Nat.lt_succ_of_lt hi)]

/-- A destination holds its source, if that is not a destination and no two of these are
equal. The other sources may be destinations. -/
theorem copyWithin_at {i : Nat} (hi : i < n) (hne : ∀ j, j < n → s i ≠ d j)
    (hinj : ∀ i j, i < n → j < n → d i = d j → i = j) (b : κ → α) :
    copyWithin d s n b (d i) = b (s i) := by
  induction n with
  | zero => omega
  | succ n ih =>
      have hsplit : copyWithin d s (n + 1) b =
          Function.update (copyWithin d s n b) (d n) (copyWithin d s n b (s n)) := rfl
      rw [hsplit]
      rcases Nat.lt_or_ge i n with h | h
      · have hdi : d i ≠ d n := fun he => by
          have := hinj i n hi (Nat.lt_succ_self n) he
          omega
        rw [Function.update_of_ne hdi]
        exact ih h (fun j hj => hne j (by omega)) (fun i j hi hj => hinj i j (by omega) (by omega))
      · obtain rfl : i = n := by omega
        rw [Function.update_self]
        exact copyWithin_of_ne (fun j hj => hne j (by omega)) b

end

/-! ## The span of a row -/

/-- The first and the last index below `n` that `p` accepts, with the sentinel `w` for the
first and `0` for the last: from `first = w` and `last = 0`,
`for (x = 0; x < n; x++) if (p(x)) { if (first == w) first = x; last = x; }`. -/
def scanSpan (p : Nat → Bool) (w n : Nat) : Nat × Nat :=
  forUp n (fun x fl => if p x then (if fl.1 = w then x else fl.1, x) else fl) (w, 0)

/-- The scan finds nothing and keeps the sentinel, or finds the span of the accepted
indices. -/
theorem scanSpan_spec (p : Nat → Bool) (w n : Nat) (hn : n ≤ w) :
    ((scanSpan p w n).1 = w ∧ ∀ x, x < n → p x = false) ∨
      (p (scanSpan p w n).1 = true ∧ p (scanSpan p w n).2 = true ∧
        (scanSpan p w n).1 ≤ (scanSpan p w n).2 ∧ (scanSpan p w n).2 < n ∧
        ∀ x, x < n → p x = true → (scanSpan p w n).1 ≤ x ∧ x ≤ (scanSpan p w n).2) := by
  induction n with
  | zero => exact .inl ⟨rfl, fun x hx => absurd hx (Nat.not_lt_zero x)⟩
  | succ n ih =>
      have hstep : scanSpan p w (n + 1) =
          if p n then (if (scanSpan p w n).1 = w then n else (scanSpan p w n).1, n)
          else scanSpan p w n := rfl
      rw [hstep]
      generalize scanSpan p w n = fl at ih
      have ih := ih (by omega)
      by_cases hp : p n = true
      · rw [if_pos hp]
        rcases ih with ⟨hw, hnone⟩ | ⟨hf, hl, hfl, hln, hall⟩
        · rw [if_pos hw]
          refine .inr ⟨hp, hp, Nat.le_refl n, Nat.lt_succ_self n, fun x hx hpx => ?_⟩
          have : ¬ x < n := fun hxn => by simp [hnone x hxn] at hpx
          omega
        · rw [if_neg (show fl.1 ≠ w by omega)]
          refine .inr ⟨hf, hp, by omega, Nat.lt_succ_self n, fun x hx hpx => ?_⟩
          rcases Nat.lt_or_ge x n with hxn | hxn
          · exact ⟨(hall x hxn hpx).1, by omega⟩
          · omega
      · rw [if_neg hp]
        have hp : p n = false := by simpa using hp
        rcases ih with ⟨hw, hnone⟩ | ⟨hf, hl, hfl, hln, hall⟩
        · refine .inl ⟨hw, fun x hx => ?_⟩
          rcases Nat.lt_or_ge x n with hxn | hxn
          · exact hnone x hxn
          · rw [show x = n by omega, hp]
        · refine .inr ⟨hf, hl, hfl, by omega, fun x hx hpx => ?_⟩
          rcases Nat.lt_or_ge x n with hxn | hxn
          · exact hall x hxn hpx
          · rw [show x = n by omega, hp] at hpx
            cases hpx

/-- An index lies in the span found exactly when it lies between two accepted ones. -/
theorem mem_scanSpan_iff (p : Nat → Bool) (w x : Nat) :
    ((scanSpan p w w).1 < w ∧ (scanSpan p w w).1 ≤ x ∧ x ≤ (scanSpan p w w).2) ↔
      ∃ x₁ x₂, x₁ ≤ x ∧ x ≤ x₂ ∧ x₂ < w ∧ p x₁ = true ∧ p x₂ = true := by
  rcases scanSpan_spec p w w (Nat.le_refl w) with ⟨hw, hnone⟩ | ⟨hf, hl, hfl, hlw, hall⟩
  · constructor
    · intro h
      omega
    · rintro ⟨x₁, x₂, -, -, hx₂, -, hp₂⟩
      rw [hnone x₂ hx₂] at hp₂
      cases hp₂
  · constructor
    · rintro ⟨-, h₁, h₂⟩
      exact ⟨_, _, h₁, h₂, hlw, hf, hl⟩
    · rintro ⟨x₁, x₂, h₁, h₂, hx₂, hp₁, hp₂⟩
      have hx₁ := hall x₁ (by omega) hp₁
      have hx₂ := hall x₂ hx₂ hp₂
      omega

end Words
