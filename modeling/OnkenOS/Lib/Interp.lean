import Mathlib.Data.List.Forall2

/-!
# Programs of commands

A command changes a state and puts something out; a program is a list of commands. Triples say what
holds of the state and of the output behind a program, and an interpreter that refines each command
refines the programs and inherits their triples.
-/

namespace Interp

variable {σ κ ω : Type*}

/-- The state behind a program, and its output. -/
def run (exec : σ → κ → σ × List ω) : σ → List κ → σ × List ω
  | s, [] => (s, [])
  | s, c :: cs => ((run exec (exec s c).1 cs).1, (exec s c).2 ++ (run exec (exec s c).1 cs).2)

/-- From every state of `P` the program comes to a state and an output of `Q`. -/
def Triple (exec : σ → κ → σ × List ω) (P : σ → Prop) (cs : List κ) (Q : σ → List ω → Prop) :
    Prop := ∀ s, P s → Q (run exec s cs).1 (run exec s cs).2

section
variable {exec : σ → κ → σ × List ω} {P P' : σ → Prop} {Q Q' R : σ → List ω → Prop}
  {c : κ} {cs ds : List κ}

@[simp] theorem run_singleton (exec : σ → κ → σ × List ω) (s : σ) (c : κ) :
    run exec s [c] = exec s c := by
  simp [run]

/-- A program in two parts does the first part and then the second, and puts out what both do. -/
theorem run_append (exec : σ → κ → σ × List ω) (s : σ) (cs ds : List κ) :
    run exec s (cs ++ ds) =
      ((run exec (run exec s cs).1 ds).1,
        (run exec s cs).2 ++ (run exec (run exec s cs).1 ds).2) := by
  induction cs generalizing s with
  | nil => rfl
  | cons c cs ih => simp [run, ih]

/-! ## Rules -/

/-- The rule of a single command. -/
theorem Triple.command (h : ∀ s, P s → Q (exec s c).1 (exec s c).2) : Triple exec P [c] Q := by
  intro s hs
  rw [run_singleton]
  exact h s hs

/-- The rule of sequence: one program behind another, where the second may rely on what the first
put out. -/
theorem Triple.seq (hfirst : Triple exec P cs R)
    (hsecond : ∀ out, Triple exec (fun s => R s out) ds fun s out' => Q s (out ++ out')) :
    Triple exec P (cs ++ ds) Q := by
  intro s hs
  rw [run_append]
  exact hsecond _ _ (hfirst s hs)

/-- The rule of consequence. -/
theorem Triple.conseq (h : Triple exec P cs Q) (hP : ∀ s, P' s → P s)
    (hQ : ∀ s out, Q s out → Q' s out) : Triple exec P' cs Q' :=
  fun s hs => hQ _ _ (h s (hP s hs))

/-- What every command of a program keeps, the program keeps. -/
theorem Triple.keep (h : ∀ c ∈ cs, ∀ s, P s → P (exec s c).1) :
    Triple exec P cs fun s _ => P s := by
  induction cs with
  | nil => exact fun s hs => hs
  | cons c cs ih =>
      intro s hs
      exact ih (fun d hd => h d (.tail c hd)) _ (h c (.head cs) s hs)

end

/-! ## Refinement -/

section
variable {σ' κ' : Type*} {exec : σ → κ → σ × List ω} {exec' : σ' → κ' → σ' × List ω}
  {R : σ' → σ → Prop} {reads : κ' → κ → Prop}

/-- An interpreter that refines each command refines the programs: the states stay related, and the
outputs are the same. By induction on the program. -/
theorem run_refines
    (hstep : ∀ s t k c, R s t → reads k c →
      R (exec' s k).1 (exec t c).1 ∧ (exec' s k).2 = (exec t c).2)
    {ks : List κ'} {cs : List κ} (hreads : List.Forall₂ reads ks cs) :
    ∀ {s : σ'} {t : σ}, R s t →
      R (run exec' s ks).1 (run exec t cs).1 ∧ (run exec' s ks).2 = (run exec t cs).2 := by
  induction hreads with
  | nil => exact fun h => ⟨h, rfl⟩
  | cons hread _ ih =>
      intro s t h
      obtain ⟨hstate, hout⟩ := hstep s t _ _ h hread
      obtain ⟨hstates, houts⟩ := ih hstate
      refine ⟨hstates, ?_⟩
      rw [run, run, hout, houts]

/-- What is proved of the programs holds of the interpreter. -/
theorem Triple.refines {P : σ → Prop} {Q : σ → List ω → Prop} {ks : List κ'} {cs : List κ}
    (h : Triple exec P cs Q)
    (hstep : ∀ s t k c, R s t → reads k c →
      R (exec' s k).1 (exec t c).1 ∧ (exec' s k).2 = (exec t c).2)
    (hreads : List.Forall₂ reads ks cs) :
    Triple exec' (fun s => ∃ t, R s t ∧ P t) ks fun s out => ∃ t, R s t ∧ Q t out := by
  rintro s ⟨t, hst, ht⟩
  obtain ⟨hstate, hout⟩ := run_refines hstep hreads hst
  exact ⟨_, hstate, hout ▸ h t ht⟩

end

end Interp
