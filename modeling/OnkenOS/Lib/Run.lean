import Mathlib.Data.List.Basic

/-!
# Runs of a deterministic machine

A machine is a step function `σ → ε → σ`; a run folds it over a list of events. The rules
below are the ones every safety argument uses: an invariant kept by each step is kept by the
run, an invariant kept by the steps that meet a guard is kept by the runs all of whose steps
meet it, and a simulation of steps is a simulation of runs.
-/

namespace Machine

variable {σ ε : Type*}

/-- The state after the events `es`, taken left to right. -/
def run (step : σ → ε → σ) (s : σ) (es : List ε) : σ := es.foldl step s

@[simp] theorem run_nil (step : σ → ε → σ) (s : σ) : run step s [] = s := rfl

@[simp] theorem run_cons (step : σ → ε → σ) (s : σ) (e : ε) (es : List ε) :
    run step s (e :: es) = run step (step s e) es := rfl

/-- A run of some events and then of others is a run of all of them. -/
@[simp] theorem run_append (step : σ → ε → σ) (s : σ) (es fs : List ε) :
    run step s (es ++ fs) = run step (run step s es) fs := List.foldl_append

/-- `s` is the state of some run from `s₀`. -/
def Reachable (step : σ → ε → σ) (s₀ s : σ) : Prop := ∃ es, run step s₀ es = s

/-- The start is reached, by no events. -/
theorem Reachable.refl (step : σ → ε → σ) (s₀ : σ) : Reachable step s₀ s₀ := ⟨[], rfl⟩

/-- One event more reaches the next state. -/
theorem Reachable.step {step : σ → ε → σ} {s₀ s : σ} (h : Reachable step s₀ s) (e : ε) :
    Reachable step s₀ (step s e) := by
  obtain ⟨es, rfl⟩ := h
  exact ⟨es ++ [e], by simp⟩

/-- An invariant of the steps is an invariant of the runs. -/
theorem run_invariant {step : σ → ε → σ} {Inv : σ → Prop}
    (hstep : ∀ s e, Inv s → Inv (step s e)) :
    ∀ (es : List ε) {s : σ}, Inv s → Inv (run step s es)
  | [], _, h => h
  | e :: es, s, h => run_invariant hstep es (hstep s e h)

/-- What holds at the start and is kept by every step holds of every state that is reached. -/
theorem Reachable.invariant {step : σ → ε → σ} {Inv : σ → Prop} {s₀ s : σ}
    (hr : Reachable step s₀ s) (h₀ : Inv s₀) (hstep : ∀ s e, Inv s → Inv (step s e)) :
    Inv s := by
  obtain ⟨es, rfl⟩ := hr
  exact run_invariant hstep es h₀

/-! ## Guarded runs -/

/-- Every step of the run of `es` from `s` is taken in a state that meets the guard. -/
def RunOk (step : σ → ε → σ) (ok : σ → ε → Prop) : σ → List ε → Prop
  | _, [] => True
  | s, e :: es => ok s e ∧ RunOk step ok (step s e) es

@[simp] theorem RunOk_nil (step : σ → ε → σ) (ok : σ → ε → Prop) (s : σ) :
    RunOk step ok s [] := trivial

@[simp] theorem RunOk_cons (step : σ → ε → σ) (ok : σ → ε → Prop) (s : σ) (e : ε)
    (es : List ε) : RunOk step ok s (e :: es) ↔ ok s e ∧ RunOk step ok (step s e) es := Iff.rfl

/-- A guard is met along a run exactly if it is along its first part and along the rest. -/
theorem RunOk_append {step : σ → ε → σ} {ok : σ → ε → Prop} :
    ∀ (es fs : List ε) {s : σ},
      RunOk step ok s (es ++ fs) ↔ RunOk step ok s es ∧ RunOk step ok (run step s es) fs
  | [], _, _ => (and_iff_right trivial).symm
  | e :: es, fs, s => by
      rw [List.cons_append, RunOk_cons, RunOk_cons, RunOk_append es fs, run_cons, and_assoc]

/-- A guard on the events alone is met along a run exactly if every event meets it, in whatever
states. -/
theorem RunOk_iff_forall_mem {step : σ → ε → σ} {p : ε → Prop} :
    ∀ {es : List ε} {s : σ}, RunOk step (fun _ e => p e) s es ↔ ∀ e ∈ es, p e
  | [], _ => iff_of_true trivial fun _ he => nomatch he
  | e :: es, s => by rw [RunOk_cons, RunOk_iff_forall_mem, List.forall_mem_cons]

/-- An invariant kept by every step that meets the guard is an invariant of the guarded
runs. -/
theorem run_invariant_of_ok {step : σ → ε → σ} {ok : σ → ε → Prop} (Inv : σ → Prop)
    (hstep : ∀ s e, Inv s → ok s e → Inv (step s e)) :
    ∀ (es : List ε) {s : σ}, Inv s → RunOk step ok s es → Inv (run step s es)
  | [], _, h, _ => h
  | e :: es, s, h, hok => run_invariant_of_ok Inv hstep es (hstep s e h hok.1) hok.2

/-- A guard that implies another one on the states of an invariant it keeps. -/
theorem RunOk_imp {step : σ → ε → σ} {ok ok' : σ → ε → Prop} (Inv : σ → Prop)
    (hstep : ∀ s e, Inv s → ok s e → Inv (step s e) ∧ ok' s e) :
    ∀ (es : List ε) {s : σ}, Inv s → RunOk step ok s es → RunOk step ok' s es
  | [], _, _, _ => trivial
  | e :: es, s, h, hok =>
      ⟨(hstep s e h hok.1).2, RunOk_imp Inv hstep es (hstep s e h hok.1).1 hok.2⟩

/-- A property that a step keeps exactly when it meets the guard, and that no step restores:
the run ends in it exactly when it starts in it and every step meets the guard. -/
theorem run_iff_runOk {step : σ → ε → σ} {ok : σ → ε → Prop} {P : σ → Prop} (Inv : σ → Prop)
    (hstep : ∀ s e, Inv s → Inv (step s e)) (hP : ∀ s e, Inv s → (P (step s e) ↔ P s ∧ ok s e)) :
    ∀ (es : List ε) {s : σ}, Inv s → (P (run step s es) ↔ P s ∧ RunOk step ok s es)
  | [], _, _ => (and_iff_left trivial).symm
  | e :: es, s, h => by
      rw [run_cons, RunOk_cons, run_iff_runOk Inv hstep hP es (hstep s e h), hP s e h, and_assoc]

/-- Two guards that agree on the states of an invariant accept the same runs, if the steps that
they accept keep the invariant. -/
theorem RunOk_congr_of_ok {step : σ → ε → σ} {ok ok' : σ → ε → Prop} (Inv : σ → Prop)
    (hok : ∀ s e, Inv s → (ok s e ↔ ok' s e)) (hstep : ∀ s e, Inv s → ok' s e → Inv (step s e)) :
    ∀ (es : List ε) {s : σ}, Inv s → (RunOk step ok s es ↔ RunOk step ok' s es)
  | [], _, _ => Iff.rfl
  | e :: es, s, h => by
      rw [RunOk_cons, RunOk_cons, hok s e h]
      exact and_congr_right fun he => RunOk_congr_of_ok Inv hok hstep es (hstep s e h he)

/-- Two guards that agree on the states of an invariant accept the same runs. -/
theorem RunOk_congr {step : σ → ε → σ} {ok ok' : σ → ε → Prop} (Inv : σ → Prop)
    (hstep : ∀ s e, Inv s → Inv (step s e)) (hok : ∀ s e, Inv s → (ok s e ↔ ok' s e))
    (es : List ε) {s : σ} (h : Inv s) : RunOk step ok s es ↔ RunOk step ok' s es :=
  RunOk_congr_of_ok Inv hok (fun s e hs _ => hstep s e hs) es h

/-- A property that a step keeps exactly when it meets the guard holds after every step of a run
exactly when every step meets the guard. -/
theorem RunOk_keeps_iff {step : σ → ε → σ} {ok : σ → ε → Prop} {P : σ → Prop}
    (hP : ∀ s e, P s → (P (step s e) ↔ ok s e)) (es : List ε) {s : σ} (h : P s) :
    RunOk step (fun s e => P (step s e)) s es ↔ RunOk step ok s es :=
  RunOk_congr_of_ok P hP (fun s e hs hok => (hP s e hs).2 hok) es h

/-! ## Simulation -/

/-- A relation that the matching steps of two machines keep relates the ends of their runs
on the same events. -/
theorem run_simulation {τ : Type*} {step : σ → ε → σ} {step' : τ → ε → τ}
    {R : σ → τ → Prop} (hstep : ∀ s t e, R s t → R (step s e) (step' t e)) :
    ∀ (es : List ε) {s : σ} {t : τ}, R s t → R (run step s es) (run step' t es)
  | [], _, _, h => h
  | e :: es, s, t, h => run_simulation hstep es (hstep s t e h)

/-! ## Runs of a coarser machine -/

/-- The events of another machine that the events `es` stand for, each read in the state it
happens in. -/
def expand {ε' : Type*} (step : σ → ε → σ) (f : σ → ε → List ε') : σ → List ε → List ε'
  | _, [] => []
  | s, e :: es => f s e ++ expand step f (step s e) es

section
variable {τ ε' : Type*} {step : σ → ε → σ} {step' : τ → ε' → τ} {f : σ → ε → List ε'}
  {abs : σ → τ}

/-- A machine whose every step is a run of another one. -/
theorem run_expand (h : ∀ s e, run step' (abs s) (f s e) = abs (step s e)) :
    ∀ (es : List ε) (s : σ), run step' (abs s) (expand step f s es) = abs (run step s es)
  | [], _ => rfl
  | e :: es, s => by rw [expand, run_append, h, run_expand h es, run_cons]

/-- If every event does what its events in the other machine do and is allowed where they are, a run
is allowed exactly if the run it stands for is. -/
theorem RunOk_expand {ok : σ → ε → Prop} {ok' : τ → ε' → Prop}
    (h : ∀ s e, run step' (abs s) (f s e) = abs (step s e))
    (hok : ∀ s e, RunOk step' ok' (abs s) (f s e) ↔ ok s e) :
    ∀ (es : List ε) (s : σ), RunOk step' ok' (abs s) (expand step f s es) ↔ RunOk step ok s es
  | [], _ => Iff.rfl
  | e :: es, s => by
      rw [expand, RunOk_append, h, hok, RunOk_cons, RunOk_expand h hok es]

end

end Machine
