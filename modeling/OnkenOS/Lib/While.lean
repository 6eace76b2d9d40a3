import Mathlib.Tactic.TypeStar

/-!
# Loops that may fail

A loop whose rounds may fail, may leave the loop, or may go on, with a bound on the number of
rounds so that it is a function. `loop_spec` is its rule: an invariant, a measure that every round
makes smaller, and what a round that leaves establishes. A bound above the measure is never reached.
`loop_invariant` is the rule without a measure, for a loop that is known to end.
-/

namespace While

variable {σ ε : Type*}

/-- How a round ends. -/
inductive Round (σ : Type*) where
  | again (s : σ)
  | leave (s : σ)

/-- The state after a round, however it ends. -/
def Round.state : Round σ → σ
  | .again s | .leave s => s

/-- Rounds until one leaves or fails, `fuel` of them at most. -/
def loop (timeout : ε) (round : σ → Except ε (Round σ)) : Nat → σ → Except ε σ
  | 0, _ => .error timeout
  | fuel + 1, s =>
      match round s with
      | .error e => .error e
      | .ok (.leave s') => .ok s'
      | .ok (.again s') => loop timeout round fuel s'

/-- The rest of a computation after a step that does not fail. -/
theorem ok_bind {ρ : Type*} (a : σ) (f : σ → Except ε ρ) : (Except.ok a).bind f = f a := rfl

/-- A computation in two parts succeeds if both do. -/
theorem bind_eq_ok {ρ : Type*} {x : Except ε σ} {f : σ → Except ε ρ} {b : ρ}
    (h : x.bind f = .ok b) : ∃ a, x = .ok a ∧ f a = .ok b := by
  cases x with
  | error e => cases h
  | ok a => exact ⟨a, rfl, h⟩

section
variable {timeout : ε} {round : σ → Except ε (Round σ)} {s s' : σ} {fuel : Nat}

/-- A round that leaves ends the loop. -/
theorem loop_leave (h : round s = .ok (.leave s')) :
    loop timeout round (fuel + 1) s = .ok s' := by
  rw [loop, h]

/-- A round that goes on is followed by the others. -/
theorem loop_again (h : round s = .ok (.again s')) :
    loop timeout round (fuel + 1) s = loop timeout round fuel s' := by
  rw [loop, h]

/-- The rule of a loop: an invariant, and a measure that goes down with every round that goes on.
With more fuel than the measure the loop ends, in a state of `post`. -/
theorem loop_spec (inv : σ → Prop) (m : σ → Nat) (post : σ → Prop)
    (step : ∀ s, inv s → (∃ s', round s = .ok (.again s') ∧ inv s' ∧ m s' < m s) ∨
      ∃ s', round s = .ok (.leave s') ∧ post s')
    (hinv : inv s) (hfuel : m s < fuel) : ∃ s', loop timeout round fuel s = .ok s' ∧ post s' := by
  induction fuel generalizing s with
  | zero => exact absurd hfuel (Nat.not_lt_zero _)
  | succ fuel ih =>
      rcases step s hinv with ⟨s', hround, hinv', hlt⟩ | ⟨s', hround, hpost⟩
      · rw [loop_again hround]
        exact ih hinv' (by omega)
      · exact ⟨s', loop_leave hround, hpost⟩

/-- An invariant alone, for a loop that is known to end: it holds where the last round leaves. By
induction on the fuel. -/
theorem loop_invariant (inv post : σ → Prop)
    (again : ∀ s s', inv s → round s = .ok (.again s') → inv s')
    (leave : ∀ s s', inv s → round s = .ok (.leave s') → post s') (hinv : inv s)
    (h : loop timeout round fuel s = .ok s') : post s' := by
  induction fuel generalizing s with
  | zero => cases h
  | succ fuel ih =>
      cases hround : round s with
      | error e =>
          rw [loop, hround] at h
          cases h
      | ok r =>
          cases r with
          | again s₁ =>
              rw [loop_again hround] at h
              exact ih (again s s₁ hinv hround) h
          | leave s₁ =>
              rw [loop_leave hround] at h
              cases h
              exact leave s s' hinv hround

end

end While
