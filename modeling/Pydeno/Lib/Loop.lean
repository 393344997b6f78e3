import Mathlib

/-!
# Loops

`loop cond step` is `while cond(s) { s = step(s) }` with a bound on the
number of rounds. Three rules say what a proof about a loop needs: the
bound was enough when every round makes a measure smaller (`loop_done`,
`loop_done_of_invariant`), an
invariant of a round is an invariant of the loop (`loop_invariant`), and
two loops whose rounds simulate each other end in related states
(`loop_simulation`).
-/

namespace Pydeno

variable {σ τ : Type*}

/-- `while cond(s) { s = step(s) }`, for at most `fuel` rounds. -/
def loop (cond : σ → Bool) (step : σ → σ) : ℕ → σ → σ
  | 0, s => s
  | fuel + 1, s => if cond s then loop cond step fuel (step s) else s

/-- **The loop has ended**: enough rounds were allowed when each, from a
state of the invariant, makes the measure smaller. -/
theorem loop_done_of_invariant {cond : σ → Bool} {step : σ → σ} {P : σ → Prop} (measure : σ → ℕ)
    (hP : ∀ s, P s → cond s = true → P (step s))
    (hstep : ∀ s, P s → cond s = true → measure (step s) < measure s) : ∀ (fuel : ℕ) (s : σ),
    P s → measure s ≤ fuel → cond (loop cond step fuel s) = false := by
  intro fuel
  induction fuel with
  | zero =>
    intro s hs hm
    by_contra hc
    have := hstep s hs (by simpa [loop] using hc)
    omega
  | succ fuel ih =>
    intro s hs hm
    rw [loop]
    split
    next hc =>
      exact ih (step s) (hP s hs hc) (by have := hstep s hs hc; omega)
    next hc =>
      simpa using hc

theorem loop_done (cond : σ → Bool) (step : σ → σ) (measure : σ → ℕ)
    (hstep : ∀ s, cond s = true → measure (step s) < measure s) (fuel : ℕ) (s : σ)
    (hm : measure s ≤ fuel) : cond (loop cond step fuel s) = false :=
  loop_done_of_invariant (P := fun _ => True) measure (fun _ _ _ => trivial)
    (fun s _ => hstep s) fuel s trivial hm

/-- **Invariants of a round are invariants of the loop.** -/
theorem loop_invariant {cond : σ → Bool} {step : σ → σ} {P : σ → Prop}
    (hstep : ∀ s, P s → cond s = true → P (step s)) : ∀ (fuel : ℕ) (s : σ), P s →
    P (loop cond step fuel s) := by
  intro fuel
  induction fuel with
  | zero => intro s h; exact h
  | succ fuel ih =>
    intro s h
    rw [loop]
    split
    next hc =>
      exact ih (step s) (hstep s h hc)
    · exact h

/-- **Simulation**: related states agree on whether to go on, and a round
keeps them related. -/
theorem loop_simulation {cond : σ → Bool} {step : σ → σ} {cond' : τ → Bool} {step' : τ → τ}
    {R : σ → τ → Prop} (hcond : ∀ s t, R s t → cond s = cond' t)
    (hstep : ∀ s t, R s t → cond s = true → R (step s) (step' t)) : ∀ (fuel : ℕ) (s : σ) (t : τ),
    R s t → R (loop cond step fuel s) (loop cond' step' fuel t) := by
  intro fuel
  induction fuel with
  | zero => intro s t h; exact h
  | succ fuel ih =>
    intro s t h
    rw [loop, loop, ← hcond s t h]
    split
    next hc =>
      exact ih _ _ (hstep s t h hc)
    · exact h

end Pydeno
