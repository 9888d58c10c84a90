import Trajectory.Proofs.OdeSystem.Step
import Trajectory.Proofs.Stepper.Advance

namespace Trajectory.Controller

variable {α : Type} [Scalar α] {c after : Controller α} {s : AcceptedStep α} {tries : Nat}

/-- The system can be evaluated where the controller stands. -/
def Evaluable (c : Controller α) : Prop := c.system.Evaluable c.arg c.y

/-- The next step would not move the argument and is given up before it is computed. -/
def lost (c : Controller α) : Bool := !c.nextSize.2 && Stepper.tooSmall c.x c.nextSize.1

theorem step_of_nextPair {pair : StepPair α} (h : c.nextPair = .ok pair) :
    c.system.step c.arg c.x c.y c.nextSize.1 = .ok pair := by
  unfold nextPair at h
  split at h
  next => cases h
  next => exact mapError_eq_ok.mp h

theorem length_of_nextPair {pair : StepPair α} (h : c.nextPair = .ok pair) :
    c.Evaluable ∧ pair.fifth.length = c.system.size ∧ pair.fourth.length = c.system.size := by
  have hstep := step_of_nextPair h
  have hc := OdeSystem.evaluable_of_step hstep
  obtain ⟨pair', hstep', hlengths⟩ := OdeSystem.exists_step (x := c.x) (h := c.nextSize.1) hc
  cases hstep.symm.trans hstep'
  exact ⟨hc, hlengths⟩

theorem nextPair_of_evaluable (hc : c.Evaluable) {f : Failure (SolverError α)}
    (h : c.nextPair = .error f) : f = c.convergence c.nextSize.1 := by
  obtain ⟨pair, hstep, _⟩ := OdeSystem.exists_step (x := c.x) (h := c.nextSize.1) hc
  unfold nextPair at h
  rw [hstep] at h
  split at h
  next => exact (Except.error.inj h).symm
  next => cases h

theorem evaluable_of_accepted (h : c.attempt = .accepted after s) : after.Evaluable := by
  cases tried_of_eq h with
  | fixed hpair _ =>
    obtain ⟨hc, hlength, _⟩ := length_of_nextPair hpair
    exact ⟨hlength, hc.bound⟩
  | adapted hpair _ _ _ _ =>
    obtain ⟨hc, hlength, _⟩ := length_of_nextPair hpair
    exact ⟨hlength, hc.bound⟩

theorem Evaluable.rejected (hc : c.Evaluable) {r : Rejection α}
    (h : c.attempt = .rejected after r) : after.Evaluable := by
  cases tried_of_eq h with
  | rejected => exact hc

theorem evaluable_of_step (h : (c.advance tries).outcome = .step s) :
    (c.advance tries).controller.Evaluable := by
  obtain ⟨last, _, hended⟩ := c.exists_last tries
  cases hended with
  | step hattempt hcontroller _ =>
    rw [hcontroller]
    exact evaluable_of_accepted hattempt
  | failure _ _ houtcome => simp [h] at houtcome
  | exhausted _ houtcome => simp [h] at houtcome

theorem Evaluable.outcome_ne (hc : c.Evaluable) (e : EvalError) :
    (c.advance tries).outcome ≠ .failure (.cause (.evaluation e)) := by
  intro h
  obtain ⟨last, hlast, hended⟩ : ∃ last, last.Evaluable ∧ Ended last (c.advance tries) :=
    exists_ended (I := Evaluable) hc fun _ _ _ hd hattempt => hd.rejected hattempt
  cases hended with
  | step _ _ houtcome => simp [h] at houtcome
  | failure hattempt _ houtcome =>
    rw [h] at houtcome
    cases houtcome
    cases tried_of_eq hattempt with
    | stopped hpair => cases nextPair_of_evaluable hlast hpair
  | exhausted _ houtcome => simp [h] at houtcome

/-- The error of a try that meets an unbound name, unless it is given up before. -/
def unboundError (c : Controller α) (n : String) : SolverError α :=
  if c.lost then .convergence c.x c.nextSize.1 c.minStep else .evaluation (.unbound n)

theorem advance_of_foreign {n : String} (hy : c.y.length = c.system.size)
    (hforeign : c.system.foreign? c.arg = some n) :
    c.advance (tries + 1) = ⟨c, [], .failure (.cause (c.unboundError n))⟩ := by
  have hvalue := OdeSystem.evaluate_of_foreign (x := c.x) hy hforeign
  have hpair : c.nextPair = .error (.cause (c.unboundError n)) := by
    unfold nextPair unboundError lost
    rw [OdeSystem.step_of_error hvalue]
    cases !c.nextSize.2 && Stepper.tooSmall c.x c.nextSize.1 with
    | true => rfl
    | false => rfl
  rw [advance, attempt_eq, hpair]

end Trajectory.Controller
