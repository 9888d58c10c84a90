import Trajectory.Proofs.Stepper.Bounds
import Trajectory.Proofs.Stepper.Evaluable

namespace Trajectory

variable {α ε : Type} [Scalar α]

theorem exists_clamp {low high : α} (h : low ≤ high) (v : α) :
    ∃ r, clamp (ε := ε) v low high = .ok r := ⟨_, if_pos h⟩

namespace Tolerance

theorem minFactor_le_maxFactor [Scalar.Comparable α] {t : Tolerance α} (h : t.validate = .ok ()) :
    t.minFactor ≤ t.maxFactor := by
  have hpassed := passed_of_validate h
  have hself {setting : String} {value : α} (hvalue : checkPositive setting value = .ok ()) :
      value ≤ value := Scalar.Comparable.le_self value (isFinite_of_checkPositive hvalue)
  exact Scalar.Comparable.le_of_not_lt _ _ (hself hpassed.minFactor) (hself hpassed.maxFactor)
    hpassed.factors

end Tolerance

namespace Stepper

theorem exists_stepFactor {t : Tolerance α} (h : t.minFactor ≤ t.maxFactor) (norm : α) :
    ∃ factor, stepFactor (ε := ε) t norm = .ok factor := by
  unfold stepFactor
  split
  · exact ⟨_, rfl⟩
  · split
    · exact ⟨_, rfl⟩
    · exact exists_clamp h _

theorem exists_errorNorm {y fifth fourth : List α} (hfifth : fifth.length = y.length)
    (hfourth : fourth.length = y.length) (t : Tolerance α) :
    ∃ norm, errorNorm (ε := ε) t y fifth fourth = .ok norm := by
  have hfirst : Checked.atLeast (ε := ε) y.length fifth.length = .ok () := if_pos hfifth.ge
  have hsecond : Checked.atLeast (ε := ε) y.length fourth.length = .ok () := if_pos hfourth.ge
  by_cases hempty : y.isEmpty = true
  · exact ⟨_, bind_eq_ok.mpr ⟨(), hfirst, bind_eq_ok.mpr ⟨(), hsecond, if_pos hempty⟩⟩⟩
  · exact ⟨_, bind_eq_ok.mpr ⟨(), hfirst, bind_eq_ok.mpr ⟨(), hsecond, if_neg hempty⟩⟩⟩

theorem exists_maxAbsDifference {fifth fourth : List α} (h : fifth.length = fourth.length) :
    ∃ norm, maxAbsDifference (ε := ε) fifth fourth = .ok norm :=
  ⟨_, bind_eq_ok.mpr ⟨(), if_pos h, rfl⟩⟩

end Stepper

theorem OdeSystem.step_ne_breach {s : OdeSystem α} {arg : String} {x h : α} {y : List α}
    (hy : y.length = s.size) (b : Breach) : s.step arg x y h ≠ .error (.breach b) := by
  intro hstep
  obtain ⟨dydx, _, heq⟩ := evaluate_of_size arg x hy
  rw [step_eq_error_iff, heq] at hstep
  cases hforeign : s.foreign? arg with
  | none =>
    rw [hforeign] at hstep
    cases hstep
  | some n =>
    rw [hforeign] at hstep
    cases hstep

namespace Controller

variable {c after : Controller α} {s : AcceptedStep α} {tries : Nat}

/-- The state has a slot for each variable, and all bounds are numbers in order. -/
structure Sound (c : Controller α) : Prop where
  size : c.y.length = c.system.size
  factors : c.tolerance.minFactor ≤ c.tolerance.maxFactor
  steps : c.minStep ≤ c.maxStep

theorem Sound.moves {d : Controller α} (h : c.Sound) (hmoves : c.Moves d)
    (hsize : d.y.length = d.system.size) : d.Sound := by
  refine ⟨hsize, hmoves.tolerance ▸ h.factors, ?_⟩
  rw [hmoves]
  exact h.steps

theorem Sound.rejected (h : c.Sound) {r : Rejection α} (hattempt : c.attempt = .rejected after r) :
    after.Sound := by
  refine h.moves (moves_of_rejected hattempt) ?_
  cases tried_of_eq hattempt with
  | rejected => exact h.size

theorem Sound.nextPair_ne (h : c.Sound) (b : Breach) : c.nextPair ≠ .error (.breach b) := by
  intro hpair
  unfold nextPair at hpair
  split at hpair
  next => cases hpair
  next =>
    cases hstep : c.system.step c.arg c.x c.y c.nextSize.1 with
    | ok pair =>
      rw [hstep] at hpair
      cases hpair
    | error f =>
      cases f with
      | breach b' => exact OdeSystem.step_ne_breach h.size b' hstep
      | cause e =>
        rw [hstep] at hpair
        cases hpair

theorem Sound.exists_judge (h : c.Sound) {pair : StepPair α} (hpair : c.nextPair = .ok pair) :
    ∃ norm factor, c.judge pair = .ok (norm, factor) := by
  obtain ⟨_, hfifth, hfourth⟩ := length_of_nextPair hpair
  obtain ⟨norm, hnorm⟩ := Stepper.exists_errorNorm (ε := SolverError α)
    (hfifth.trans h.size.symm) (hfourth.trans h.size.symm) c.tolerance
  obtain ⟨factor, hfactor⟩ := Stepper.exists_stepFactor (ε := SolverError α) h.factors norm
  exact ⟨norm, factor, bind_eq_ok.mpr ⟨norm, hnorm, bind_eq_ok.mpr ⟨factor, hfactor, rfl⟩⟩⟩

theorem Sound.exists_retrySize (h : c.Sound) (size factor : α) :
    ∃ next, c.retrySize size factor = .ok next := by
  obtain ⟨next, hnext⟩ := exists_clamp (ε := SolverError α) h.steps (size * factor)
  exact ⟨_, bind_eq_ok.mpr ⟨next, hnext, rfl⟩⟩

theorem attemptFixed_ne {pair : StepPair α} (hpair : c.nextPair = .ok pair)
    (size : α) (last : Bool) (b : Breach) :
    c.attemptFixed size last pair ≠ .failed after (.breach b) := by
  obtain ⟨_, hfifth, hfourth⟩ := length_of_nextPair hpair
  obtain ⟨norm, hnorm⟩ := Stepper.exists_maxAbsDifference (ε := SolverError α)
    (hfifth.trans hfourth.symm)
  unfold attemptFixed
  rw [hnorm]
  exact nofun

theorem Sound.attemptAdaptive_ne (h : c.Sound) {pair : StepPair α} (hpair : c.nextPair = .ok pair)
    (size : α) (last : Bool) (b : Breach) :
    c.attemptAdaptive size last pair ≠ .failed after (.breach b) := by
  obtain ⟨norm, factor, hjudge⟩ := h.exists_judge hpair
  obtain ⟨next, hnext⟩ := exists_clamp (ε := SolverError α) h.steps (size * factor)
  obtain ⟨retry, hretry⟩ := h.exists_retrySize size factor
  unfold judge at hjudge
  unfold attemptAdaptive
  rw [hjudge]
  dsimp only
  split
  · rw [hnext]
    exact nofun
  · split
    · exact nofun
    · rw [hretry]
      exact nofun

theorem Sound.attempt_ne (h : c.Sound) (b : Breach) : c.attempt ≠ .failed after (.breach b) := by
  rw [attempt_eq]
  cases hpair : c.nextPair with
  | error f =>
    intro hattempt
    cases hattempt
    exact h.nextPair_ne b hpair
  | ok pair =>
    dsimp only
    split
    · exact h.attemptAdaptive_ne hpair _ _ b
    · exact attemptFixed_ne hpair _ _ b

theorem Sound.outcome_ne (h : c.Sound) (b : Breach) :
    (c.advance tries).outcome ≠ .failure (.breach b) := by
  obtain ⟨last, hlast, hended⟩ : ∃ last, last.Sound ∧ Ended last (c.advance tries) :=
    exists_ended (I := Sound) h fun _ _ _ hd hattempt => hd.rejected hattempt
  intro houtcome
  cases hended with
  | step _ _ hstep => cases hstep.symm.trans houtcome
  | failure hattempt _ hfailure =>
    cases hfailure.symm.trans houtcome
    exact hlast.attempt_ne b hattempt
  | exhausted _ hexhausted => cases hexhausted.symm.trans houtcome

theorem Sound.advance (h : c.Sound) (houtcome : (c.advance tries).outcome = .step s) :
    (c.advance tries).controller.Sound :=
  h.moves (c.moves_advance tries) (evaluable_of_step houtcome).size

theorem Started.sound [Scalar.Comparable α] {system : OdeSystem α} {r : Range α} {t : Tolerance α}
    {y : List α} {adaptive : Bool} (h : Started system r t y adaptive c) (hr : r.Valid)
    (hsize : y.length = system.size) : c.Sound := by
  rw [h.fields]
  exact ⟨hsize, Tolerance.minFactor_le_maxFactor h.validated,
    Tolerance.minStep_le_maxStep h.validated hr h.steps⟩

end Controller

end Trajectory
