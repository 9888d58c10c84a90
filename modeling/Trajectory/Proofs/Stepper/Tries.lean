import Trajectory.Proofs.Stepper.Evaluable
import Trajectory.Proofs.Stepper.Termination

namespace Trajectory.Controller

variable {α : Type} [Scalar α] {c d after : Controller α} {s : AcceptedStep α} {r : Rejection α}
  {pair : StepPair α} {tries : Nat}

/-- The next step has an error that is too large. -/
def refuses (c : Controller α) : Bool :=
  c.adaptive && match c.nextPair >>= c.judge with
    | .ok (norm, _) => !decide (norm ≤ Scalar.one)
    | .error _ => false

/-- The controllers that make the tries for a step, the first one first. -/
def triers : Nat → Controller α → List (Controller α)
  | 0, _ => []
  | tries + 1, c => c :: match c.attempt with
    | .rejected after _ => triers tries after
    | _ => []

/-- The second controller stands where the first one does. -/
structure Stands (c d : Controller α) : Prop where
  x : d.x = c.x
  y : d.y = c.y
  accepted : d.accepted = c.accepted

/-- A step from one controller to another: what is reported of it, and its two results. -/
structure Made (c : Controller α) (s : AcceptedStep α) (pair : StepPair α) (d : Controller α) :
    Prop where
  accepted : d.accepted = c.accepted + 1
  step : c.system.step c.arg c.x c.y s.size = .ok pair
  y : d.y = pair.fifth
  /-- The step that lands on the end is the whole rest of the range. -/
  x : d.x = c.x + s.size ∨ d.x = c.finish ∧ s.size = c.finish - c.x
  reported : s.x = d.x
  norm : c.adaptive = true → s.errorNorm ≤ Scalar.one ∧
    Stepper.errorNorm (ε := SolverError α) c.tolerance c.y pair.fifth pair.fourth = .ok s.errorNorm

section Attempt

omit [Scalar α] in
theorem Stands.refl (c : Controller α) : Stands c c := ⟨rfl, rfl, rfl⟩

omit [Scalar α] in
theorem Stands.trans {e : Controller α} (hcd : Stands c d) (hde : Stands d e) : Stands c e :=
  ⟨hde.x.trans hcd.x, hde.y.trans hcd.y, hde.accepted.trans hcd.accepted⟩

theorem stands_of_rejected (h : c.attempt = .rejected after r) : Stands c after := by
  cases tried_of_eq h with
  | rejected => exact ⟨rfl, rfl, rfl⟩

theorem stands_of_failed {f : Failure (SolverError α)} (h : c.attempt = .failed after f) :
    Stands c after := by
  cases tried_of_eq h with
  | stopped => exact .refl c
  | least => exact ⟨rfl, rfl, rfl⟩
  | breach hafter =>
    rw [hafter]
    exact ⟨rfl, rfl, rfl⟩

theorem place_moved (c : Controller α) (y : List α) :
    let after := c.moved c.nextSize.1 c.nextSize.2 y
    after.x = c.x + c.nextSize.1 ∨ after.x = c.finish ∧ c.nextSize.1 = c.finish - c.x := by
  cases hlast : c.nextSize.2 with
  | true => exact .inr ⟨rfl, (nextSize_of_last hlast).1⟩
  | false => exact .inl rfl

theorem made_of_accepted (h : c.attempt = .accepted after s) : ∃ pair, Made c s pair after := by
  cases tried_of_eq h with
  | @fixed pair _ hpair hmode =>
    refine ⟨pair, rfl, step_of_nextPair hpair, rfl, place_moved c pair.fifth, rfl, ?_⟩
    simp [hmode]
  | @adapted pair _ _ _ hpair _ hjudge hnorm _ =>
    obtain ⟨_, herror, hjudge⟩ := bind_eq_ok.mp hjudge
    obtain ⟨_, _, hjudge⟩ := bind_eq_ok.mp hjudge
    cases hjudge
    exact ⟨pair, rfl, step_of_nextPair hpair, rfl, place_moved c pair.fifth, rfl,
      fun _ => ⟨hnorm, herror⟩⟩

theorem Made.of_stands (hmoves : Moves c d) (hstands : Stands c d) (h : Made d s pair after) :
    Made c s pair after := by
  obtain ⟨haccepted, hstep, hy, hx, hreported, hnorm⟩ := h
  have hfinish := hmoves.finish
  have htolerance := hmoves.tolerance
  have hsystem := hmoves.system
  have harg : d.arg = c.arg := by rw [hmoves]
  have hmode : d.adaptive = c.adaptive := by rw [hmoves]
  rw [hsystem, harg, hstands.x, hstands.y] at hstep
  rw [hstands.x, hfinish] at hx
  rw [hmode, htolerance, hstands.y] at hnorm
  exact ⟨haccepted.trans (by rw [hstands.accepted]), hstep, hy, hx, hreported, hnorm⟩

theorem x_of_convergence {x size least : α}
    (h : c.attempt = .failed after (.cause (.convergence x size least))) : x = c.x := by
  cases tried_of_eq h with
  | least => rfl
  | stopped hpair =>
    unfold nextPair at hpair
    split at hpair
    next =>
      cases hpair
      rfl
    next =>
      cases hstep : c.system.step c.arg c.x c.y c.nextSize.1 with
      | ok pair =>
        rw [hstep] at hpair
        cases hpair
      | error f =>
        rw [hstep] at hpair
        cases f <;> cases hpair

/-- A try counts as rejected if the error is too large, also where no further one follows. -/
theorem rejected_attempt (c : Controller α) :
    c.attempt.controller.rejected = c.rejected + if c.refuses then 1 else 0 := by
  rw [attempt_eq]
  unfold refuses
  cases hpair : c.nextPair with
  | error f =>
    cases c.adaptive <;> rfl
  | ok pair =>
    cases hmode : c.adaptive with
    | false =>
      simp only [Bool.false_eq_true, if_false, Bool.false_and]
      unfold attemptFixed
      split <;> rfl
    | true =>
      simp only [if_true, Bool.true_and]
      unfold attemptAdaptive
      rw [show (do
          let norm ← Stepper.errorNorm c.tolerance c.y pair.fifth pair.fourth
          let factor ← Stepper.stepFactor c.tolerance norm
          pure (norm, factor)) = c.judge pair from rfl]
      have hjudged : (Except.ok pair >>= c.judge) = c.judge pair := rfl
      rw [hjudged]
      cases c.judge pair with
      | error f => rfl
      | ok judged =>
        obtain ⟨norm, factor⟩ := judged
        by_cases hnorm : norm ≤ Scalar.one
        · simp only [hnorm, if_true, decide_true, Bool.not_true, Bool.false_eq_true, if_false]
          split <;> rfl
        · simp only [hnorm, if_false, decide_false, Bool.not_false, if_true]
          split
          · rfl
          · split <;> rfl

theorem refuses_of_rejected (h : c.attempt = .rejected after r) : c.refuses = true := by
  have hcount := c.rejected_attempt
  rw [h] at hcount
  cases tried_of_eq h with
  | rejected =>
    by_contra hrefuses
    rw [if_neg hrefuses] at hcount
    exact absurd hcount (Nat.succ_ne_self _)

theorem ne_accepted_of_refuses (h : c.refuses = true) : c.attempt ≠ .accepted after s := by
  intro hattempt
  have hcount := c.rejected_attempt
  rw [hattempt, if_pos h] at hcount
  cases tried_of_eq hattempt with
  | fixed => exact absurd hcount.symm (Nat.succ_ne_self _)
  | adapted => exact absurd hcount.symm (Nat.succ_ne_self _)

end Attempt

section Advance

theorem rejected_advance (c : Controller α) (tries : Nat) :
    (c.advance tries).controller.rejected = c.rejected + (c.triers tries).countP refuses := by
  induction tries generalizing c with
  | zero => rfl
  | succ tries ih =>
    have hcount := c.rejected_attempt
    rw [advance, triers, List.countP_cons]
    cases hattempt : c.attempt with
    | accepted after s =>
      rw [hattempt] at hcount
      dsimp only [Attempt.controller] at hcount ⊢
      rw [hcount, List.countP_nil, Nat.zero_add]
    | failed after f =>
      rw [hattempt] at hcount
      dsimp only [Attempt.controller] at hcount ⊢
      rw [hcount, List.countP_nil, Nat.zero_add]
    | rejected after r =>
      rw [hattempt] at hcount
      dsimp only [Attempt.controller] at hcount ⊢
      rw [ih, hcount]
      omega

/-- The last try is made by a controller that stands where the first one did. -/
theorem exists_last_standing (c : Controller α) (tries : Nat) :
    ∃ last, (Moves c last ∧ Stands c last) ∧ Ended last (c.advance tries) :=
  exists_ended ⟨.refl c, .refl c⟩ fun _ _ _ hd hattempt =>
    ⟨hd.1.trans (moves_of_rejected hattempt), hd.2.trans (stands_of_rejected hattempt)⟩

theorem made_of_step (h : (c.advance tries).outcome = .step s) :
    ∃ pair, Made c s pair (c.advance tries).controller := by
  obtain ⟨last, ⟨hmoves, hstands⟩, hended⟩ := c.exists_last_standing tries
  cases hended with
  | step hattempt hcontroller houtcome =>
    rw [h] at houtcome
    cases houtcome
    obtain ⟨pair, hmade⟩ := made_of_accepted hattempt
    rw [hcontroller]
    exact ⟨pair, hmade.of_stands hmoves hstands⟩
  | failure _ _ houtcome => simp [h] at houtcome
  | exhausted _ houtcome => simp [h] at houtcome

theorem stands_of_failure {f : Failure (SolverError α)} (h : (c.advance tries).outcome = .failure f) :
    Stands c (c.advance tries).controller ∧
      ∀ x size least, f = .cause (.convergence x size least) → x = c.x := by
  obtain ⟨last, ⟨_, hstands⟩, hended⟩ := c.exists_last_standing tries
  cases hended with
  | step _ _ houtcome => simp [h] at houtcome
  | failure hattempt hcontroller houtcome =>
    rw [h] at houtcome
    cases houtcome
    rw [hcontroller]
    refine ⟨hstands.trans (stands_of_failed hattempt), ?_⟩
    rintro x size least rfl
    exact (x_of_convergence hattempt).trans hstands.x
  | exhausted _ houtcome => simp [h] at houtcome

theorem refuses_of_fixed (hmode : c.adaptive = false) : c.refuses = false := by
  rw [refuses, hmode, Bool.false_and]

theorem fixed_advance (hmode : c.adaptive = false) (tries : Nat) :
    (c.advance tries).controller.h = c.h ∧ (c.advance tries).controller.rejected = c.rejected := by
  have hsize : c.attempt.controller.h = c.h := by
    have htried := c.tried
    generalize c.attempt = a at htried
    cases htried with
    | stopped => rfl
    | fixed => rfl
    | adapted _ hadaptive => cases hmode.symm.trans hadaptive
    | rejected _ hadaptive => cases hmode.symm.trans hadaptive
    | least hadaptive => cases hmode.symm.trans hadaptive
    | breach hafter =>
      rw [hafter]
      rfl
  have hcount := c.rejected_attempt
  rw [refuses_of_fixed hmode] at hcount
  cases tries with
  | zero => exact ⟨rfl, rfl⟩
  | succ tries =>
    rw [advance]
    cases hattempt : c.attempt with
    | accepted after s =>
      rw [hattempt] at hsize hcount
      exact ⟨hsize, hcount⟩
    | failed after f =>
      rw [hattempt] at hsize hcount
      exact ⟨hsize, hcount⟩
    | rejected after r =>
      have hrefuses := refuses_of_rejected hattempt
      rw [refuses_of_fixed hmode] at hrefuses
      cases hrefuses

/-- A step is made as a whole or not at all, however many tries are rejected before. -/
theorem advance_atomic (c : Controller α) (tries : Nat) :
    (∀ s, (c.advance tries).outcome = .step s →
      ∃ pair, Made c s pair (c.advance tries).controller) ∧
    (∀ f, (c.advance tries).outcome = .failure f → Stands c (c.advance tries).controller ∧
      ∀ x size least, f = .cause (.convergence x size least) → x = c.x) ∧
    (c.advance tries).controller.rejected = c.rejected + (c.triers tries).countP refuses ∧
    (c.adaptive = false → (c.advance tries).controller.h = c.h ∧
      (c.advance tries).controller.rejected = c.rejected) :=
  ⟨fun _ => made_of_step, fun _ => stands_of_failure, c.rejected_advance tries,
    fun hmode => fixed_advance hmode tries⟩

/-- Two tries are rejected before the step is made. -/
theorem advance_atomic_of_decay : ∃ s c made pair, OdeSystem.reduce ["y' = -50*y"] = .ok s ∧
    start s Range.standard largestError [Scalar.one] true = .ok c ∧
      (c.advance 3).outcome = .step made ∧ Made c made pair (c.advance 3).controller ∧
        (c.advance 3).controller.rejected = c.rejected + 2 := by
  have hcomputed : (onUnit "y' = -50*y" largestError).any (fun c =>
      (c.triers 3).countP refuses == 2 && match (c.advance 3).outcome with
        | .step _ => true
        | _ => false) = true := by decide +kernel
  obtain ⟨s, c, hsystem, hstart, hcomputed⟩ := exists_of_onUnit hcomputed
  obtain ⟨hcount, hstep⟩ := Bool.and_eq_true_iff.mp hcomputed
  split at hstep
  next made houtcome =>
    obtain ⟨hmade, _, hrejected, _⟩ := c.advance_atomic 3
    obtain ⟨pair, hmade⟩ := hmade made houtcome
    rw [eq_of_beq hcount] at hrejected
    exact ⟨s, c, made, pair, hsystem, hstart, houtcome, hmade, hrejected⟩
  next => cases hstep

end Advance

end Trajectory.Controller
