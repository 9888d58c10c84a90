import Trajectory.Outcome
import Trajectory.Stepper.Controller

namespace Trajectory

/-- A computation that ends early with causes of one kind only, broken promises aside. -/
def Checked.CausedBy {ε α : Type} (P : ε → Prop) (c : Checked ε α) : Prop :=
  ∀ e, c = .error (.cause e) → P e

namespace Checked.CausedBy

variable {ε α β : Type} {P : ε → Prop} {c d : Checked ε α} {f : α → Checked ε β}

theorem ok (a : α) : CausedBy P (.ok a : Checked ε α) := by
  intro e h
  cases h

theorem breach (b : Breach) : CausedBy P (Checked.breach b : Checked ε α) := by
  intro e h
  cases h

theorem bind (hc : c.CausedBy P) (hf : ∀ a, (f a).CausedBy P) : (c >>= f).CausedBy P := by
  intro e h
  cases c with
  | ok a => exact hf a e h
  | error failure =>
    cases failure with
    | breach b => cases h
    | cause e =>
      cases h
      exact hc e rfl

theorem ite {p : Prop} [Decidable p] (hc : c.CausedBy P) (hd : d.CausedBy P) :
    (if p then c else d).CausedBy P := by
  split
  · exact hc
  · exact hd

theorem mapError {δ : Type} {g : δ → Failure ε} {c : Except δ α}
    (hg : ∀ x e, g x = .cause e → P e) : CausedBy P (Except.mapError g c : Checked ε α) := by
  intro e h
  cases c with
  | ok a => cases h
  | error x =>
    have hx : g x = .cause e := Except.error.inj h
    exact hg x e hx

end Checked.CausedBy

open Checked (CausedBy)

section CausedBy

variable {α ε : Type} [Scalar α] {P : ε → Prop}

theorem clamp_causedBy (v low high : α) : CausedBy P (clamp v low high) :=
  .ite (.ok _) (.breach .bounds)

theorem sameSize_causedBy (expected given : Nat) : CausedBy P (Checked.sameSize expected given) :=
  .ite (.ok ()) (.breach _)

theorem atLeast_causedBy (expected given : Nat) : CausedBy P (Checked.atLeast expected given) :=
  .ite (.ok ()) (.breach _)

theorem errorNorm_causedBy (t : Tolerance α) (y fifth fourth : List α) :
    CausedBy P (Stepper.errorNorm t y fifth fourth) := by
  refine .bind (atLeast_causedBy _ _) fun _ => .bind (atLeast_causedBy _ _) fun _ => ?_
  exact .ite (.ok _) (.ok _)

theorem stepFactor_causedBy (t : Tolerance α) (norm : α) :
    CausedBy P (Stepper.stepFactor t norm) :=
  .ite (.ok _) (.ite (.ok _) (clamp_causedBy _ _ _))

theorem maxAbsDifference_causedBy (fifth fourth : List α) :
    CausedBy P (Stepper.maxAbsDifference fifth fourth) :=
  .bind (sameSize_causedBy _ _) fun _ => .ok _

theorem retrySize_causedBy {P : SolverError α → Prop} (c : Controller α) (h factor : α) :
    CausedBy P (c.retrySize h factor) :=
  .bind (clamp_causedBy _ _ _) fun _ => .ok _

end CausedBy

/-- The errors that a step can end a run with. -/
inductive SolverError.OfStep {α : Type} : SolverError α → Prop
  | evaluation (cause : EvalError) : OfStep (.evaluation cause)
  | convergence (x h minStep : α) : OfStep (.convergence x h minStep)

namespace Controller

variable {α : Type} [Scalar α] {c after : Controller α} {s : AcceptedStep α} {r : Rejection α}
  {f : Failure (SolverError α)}

theorem nextSize_of_last (h : c.nextSize.2 = true) :
    c.nextSize.1 = c.finish - c.x ∧ c.finish ≤ c.x + c.h * stretch := by
  unfold nextSize at h ⊢
  split
  next hreach => exact ⟨rfl, hreach⟩
  next hreach =>
    rw [if_neg hreach] at h
    cases h

theorem nextSize_of_not_last (h : c.nextSize.2 = false) :
    c.nextSize.1 = c.h ∧ ¬ c.finish ≤ c.x + c.h * stretch := by
  unfold nextSize at h ⊢
  split
  next hreach =>
    rw [if_pos hreach] at h
    cases h
  next hreach => exact ⟨rfl, hreach⟩

/-- What the error of a step says about it: its norm, and the factor for the next size. -/
def judge (c : Controller α) (pair : StepPair α) : Checked (SolverError α) (α × α) := do
  let norm ← Stepper.errorNorm c.tolerance c.y pair.fifth pair.fourth
  let factor ← Stepper.stepFactor c.tolerance norm
  pure (norm, factor)

theorem judge_causedBy {P : SolverError α → Prop} (c : Controller α) (pair : StepPair α) :
    CausedBy P (c.judge pair) :=
  .bind (errorNorm_causedBy _ _ _ _) fun _ => .bind (stepFactor_causedBy _ _) fun _ => .ok _

/-- The results of the next step, if it can be made. -/
def nextPair (c : Controller α) : Checked (SolverError α) (StepPair α) :=
  if !c.nextSize.2 && Stepper.tooSmall c.x c.nextSize.1 then
    .error (c.convergence c.nextSize.1)
  else (c.system.step c.arg c.x c.y c.nextSize.1).mapCause .evaluation

theorem attempt_eq (c : Controller α) : c.attempt =
    match c.nextPair with
    | .error f => .failed c f
    | .ok pair =>
      if c.adaptive then c.attemptAdaptive c.nextSize.1 c.nextSize.2 pair
      else c.attemptFixed c.nextSize.1 c.nextSize.2 pair := by
  cases hsmall : !c.nextSize.2 && Stepper.tooSmall c.x c.nextSize.1 with
  | true => simp [attempt, nextPair, hsmall]
  | false =>
    cases hstep : (c.system.step c.arg c.x c.y c.nextSize.1).mapCause
        (SolverError.evaluation (α := α)) with
    | error f => simp [attempt, nextPair, hsmall, hstep]
    | ok pair => simp [attempt, nextPair, hsmall, hstep]

theorem attemptAdaptive_eq (c : Controller α) (h : α) (last : Bool) (pair : StepPair α) :
    c.attemptAdaptive h last pair =
      match c.judge pair with
      | .error f => .failed c f
      | .ok (norm, factor) =>
        if norm ≤ Scalar.one then
          match clamp (h * factor) c.minStep c.maxStep with
          | .error f => .failed c f
          | .ok next => .accepted { c.moved h last pair.fifth with h := next }
            ⟨(c.moved h last pair.fifth).x, h, norm⟩
        else if h ≤ c.minStep then .failed { c with rejected := c.rejected + 1 } (c.convergence h)
        else
          match c.retrySize h factor with
          | .error f => .failed { c with rejected := c.rejected + 1 } f
          | .ok next => .rejected { c with rejected := c.rejected + 1, h := next } ⟨c.x, h, norm, next⟩ :=
  rfl

theorem nextPair_causedBy (c : Controller α) : CausedBy SolverError.OfStep c.nextPair := by
  refine .ite ?_ (.mapError fun failure e he => ?_)
  · intro e h
    cases h
    exact .convergence _ _ _
  · cases failure with
    | breach b => cases he
    | cause cause =>
      cases he
      exact .evaluation cause

/-- A step without a result, or with one that is judged. -/
inductive Tried (c : Controller α) : Attempt α → Prop
  | stopped {f : Failure (SolverError α)} (hpair : c.nextPair = .error f) : Tried c (.failed c f)
  | fixed {pair : StepPair α} {norm : α} (hpair : c.nextPair = .ok pair) (hmode : c.adaptive = false) :
      Tried c (.accepted (c.moved c.nextSize.1 c.nextSize.2 pair.fifth)
        ⟨(c.moved c.nextSize.1 c.nextSize.2 pair.fifth).x, c.nextSize.1, norm⟩)
  | adapted {pair : StepPair α} {norm factor next : α} (hpair : c.nextPair = .ok pair)
      (hmode : c.adaptive = true) (hjudge : c.judge pair = .ok (norm, factor))
      (hnorm : norm ≤ Scalar.one)
      (hnext : clamp (ε := SolverError α) (c.nextSize.1 * factor) c.minStep c.maxStep = .ok next) :
      Tried c (.accepted { c.moved c.nextSize.1 c.nextSize.2 pair.fifth with h := next }
        ⟨(c.moved c.nextSize.1 c.nextSize.2 pair.fifth).x, c.nextSize.1, norm⟩)
  | rejected {pair : StepPair α} {norm factor next : α} (hpair : c.nextPair = .ok pair)
      (hmode : c.adaptive = true) (hjudge : c.judge pair = .ok (norm, factor))
      (hnorm : ¬ norm ≤ Scalar.one) (hleast : ¬ c.nextSize.1 ≤ c.minStep)
      (hnext : c.retrySize c.nextSize.1 factor = .ok next) :
      Tried c (.rejected { c with rejected := c.rejected + 1, h := next }
        ⟨c.x, c.nextSize.1, norm, next⟩)
  | least (hmode : c.adaptive = true) (hleast : c.nextSize.1 ≤ c.minStep) :
      Tried c (.failed { c with rejected := c.rejected + 1 } (c.convergence c.nextSize.1))
  | breach {after : Controller α} {b : Breach}
      (hafter : after = { c with rejected := after.rejected }) : Tried c (.failed after (.breach b))

theorem tried_of_fixed {pair : StepPair α} (hpair : c.nextPair = .ok pair)
    (hmode : c.adaptive = false) :
    Tried c (c.attemptFixed c.nextSize.1 c.nextSize.2 pair) := by
  unfold attemptFixed
  split
  next f hf =>
    cases f with
    | breach b => exact .breach rfl
    | cause e => exact (maxAbsDifference_causedBy (P := fun _ => False) _ _ e hf).elim
  next norm _ => exact .fixed hpair hmode

theorem tried_of_adaptive {pair : StepPair α} (hpair : c.nextPair = .ok pair)
    (hmode : c.adaptive = true) :
    Tried c (c.attemptAdaptive c.nextSize.1 c.nextSize.2 pair) := by
  rw [attemptAdaptive_eq]
  cases hjudge : c.judge pair with
  | error f =>
    cases f with
    | breach b => exact .breach rfl
    | cause e => exact (c.judge_causedBy (P := fun _ => False) pair e hjudge).elim
  | ok judged =>
    obtain ⟨norm, factor⟩ := judged
    dsimp only
    split
    next hnorm =>
      split
      next f hf =>
        cases f with
        | breach b => exact .breach rfl
        | cause e => exact (clamp_causedBy (P := fun _ => False) _ _ _ e hf).elim
      next next hnext => exact .adapted hpair hmode hjudge hnorm hnext
    next hnorm =>
      split
      next hleast => exact .least hmode hleast
      next hleast =>
        split
        next f hf =>
          cases f with
          | breach b => exact .breach rfl
          | cause e => exact (retrySize_causedBy (P := fun _ => False) _ _ _ e hf).elim
        next next hnext => exact .rejected hpair hmode hjudge hnorm hleast hnext

theorem tried (c : Controller α) : Tried c c.attempt := by
  rw [attempt_eq]
  split
  next f hf => exact .stopped hf
  next pair hpair =>
    split
    next hmode => exact tried_of_adaptive hpair hmode
    next hmode => exact tried_of_fixed hpair (by simpa using hmode)

theorem tried_of_eq {a : Attempt α} (h : c.attempt = a) : Tried c a := by
  rw [← h]
  exact c.tried

end Controller

end Trajectory
