import Trajectory.Proofs.Number.Exact
import Trajectory.Proofs.OdeSystem.Reordered
import Trajectory.Proofs.Stepper.Advance

namespace Trajectory

open OdeSystem (Shared)

variable {α : Type}

/-- Errors of one kind. They can tell of missing conditions in another order, and of another name that
is not bound. -/
inductive SolverError.Alike : SolverError α → SolverError α → Prop
  | same (e : SolverError α) : Alike e e
  | missing {names names' : List String} (h : names.Perm names') :
      Alike (.configuration (.missing names)) (.configuration (.missing names'))
  | evaluation (cause cause' : EvalError) : Alike (.evaluation cause) (.evaluation cause')

inductive Failure.Alike : Failure (SolverError α) → Failure (SolverError α) → Prop
  | breach (b : Breach) : Alike (.breach b) (.breach b)
  | cause {e e' : SolverError α} (h : e.Alike e') : Alike (.cause e) (.cause e')

theorem Failure.Alike.same (f : Failure (SolverError α)) : f.Alike f := by
  cases f with
  | breach b => exact .breach b
  | cause e => exact .cause (.same e)

section Norm

open Scalar (Exact Faithful)

variable [Scalar α] [Exact α] [Faithful α]

namespace Stepper

theorem value_largest (a e : α) :
    Exact.value (largest a e) = max (Exact.value a) (Exact.value e) := by
  unfold largest
  rw [Faithful.isNaN_eq, Bool.false_or]
  split
  next h => rw [max_eq_right (le_of_lt ((Exact.lt_iff a e).mp (by simpa using h)))]
  next h =>
    have hle := mt (Exact.lt_iff a e).mpr (by simpa using h)
    rw [max_eq_left (not_lt.mp hle)]

theorem combined_perm {errors errors' : List α} (h : errors.Perm errors') (norm : ErrorNorm) :
    combined norm errors' = combined norm errors := by
  cases norm with
  | rms =>
    have : RightCommutative fun a e : α => a + e := ⟨Exact.add_swap⟩
    rw [combined, combined, h.length_eq, (h.map fun e => e * e).foldl_eq]
  | max =>
    have : RightCommutative (largest : α → α → α) := ⟨fun a b c => by
      refine Faithful.value_injective ?_
      simp only [value_largest]
      exact max_right_comm _ _ _⟩
    rw [combined, combined, h.foldl_eq]

end Stepper

variable {s s' : OdeSystem α} {y y' fifth fifth' fourth fourth' : List α} {ε : Type}

omit [Exact α] [Faithful α] in
theorem OdeSystem.Shared.scaledErrors (t : Tolerance α) (hy : Shared s s' y y')
    (hfifth : Shared s s' fifth fifth') (hfourth : Shared s s' fourth fourth') :
    Shared s s' (Stepper.scaledErrors t y fifth fourth)
      (Stepper.scaledErrors t y' fifth' fourth') where
  size := by simp [Stepper.scaledErrors, hy.size, hfifth.size, hfourth.size]
  size' := by simp [Stepper.scaledErrors, hy.size', hfifth.size', hfourth.size']
  slots v hv := by
    simp only [Stepper.scaledErrors, List.zip, List.getElem?_map, List.getElem?_zipWith,
      hy.slots v hv, hfifth.slots v hv, hfourth.slots v hv]

theorem OdeSystem.Shared.errorNorm (h : s.Reordered s') (t : Tolerance α) (hy : Shared s s' y y')
    (hfifth : Shared s s' fifth fifth') (hfourth : Shared s s' fourth fourth') :
    Stepper.errorNorm (ε := ε) t y' fifth' fourth' = Stepper.errorNorm t y fifth fourth := by
  have hcombined := Stepper.combined_perm ((hy.scaledErrors t hfifth hfourth).perm h) t.norm
  unfold Stepper.errorNorm
  rw [(hy.perm h).length_eq, (hfifth.perm h).length_eq, (hfourth.perm h).length_eq,
    (hy.perm h).isEmpty_eq, hcombined]

end Norm

namespace Controller

/-- Controllers that differ in the order of the equations, and so in that of the slots. -/
inductive Mirrors (c : Controller α) : Controller α → Prop
  | intro {s' : OdeSystem α} {y' : List α} (adaptive : c.adaptive = true)
      (reordered : c.system.Reordered s') (argument : c.arg ∉ c.system.names)
      (y : Shared c.system s' c.y y') : Mirrors c { c with system := s', y := y' }

namespace Mirrors

variable {c c' : Controller α}

theorem adaptive (h : c.Mirrors c') : c.adaptive = true ∧ c'.adaptive = true := by
  obtain ⟨hadaptive, _, _, _⟩ := h
  exact ⟨hadaptive, hadaptive⟩

theorem reordered (h : c.Mirrors c') : c.system.Reordered c'.system := by
  obtain ⟨_, hreordered, _, _⟩ := h
  exact hreordered

theorem argument (h : c.Mirrors c') : c'.arg ∉ c'.system.names := by
  obtain ⟨_, hreordered, harg, _⟩ := h
  exact mt hreordered.names.mem_iff.mpr harg

theorem shared (h : c.Mirrors c') : Shared c.system c'.system c.y c'.y := by
  obtain ⟨_, _, _, hy⟩ := h
  exact hy

theorem place (h : c.Mirrors c') :
    c'.arg = c.arg ∧ c'.x = c.x ∧ c'.accepted = c.accepted ∧ c'.rejected = c.rejected := by
  cases h
  exact ⟨rfl, rfl, rfl, rfl⟩

theorem nextSize [Scalar α] (h : c.Mirrors c') : c'.nextSize = c.nextSize := by
  cases h
  rfl

theorem finished [Scalar α] (h : c.Mirrors c') : c'.finished = c.finished := by
  cases h
  rfl

theorem retrySize [Scalar α] (h : c.Mirrors c') : c'.retrySize = c.retrySize := by
  cases h
  rfl

end Mirrors

/-- What two tries have come to that are alike. -/
inductive Attempted : Attempt α → Attempt α → Prop
  | accepted {c c' : Controller α} (h : c.Mirrors c') (s : AcceptedStep α) :
      Attempted (.accepted c s) (.accepted c' s)
  | rejected {c c' : Controller α} (h : c.Mirrors c') (r : Rejection α) :
      Attempted (.rejected c r) (.rejected c' r)
  | failed {c c' : Controller α} {f f' : Failure (SolverError α)} (h : c.Mirrors c')
      (hf : f.Alike f') : Attempted (.failed c f) (.failed c' f')

/-- The results of two steps that are alike. -/
inductive Paired (s s' : OdeSystem α) : Checked (SolverError α) (StepPair α) →
    Checked (SolverError α) (StepPair α) → Prop
  | pair {pair pair' : StepPair α} (fifth : Shared s s' pair.fifth pair'.fifth)
      (fourth : Shared s s' pair.fourth pair'.fourth) : Paired s s' (.ok pair) (.ok pair')
  | failure {f f' : Failure (SolverError α)} (hf : f.Alike f') : Paired s s' (.error f) (.error f')

variable [Scalar α] {c c' : Controller α}

omit [Scalar α] in
theorem Paired.of_stepped {s s' : OdeSystem α} {result result' : Checked EvalError (StepPair α)}
    (h : OdeSystem.Stepped s s' result result') :
    Paired s s' (result.mapCause .evaluation) (result'.mapCause .evaluation) := by
  cases h with
  | pair hfifth hfourth => exact .pair hfifth hfourth
  | unbound name name' => exact .failure (.cause (.evaluation _ _))

theorem Mirrors.nextPair (h : c.Mirrors c') : Paired c.system c'.system c.nextPair c'.nextPair := by
  have hsize := h.nextSize
  obtain ⟨_, hreordered, harg, hy⟩ := h
  unfold Controller.nextPair
  rw [hsize]
  split
  next => exact .failure (.same _)
  next =>
    exact .of_stepped (hreordered.step harg hy)

variable [Scalar.Exact α] [Scalar.Faithful α]

theorem Mirrors.judge (h : c.Mirrors c') {pair pair' : StepPair α}
    (hfifth : Shared c.system c'.system pair.fifth pair'.fifth)
    (hfourth : Shared c.system c'.system pair.fourth pair'.fourth) :
    c'.judge pair' = c.judge pair := by
  obtain ⟨_, hreordered, _, hy⟩ := h
  unfold Controller.judge
  rw [hy.errorNorm hreordered _ hfifth hfourth]

theorem Mirrors.attemptAdaptive (h : c.Mirrors c') (size : α) (last : Bool) {pair pair' : StepPair α}
    (hfifth : Shared c.system c'.system pair.fifth pair'.fifth)
    (hfourth : Shared c.system c'.system pair.fourth pair'.fourth) :
    Attempted (c.attemptAdaptive size last pair) (c'.attemptAdaptive size last pair') := by
  have hjudge := h.judge hfifth hfourth
  have hretry := h.retrySize
  obtain ⟨hadaptive, hreordered, harg, hy⟩ := h
  -- With one norm the two controllers read nothing but what they have in common.
  rw [attemptAdaptive_eq, attemptAdaptive_eq, hjudge]
  cases c.judge pair with
  | error f => exact .failed (.intro hadaptive hreordered harg hy) (.same f)
  | ok judged =>
    dsimp only
    split
    next =>
      cases clamp (ε := SolverError α) (size * judged.2) c.minStep c.maxStep with
      | error f => exact .failed (.intro hadaptive hreordered harg hy) (.same f)
      | ok next =>
        let after := { c.moved size last pair.fifth with h := next }
        exact .accepted (.intro (c := after) hadaptive hreordered harg hfifth) _
    next =>
      let counted := { c with rejected := c.rejected + 1 }
      split
      next => exact .failed (.intro (c := counted) hadaptive hreordered harg hy) (.same _)
      next =>
        rw [hretry]
        cases c.retrySize size judged.2 with
        | error f => exact .failed (.intro (c := counted) hadaptive hreordered harg hy) (.same f)
        | ok next =>
          let after := { counted with h := next }
          exact .rejected (.intro (c := after) hadaptive hreordered harg hy) _

theorem Mirrors.attempt (h : c.Mirrors c') : Attempted c.attempt c'.attempt := by
  have hpaired := h.nextPair
  rw [attempt_eq, attempt_eq]
  generalize c.nextPair = result at hpaired
  generalize c'.nextPair = result' at hpaired
  cases hpaired with
  | failure hf => exact .failed h hf
  | pair hfifth hfourth =>
    dsimp only
    rw [if_pos h.adaptive.1, if_pos h.adaptive.2, h.nextSize]
    exact h.attemptAdaptive _ _ hfifth hfourth

/-- What the tries for a step have come to with two controllers that are alike. -/
inductive Advanced : Advance α → Advance α → Prop
  | step {c c' : Controller α} (h : c.Mirrors c') (rejections : List (Rejection α))
      (s : AcceptedStep α) : Advanced ⟨c, rejections, .step s⟩ ⟨c', rejections, .step s⟩
  | failure {c c' : Controller α} {f f' : Failure (SolverError α)} (h : c.Mirrors c')
      (rejections : List (Rejection α)) (hf : f.Alike f') :
      Advanced ⟨c, rejections, .failure f⟩ ⟨c', rejections, .failure f'⟩
  | exhausted {c c' : Controller α} (h : c.Mirrors c') (rejections : List (Rejection α)) :
      Advanced ⟨c, rejections, .exhausted⟩ ⟨c', rejections, .exhausted⟩

/-- The order of the equations does not show in the tries for a step. -/
theorem Mirrors.advance (h : c.Mirrors c') (tries : Nat) :
    Advanced (c.advance tries) (c'.advance tries) := by
  induction tries generalizing c c' with
  | zero => exact .exhausted h []
  | succ tries ih =>
    have hattempt := h.attempt
    rw [Controller.advance, Controller.advance]
    generalize c.attempt = a at hattempt
    generalize c'.attempt = a' at hattempt
    cases hattempt with
    | accepted hafter s => exact .step hafter [] s
    | failed hafter hf => exact .failure hafter [] hf
    | @rejected after after' hafter r =>
      have hlater := ih hafter
      dsimp only
      generalize after.advance tries = b at hlater
      generalize after'.advance tries = b' at hlater
      cases hlater with
      | step hlast rejections s => exact .step hlast (r :: rejections) s
      | failure hlast rejections hf => exact .failure hlast (r :: rejections) hf
      | exhausted hlast rejections => exact .exhausted hlast (r :: rejections)

theorem Mirrors.of_step (h : c.Mirrors c') {tries : Nat} {s : AcceptedStep α}
    (houtcome : (c.advance tries).outcome = .step s) :
    (c.advance tries).controller.Mirrors (c'.advance tries).controller ∧
      (c'.advance tries).outcome = .step s := by
  have hadvanced := h.advance tries
  generalize c.advance tries = a at hadvanced houtcome
  generalize c'.advance tries = a' at hadvanced
  cases hadvanced with
  | step hlast => exact ⟨hlast, houtcome⟩
  | failure => cases houtcome
  | exhausted => cases houtcome

theorem Mirrors.of_failure (h : c.Mirrors c') {tries : Nat} {f : Failure (SolverError α)}
    (houtcome : (c.advance tries).outcome = .failure f) :
    (c.advance tries).controller.Mirrors (c'.advance tries).controller ∧
      ∃ f', (c'.advance tries).outcome = .failure f' ∧ f.Alike f' := by
  have hadvanced := h.advance tries
  generalize c.advance tries = a at hadvanced houtcome
  generalize c'.advance tries = a' at hadvanced
  cases hadvanced with
  | step => cases houtcome
  | failure hlast _ hf =>
    cases houtcome
    exact ⟨hlast, _, rfl, hf⟩
  | exhausted => cases houtcome

variable {tries tries' : Nat} {outcome' : Advance.Outcome α}

/-- The tries need not be as many for both steps, if they are enough. -/
theorem Mirrors.step_of_ends (h : c.Mirrors c') {s : AcceptedStep α}
    (houtcome : (c.advance tries).outcome = .step s)
    (houtcome' : (c'.advance tries').outcome = outcome') (hends : outcome' ≠ .exhausted) :
    (c.advance tries).controller.Mirrors (c'.advance tries').controller ∧ outcome' = .step s := by
  obtain ⟨hlast, hstep⟩ := h.of_step houtcome
  have hsame : c'.advance tries' = c'.advance tries :=
    advance_eq (by simp [hstep]) (by rwa [houtcome'])
  rw [← houtcome', hsame]
  exact ⟨hlast, hstep⟩

theorem Mirrors.failure_of_ends (h : c.Mirrors c') {f : Failure (SolverError α)}
    (houtcome : (c.advance tries).outcome = .failure f)
    (houtcome' : (c'.advance tries').outcome = outcome') (hends : outcome' ≠ .exhausted) :
    (c.advance tries).controller.Mirrors (c'.advance tries').controller ∧
      ∃ f', outcome' = .failure f' ∧ f.Alike f' := by
  obtain ⟨hlast, f', hf', halike⟩ := h.of_failure houtcome
  have hsame : c'.advance tries' = c'.advance tries :=
    advance_eq (by simp [hf']) (by rwa [houtcome'])
  rw [← houtcome', hsame]
  exact ⟨hlast, f', hf', halike⟩

end Controller

end Trajectory
