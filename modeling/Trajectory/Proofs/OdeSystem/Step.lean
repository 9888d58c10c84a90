import Trajectory.Proofs.OdeSystem.Evaluation
import Trajectory.Stepper.Step

namespace Trajectory

variable {α : Type} [Scalar α]

namespace Stepper

variable {f : α → List α → Checked EvalError (List α)} {n : Nat} {x h : α} {y : List α}

theorem length_addScaled {c : α} {k y : List α} (h : k.length = y.length) :
    (addScaled c k y).length = y.length := by
  rw [addScaled, List.length_zipWith, h, Nat.min_self]

theorem length_combine (h : α) (weights : List α) {ks : List (List α)}
    (hks : ∀ k ∈ ks, k.length = y.length) : (combine h weights ks y).length = y.length := by
  have hsum (terms : List (α × List α)) (hterms : ∀ term ∈ terms, term.2.length = y.length)
      (sum : List α) (hsum : sum.length = y.length) :
      (terms.foldl (fun sum term =>
        if term.1 == Scalar.zero then sum else addScaled (h * term.1) term.2 sum) sum).length =
          y.length := by
    induction terms generalizing sum with
    | nil => exact hsum
    | cons term terms ih =>
      rw [List.foldl_cons]
      refine ih (fun other hother => hterms other (List.mem_cons_of_mem _ hother)) _ ?_
      split
      · exact hsum
      · have hterm := hterms term List.mem_cons_self
        rw [length_addScaled (hterm.trans hsum.symm), hsum]
  exact hsum _ (fun term hterm => hks _ (List.of_mem_zip hterm).2) y rfl

/-- Derivatives at every state with this number of slots, one a slot. -/
def Total (f : α → List α → Checked EvalError (List α)) (n : Nat) : Prop :=
  ∀ x y, y.length = n → ∃ k, f x y = .ok k ∧ k.length = n

theorem exists_stagesAfter (hf : Total f n) (hy : y.length = n) {ks : List (List α)}
    (hks : ∀ k ∈ ks, k.length = n) (stages : List (α × List α)) :
    ∃ ks', stagesAfter f x h y ks stages = .ok ks' ∧ ∀ k ∈ ks', k.length = n := by
  induction stages generalizing ks with
  | nil => exact ⟨ks, rfl, hks⟩
  | cons stage stages ih =>
    obtain ⟨node, row⟩ := stage
    have hstate : (combine h row ks y).length = n := by
      rw [length_combine h row (fun k hk => (hks k hk).trans hy.symm), hy]
    obtain ⟨k, hk, hlength⟩ := hf (x + node * h) _ hstate
    have hall : ∀ k' ∈ ks ++ [k], k'.length = n := by
      intro k' hk'
      rcases List.mem_append.mp hk' with hk' | hk'
      · exact hks k' hk'
      · rw [List.mem_singleton.mp hk', hlength]
    obtain ⟨ks', hks', hlengths⟩ := ih hall
    exact ⟨ks', bind_eq_ok.mpr ⟨k, hk, hks'⟩, hlengths⟩

theorem exists_step (hf : Total f n) (hy : y.length = n) :
    ∃ pair, step f x y h = .ok pair ∧ pair.fifth.length = n ∧ pair.fourth.length = n := by
  obtain ⟨k, hk, hlength⟩ := hf x y hy
  have hfirst : ∀ k' ∈ [k], k'.length = n := by
    intro k' hk'
    rw [List.mem_singleton.mp hk', hlength]
  obtain ⟨ks, hks, hlengths⟩ := exists_stagesAfter (x := x) (h := h) hf hy hfirst
    ((Tableau.embedded : Tableau α).nodes.zip (Tableau.embedded : Tableau α).rows).tail
  have hsum (weights : List α) : (combine h weights ks y).length = n := by
    rw [length_combine h weights (fun k hk => (hlengths k hk).trans hy.symm), hy]
  exact ⟨_, bind_eq_ok.mpr ⟨ks, bind_eq_ok.mpr ⟨k, hk, hks⟩, rfl⟩, hsum _, hsum _⟩

end Stepper

namespace OdeSystem

variable {s : OdeSystem α} {arg : String} {x h : α} {y : List α}

/-- The state has a slot for each variable, and every name that is read is bound. -/
structure Evaluable (s : OdeSystem α) (arg : String) (y : List α) : Prop where
  size : y.length = s.size
  bound : s.foreign? arg = none

omit [Scalar α] in
theorem exists_extends (s : OdeSystem α) (arg : String) (x : α) (y : List α) :
    ∃ env, Scope.Extends env (s.scope arg x y) := by
  refine ⟨fun n => ((s.scope arg x y).get? n).getD x, fun n v h => ?_⟩
  exact congrArg (Option.getD · x) h

theorem evaluate_of_size (arg : String) (x : α) (hy : y.length = s.size) :
    ∃ dydx, dydx.length = s.size ∧
      s.evaluate arg x y = Checked.ofExcept (EvalError.unlessMissing (s.foreign? arg) dydx) := by
  obtain ⟨env, henv⟩ := s.exists_extends arg x y
  refine ⟨_, ?_, evaluate_eq hy henv⟩
  simp only [derivatives, List.length_map, size, vars, List.length_flatMap,
    Equation.derivatives_length]

theorem exists_evaluate (hs : s.Evaluable arg y) :
    ∃ dydx, s.evaluate arg x y = .ok dydx ∧ dydx.length = s.size := by
  obtain ⟨dydx, hlength, heq⟩ := evaluate_of_size arg x hs.size
  rw [hs.bound] at heq
  exact ⟨dydx, heq, hlength⟩

theorem evaluable_of_evaluate {dydx : List α} (hvalue : s.evaluate arg x y = .ok dydx) :
    s.Evaluable arg y := by
  have hy : y.length = s.size := by
    obtain ⟨_, hscope, _⟩ := bind_eq_ok.mp hvalue
    obtain ⟨_, hsize, _⟩ := bind_eq_ok.mp hscope
    unfold Checked.sameSize at hsize
    split at hsize
    next hlength => simpa [scopeNames, names, size] using hlength.symm
    next => cases hsize
  obtain ⟨_, _, heq⟩ := evaluate_of_size arg x hy
  refine ⟨hy, ?_⟩
  cases hforeign : s.foreign? arg with
  | none => rfl
  | some n =>
    rw [hforeign] at heq
    cases hvalue.symm.trans heq

theorem evaluate_of_foreign {n : String} (hy : y.length = s.size)
    (hforeign : s.foreign? arg = some n) : s.evaluate arg x y = .error (.cause (.unbound n)) := by
  obtain ⟨_, _, heq⟩ := evaluate_of_size arg x hy
  rw [hforeign] at heq
  exact heq

theorem total_of_bound (hbound : s.foreign? arg = none) : Stepper.Total (s.evaluate arg) s.size :=
  fun _ _ hy => exists_evaluate ⟨hy, hbound⟩

theorem exists_step (hs : s.Evaluable arg y) :
    ∃ pair, s.step arg x y h = .ok pair ∧ pair.fifth.length = s.size ∧
      pair.fourth.length = s.size :=
  Stepper.exists_step (total_of_bound hs.bound) hs.size

theorem step_of_error {f : Failure EvalError} (hvalue : s.evaluate arg x y = .error f) :
    s.step arg x y h = .error f := by
  unfold step Stepper.step Stepper.stages
  rw [hvalue]
  rfl

/-- A step fails exactly as the derivatives at its start do. -/
theorem step_eq_error_iff {f : Failure EvalError} :
    s.step arg x y h = .error f ↔ s.evaluate arg x y = .error f := by
  refine ⟨fun hstep => ?_, step_of_error⟩
  cases hvalue : s.evaluate arg x y with
  | ok dydx =>
    obtain ⟨pair, hok, _⟩ := exists_step (x := x) (h := h) (evaluable_of_evaluate hvalue)
    cases hstep.symm.trans hok
  | error f' =>
    cases hstep.symm.trans (step_of_error hvalue)
    rfl

theorem evaluable_of_step {pair : StepPair α} (hstep : s.step arg x y h = .ok pair) :
    s.Evaluable arg y := by
  cases hvalue : s.evaluate arg x y with
  | ok dydx => exact evaluable_of_evaluate hvalue
  | error f => cases hstep.symm.trans (step_of_error hvalue)

end OdeSystem

end Trajectory
