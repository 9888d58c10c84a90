import Trajectory.Proofs.Solver.Kinds
import Trajectory.Proofs.Solver.Running

namespace Trajectory

namespace Session

open Act (Agree)

variable {α μ : Type}

def InProgress (w : World (protocol α μ)) : Prop := w.state.solver.running = true

theorem inProgress_kind : Kind (InProgress (α := α) (μ := μ)) where
  recorded _ _ h := h
  aside v w h hv := by
    unfold InProgress
    rw [h.solver]
    exact hv

variable [Scalar α] [Numeral α]

/-- The answers to requests when every run is refused at once and leaves no trace. -/
def refusingRuns (α μ : Type) [Scalar α] [Numeral α] : Handler (protocol α μ) :=
  fun fuel publish q =>
    match q with
    | .run _ => pure (.error .busy)
    | q => answer α μ fuel publish q

section Refusals

variable {w : World (protocol α μ)}

omit [Numeral α] in
theorem change_of_inProgress {f : Solver α → Except (SolverError α) (Change α)} (hf : Setting f)
    (hw : InProgress w) : ∃ e, ∀ publish : Publish α μ, change publish f w = .ok (.error e) w := by
  obtain ⟨e, he⟩ := hf.refused hw
  exact ⟨e, fun publish => change_of_error he⟩

theorem setEquations_of_inProgress (sources : List String) (hw : InProgress w) :
    ∃ e, ∀ publish : Publish α μ, setEquations publish sources w = .ok (.error e) w := by
  obtain ⟨e, he⟩ := change_of_inProgress (.equations sources) hw
  refine ⟨e, fun publish => ?_⟩
  have hget : (getSolver : Action α μ (Solver α)) w = .ok w.state.solver w := rfl
  refine (Act.bind_of_ok hget).trans ?_
  have hrunning : w.state.solver.running = true := hw
  rw [if_neg (by simp [hrunning])]
  exact (Act.bind_of_ok rfl).trans (he publish)

end Refusals

variable {publish publish' : Publish α μ}

omit [Numeral α] in
theorem change_agrees {f : Solver α → Except (SolverError α) (Change α)} (hf : Setting f) :
    Agree InProgress (change publish f) (change publish' f) := by
  intro w hw
  obtain ⟨e, he⟩ := change_of_inProgress hf hw
  exact .of_ok (he publish) (he publish') hw

theorem run_agrees {fuel : Nat} (adaptive : Bool) :
    Agree InProgress (run publish fuel adaptive) (run publish' fuel adaptive) := by
  intro w hw
  exact .of_ok (run_of_running hw) (run_of_running hw) hw

theorem answer_agrees {fuel : Nat} (h : ∀ c e, Agree InProgress (publish c e) (publish' c e))
    (q : Request α μ) : Agree InProgress (answer α μ fuel publish q) (answer α μ fuel publish' q) :=
  inProgress_kind.answer_agrees (fun _ hf => change_agrees hf) run_agrees
    (inProgress_kind.cancel_agrees (fun _ hw => hw) (h .canceled ())) q

/-- During a run nothing is requested at a time when none is in progress. -/
theorem deliver_agrees {answer' : Handler (protocol α μ)}
    (h : Handler.Same InProgress (answer α μ) answer') (calls d : Nat) (c : Solver.Channel)
    (e : Solver.Payload α c) : Agree InProgress (Delivery.deliver (answer α μ) calls d c e)
      (Delivery.deliver answer' calls d c e) :=
  inProgress_kind.closed.deliver_same (fun _ _ _ hpublish q => answer_agrees hpublish q) h calls d c e

theorem refusingRuns_same : Handler.Same InProgress (answer α μ) (refusingRuns α μ) := by
  intro fuel publish q w hw
  cases q with
  | run adaptive =>
    have hrun : run publish fuel adaptive w = .ok (.error .busy) w := run_of_running hw
    exact hrun.symm
  | _ => rfl

/-- During a run events are delivered as if every other run were refused at once. -/
theorem deliver_eq_of_running {calls d : Nat} {c : Solver.Channel} {e : Solver.Payload α c}
    {w : World (protocol α μ)} (h : w.state.solver.running = true) :
    Delivery.deliver (answer α μ) calls d c e w =
      Delivery.deliver (refusingRuns α μ) calls d c e w := by
  obtain ⟨hsame, _⟩ := deliver_agrees refusingRuns_same calls d c e w h
  exact hsame

end Session

end Trajectory
