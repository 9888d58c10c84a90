import Trajectory.Outcome
import Trajectory.Proofs.Solver.Frame

namespace Trajectory

namespace Session

variable {α μ : Type}

/-- The solver has at most been told to cancel and to log elsewhere. -/
structure Held (s t : Solver α) : Prop where
  solver : t = { s with cancelRequested := t.cancelRequested, logSettings := t.logSettings }
  canceled : s.cancelRequested = true → t.cancelRequested = true

namespace Held

variable {s t u : Solver α}

theorem refl (s : Solver α) : Held s s := ⟨rfl, id⟩

theorem trans (hst : Held s t) (htu : Held t u) : Held s u := by
  refine ⟨?_, fun h => htu.canceled (hst.canceled h)⟩
  have hu := htu.solver
  rw [hst.solver] at hu
  exact hu

theorem running (h : Held s t) : t.running = s.running := by rw [h.solver]

theorem status (h : Held s t) : t.status = s.status := by rw [h.solver]

theorem result (h : Held s t) : t.result = s.result := by rw [h.solver]

end Held

/-- Everything published since is about a requested cancellation, at this depth or a greater one. -/
def OnlyCanceled (d : Nat) (new : List (Occurrence (protocol α μ))) : Prop :=
  ∀ k c e, .published k c e ∈ new → d ≤ k ∧ c = .canceled

/-- What can be changed at a depth while a run is in progress. -/
def WhileRunning (d : Nat) (w v : World (protocol α μ)) : Prop :=
  w.state.solver.running = true → Held w.state.solver v.state.solver ∧
    ∃ new, v.history = new ++ w.history ∧ OnlyCanceled d new

theorem whileRunning_frame : Frame (WhileRunning (α := α) (μ := μ)) where
  trans d u v w huv hvw hrunning := by
    obtain ⟨huv, first, hfirst, honly⟩ := huv hrunning
    obtain ⟨hvw, later, hlater, honly'⟩ := hvw (huv.running.trans hrunning)
    refine ⟨huv.trans hvw, later ++ first, by rw [hlater, hfirst, List.append_assoc], ?_⟩
    intro k c e hmem
    rcases List.mem_append.mp hmem with hmem | hmem
    · exact honly' k c e hmem
    · exact honly k c e hmem
  mono d v w h hrunning := by
    obtain ⟨hheld, new, hnew, honly⟩ := h hrunning
    refine ⟨hheld, new, hnew, fun k c e hmem => ?_⟩
    obtain ⟨hk, hc⟩ := honly k c e hmem
    exact ⟨by omega, hc⟩
  called d w k c id _ := by
    refine ⟨.refl _, [.called k c id], rfl, fun k c e hmem => ?_⟩
    cases List.mem_singleton.mp hmem
  returned d w k c id reason? _ := by
    refine ⟨.refl _, [.returned k c id reason?], rfl, fun k c e hmem => ?_⟩
    cases List.mem_singleton.mp hmem
  aside d v w h _ := by
    refine ⟨⟨?_, ?_⟩, [], h.history, fun k c e hmem => by cases hmem⟩
    · rw [h.solver]
    · intro hcanceled
      rw [h.solver]
      exact hcanceled

variable [Scalar α]

variable [Numeral α]

theorem run_of_running {publish : Publish α μ} {fuel : Nat} {adaptive : Bool}
    {w : World (protocol α μ)} (h : w.state.solver.running = true) :
    run publish fuel adaptive w = .ok (.error .busy) w := by
  refine Act.bind_eq_ok_iff.mpr ⟨w.state.solver, w, rfl, ?_⟩
  rw [if_pos h]
  rfl

theorem idle_of_run {publish : Publish α μ} {fuel : Nat} {adaptive : Bool}
    {points : List (Point α)} {w v : World (protocol α μ)}
    (h : run publish fuel adaptive w = .ok (.ok points) v) : w.state.solver.running = false := by
  cases hrunning : w.state.solver.running with
  | false => rfl
  | true => cases (run_of_running hrunning).symm.trans h

open Delivery.Frame (Publishes)

omit [Scalar α] [Numeral α] in
theorem cancel_keeps {publish : Publish α μ} {d : Nat} (hpublish : Publishes WhileRunning d publish) :
    (cancel publish).Keeps (WhileRunning d) := by
  have hrequest : (modifySolver fun s : Solver α =>
      { s with cancelRequested := true } : Action α μ Unit).Keeps (WhileRunning d) := by
    intro w _
    exact ⟨⟨rfl, fun _ => rfl⟩, [], rfl, fun k c e hmem => by cases hmem⟩
  have htell : (publish .canceled ()).Keeps (WhileRunning d) := by
    intro w
    have hrecord : WhileRunning d w (w.record (.published d .canceled ())) := by
      refine fun _ => ⟨.refl _, [.published d .canceled ()], rfl, fun k c e hmem => ?_⟩
      cases List.mem_singleton.mp hmem
      exact ⟨Nat.le_refl d, rfl⟩
    have hlater := whileRunning_frame.mono d _ _ (hpublish .canceled () w)
    exact whileRunning_frame.trans d _ _ _ hrecord hlater
  refine whileRunning_frame.bind hrequest fun _ => ?_
  refine whileRunning_frame.bind (whileRunning_frame.keeps_of_aside fun w => ⟨rfl, rfl⟩) fun _ => ?_
  exact whileRunning_frame.bind htell fun _ => whileRunning_frame.pure ()

/-- Settings and runs are refused during a run, so what is said of runs in progress only is kept by
every request if it is kept by cancellations. -/
theorem deliver_of_running {R : Nat → World (protocol α μ) → World (protocol α μ) → Prop}
    (hR : Frame R) (hrunning : ∀ d w v, (w.state.solver.running = true → R d w v) → R d w v)
    (hcancel : ∀ d publish, Publishes R d publish → (cancel publish).Keeps (R d)) (calls d : Nat) :
    Publishes R d (Delivery.deliver (answer α μ) calls d) := by
  refine hR.delivery.deliver (fun d fuel publish hpublish q => ?_) calls d
  refine hR.answer (fun f hf w => ?_) (fun adaptive w => ?_) (hcancel d publish hpublish) q
  · refine hrunning d w _ fun h => ?_
    obtain ⟨e, he⟩ := hf.refused h
    rw [Act.after_of_ok (change_of_error he)]
    exact hR.refl d w
  · refine hrunning d w _ fun h => ?_
    rw [Act.after_of_ok (run_of_running h)]
    exact hR.refl d w

/-- Whatever subscribers do when an event reaches them during a run, they leave the run alone. -/
theorem deliver_keeps (calls d : Nat) :
    Publishes WhileRunning d (Delivery.deliver (answer α μ) calls d) :=
  deliver_of_running whileRunning_frame (fun _ _ _ h hrunning => h hrunning hrunning)
    (fun _ _ hpublish => cancel_keeps hpublish) calls d

end Session

end Trajectory
