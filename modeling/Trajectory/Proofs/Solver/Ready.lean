import Trajectory.Proofs.Settings.Standard
import Trajectory.Proofs.Solver.Reachable
import Trajectory.Proofs.Solver.Steps

namespace Trajectory

namespace Solver

variable {α : Type} [Scalar α] {s : Solver α}

/-- No run is in progress, and the tolerance has passed its checks. -/
structure Ready (s : Solver α) : Prop where
  idle : s.running = false
  tolerance : s.tolerance.validate = .ok ()

theorem Ready.checkIdle (h : s.Ready) : s.checkIdle = .ok () := by
  unfold Solver.checkIdle
  rw [if_neg (by simp [h.idle])]

theorem Ready.setRange (h : s.Ready) {r : Range α} (hr : r.Valid) :
    s.setRange r.arg r.start r.finish r.firstStep = .ok ⟨{ s with range := r }, .rangeChanged, r⟩ :=
  bind_eq_ok.mpr ⟨r, mapError_eq_ok.mpr hr, bind_eq_ok.mpr ⟨(), h.checkIdle, rfl⟩⟩

theorem Ready.setTolerance (h : s.Ready) {t : Tolerance α} (ht : t.validate = .ok ()) :
    s.setTolerance t.absolute t.relative = .ok
      ⟨{ s with tolerance := { s.tolerance with absolute := t.absolute, relative := t.relative } },
        .toleranceChanged, t.absolute, t.relative⟩ := by
  have hnew := Tolerance.passed_of_validate ht
  refine bind_eq_ok.mpr ⟨(), mapError_eq_ok.mpr hnew.absolute, ?_⟩
  exact bind_eq_ok.mpr ⟨(), mapError_eq_ok.mpr hnew.relative, bind_eq_ok.mpr ⟨(), h.checkIdle, rfl⟩⟩

theorem Ready.setStepControl (h : s.Ready) {f : Tolerance α → Tolerance α}
    (hvalid : (f s.tolerance).validate = .ok ()) : s.setStepControl f =
      .ok ⟨{ s with tolerance := f s.tolerance }, .stepControlChanged, f s.tolerance⟩ :=
  bind_eq_ok.mpr ⟨(), h.checkIdle, bind_eq_ok.mpr ⟨(), mapError_eq_ok.mpr hvalid, rfl⟩⟩

theorem Ready.setFactorBounds (h : s.Ready) {t : Tolerance α} (ht : t.validate = .ok ()) :
    let tolerance := { s.tolerance with minFactor := t.minFactor, maxFactor := t.maxFactor }
    s.setFactorBounds t.minFactor t.maxFactor =
      .ok ⟨{ s with tolerance }, .stepControlChanged, tolerance⟩ := by
  have hold := Tolerance.passed_of_validate h.tolerance
  have hnew := Tolerance.passed_of_validate ht
  exact h.setStepControl (Tolerance.Passed.validate { hold with
    minFactor := hnew.minFactor, maxFactor := hnew.maxFactor, factors := hnew.factors })

theorem Ready.setSafety (h : s.Ready) {t : Tolerance α} (ht : t.validate = .ok ()) :
    let tolerance := { s.tolerance with safety := t.safety }
    s.setSafety t.safety = .ok ⟨{ s with tolerance }, .stepControlChanged, tolerance⟩ := by
  have hold := Tolerance.passed_of_validate h.tolerance
  have hnew := Tolerance.passed_of_validate ht
  exact h.setStepControl (Tolerance.Passed.validate { hold with safety := hnew.safety })

theorem Ready.setStepBounds (h : s.Ready) {t : Tolerance α} (ht : t.validate = .ok ()) :
    let tolerance := { s.tolerance with minStep? := t.minStep?, maxStep? := t.maxStep? }
    s.setStepBounds t.minStep? t.maxStep? =
      .ok ⟨{ s with tolerance }, .stepControlChanged, tolerance⟩ := by
  have hold := Tolerance.passed_of_validate h.tolerance
  have hnew := Tolerance.passed_of_validate ht
  exact h.setStepControl (Tolerance.Passed.validate { hold with
    minStep := hnew.minStep, maxStep := hnew.maxStep, steps := hnew.steps })

theorem Ready.setNorm (h : s.Ready) (norm : ErrorNorm) :
    let tolerance := { s.tolerance with norm }
    s.setNorm norm = .ok ⟨{ s with tolerance }, .stepControlChanged, tolerance⟩ := by
  have hold := Tolerance.passed_of_validate h.tolerance
  exact h.setStepControl (Tolerance.Passed.validate { hold with })

end Solver

namespace Session

open Delivery (deliver)
open Delivery.Frame (Publishes)

variable {α μ : Type}

/-- A solver without a run in progress does not come to have one. -/
def StaysIdle (_ : Nat) (w v : World (protocol α μ)) : Prop :=
  w.state.solver.running = false → v.state.solver.running = false

theorem staysIdle_frame : Frame (StaysIdle (α := α) (μ := μ)) where
  trans _ _ _ _ huv hvw hu := hvw (huv hu)
  mono _ _ _ h := h
  called _ _ _ _ _ h := h
  returned _ _ _ _ _ _ h := h
  aside _ _ _ h hidle := by
    rw [h.solver]
    exact hidle

variable [Scalar α]

theorem Setting.running {f : Solver α → Except (SolverError α) (Change α)} (hf : Setting f)
    {s : Solver α} {c : Change α} (h : f s = .ok c) : c.solver.running = s.running := by
  obtain ⟨_, hchanged⟩ := hf.changed h
  cases hchanged <;> rfl

theorem Setting.validated {f : Solver α → Except (SolverError α) (Change α)} (hf : Setting f)
    {s : Solver α} {c : Change α} (h : f s = .ok c) (hs : s.tolerance.validate = .ok ()) :
    c.solver.tolerance.validate = .ok () := by
  obtain ⟨_, hchanged⟩ := hf.changed h
  cases hchanged with
  | tolerance habsolute hrelative => exact Tolerance.validate_of_positive hs habsolute hrelative
  | stepControl hvalid => exact hvalid
  | _ => exact hs

theorem Setting.ready {f : Solver α → Except (SolverError α) (Change α)} (hf : Setting f)
    {s : Solver α} {c : Change α} (h : f s = .ok c) (hs : s.Ready) : c.solver.Ready :=
  ⟨(hf.running h).trans hs.idle, hf.validated h hs.tolerance⟩

theorem lasting_validated [Scalar.Usual α] :
    Lasting fun s : Solver α => s.tolerance.validate = .ok () where
  fresh := Scalar.Usual.tolerance
  setting _ _ _ hf hs h := hf.validated h hs
  noted s t h hs := by
    rw [h]
    exact hs

theorem change_stays_idle {publish : Publish α μ} {d : Nat} (hpublish : Publishes StaysIdle d publish)
    {f : Solver α → Except (SolverError α) (Change α)} (hf : Setting f) :
    (change publish f).Keeps (StaysIdle d) := by
  intro w hidle
  cases hchange : f w.state.solver with
  | error e =>
    rw [Act.after_of_ok (change_of_error hchange)]
    exact hidle
  | ok c =>
    unfold Act.after
    rw [change_of_ok hchange]
    change ((publish c.event.channel c.event.payload >>= fun _ =>
      pure (.ok ()) : Action α μ (Result α Unit)).after (withSolver w c.solver)).state.solver.running = _
    rw [Act.after_bind_pure]
    exact hpublish _ _ _ ((hf.running hchange).trans hidle)

variable [Numeral α]

/-- A run that has come to its end is not in progress, however it ended. -/
theorem deliver_stays_idle (calls d : Nat) :
    Publishes StaysIdle d (deliver (answer α μ) calls d) := by
  have hframe := staysIdle_frame (α := α) (μ := μ)
  refine hframe.delivery.deliver (fun d fuel publish hpublish q => ?_) calls d
  refine hframe.answer (fun f hf => change_stays_idle hpublish hf) (fun adaptive w hidle => ?_) ?_ q
  · unfold Act.after
    rw [run_of_idle hidle]
    change ((releasing _).after _).state.solver.running = false
    rw [after_releasing]
    rfl
  · refine hframe.bind (fun w hidle => hidle) fun _ => ?_
    refine hframe.bind (fun w hidle => hidle) fun _ => ?_
    exact hframe.bind (fun w hidle => hpublish .canceled () w hidle) fun _ => hframe.pure ()

theorem ready_of_inOrder [Scalar.Usual α] {calls d : Nat}
    {fs : List (Solver α → Except (SolverError α) (Change α))} (hfs : ∀ f ∈ fs, Setting f)
    {w v : World (protocol α μ)} {r : Result α Unit}
    (h : Task.inOrder (fs.map (change (deliver (answer α μ) calls d))) w = .ok r v)
    (hw : w.state.solver.Ready) : v.state.solver.Ready := by
  have hvalidated := (lasting_validated (α := α)).pervasive (μ := μ)
  have hacts {R : Nat → World (protocol α μ) → World (protocol α μ) → Prop} (hR : Frame R)
      (hchange : ∀ f, Setting f → (change (deliver (answer α μ) calls d) f).Keeps (R d)) : R d w v := by
    have hall : (Task.inOrder (fs.map (change (deliver (answer α μ) calls d)))).Keeps (R d) := by
      refine hR.inOrder fun act hact => ?_
      obtain ⟨f, hf, rfl⟩ := List.mem_map.mp hact
      exact hchange f (hfs f hf)
    rw [← Act.after_of_ok h]
    exact hall w
  have hidle := hacts staysIdle_frame fun f hf => change_stays_idle (deliver_stays_idle calls d) hf
  have htolerance := hacts hvalidated.toFrame fun f hf =>
    hvalidated.setting_keeps (hvalidated.deliver_keeps calls d) hf
  exact ⟨hidle hw.idle, htolerance hw.tolerance⟩

end Session

end Trajectory
