import Trajectory.Outcome
import Trajectory.Proofs.Stepper.Attempt

namespace Trajectory.Controller

variable {α : Type} [Scalar α] {s : OdeSystem α} {r : Range α} {t : Tolerance α} {y : List α}
  {adaptive : Bool} {c : Controller α}

/-- A controller that stands at the start of a range, with a valid tolerance. -/
structure Started (s : OdeSystem α) (r : Range α) (t : Tolerance α) (y : List α) (adaptive : Bool)
    (c : Controller α) : Prop where
  fields : c =
    { system := s, arg := r.arg, tolerance := t, adaptive, minStep := t.minStep,
      maxStep := t.maxStep r, finish := r.finish, x := r.start, y, h := c.h, accepted := 0,
      rejected := 0 }
  validated : t.validate = .ok ()
  steps : Tolerance.checkSteps t.minStep (t.maxStep r) = .ok ()
  clamped : adaptive = true →
    clamp (ε := SolverError α) r.firstStep t.minStep (t.maxStep r) = .ok c.h
  fixed : adaptive = false → c.h = r.firstStep

theorem started_of_start (h : start s r t y adaptive = .ok c) : Started s r t y adaptive c := by
  obtain ⟨_, hvalid, h⟩ := bind_eq_ok.mp h
  obtain ⟨_, hsteps, h⟩ := bind_eq_ok.mp h
  dsimp only at h
  split at h
  next => cases h
  next =>
    have hvalid := mapError_eq_ok.mp hvalid
    have hsteps := mapError_eq_ok.mp hsteps
    cases adaptive with
    | true =>
      obtain ⟨size, hclamp, h⟩ := bind_eq_ok.mp h
      cases h
      exact ⟨rfl, hvalid, hsteps, fun _ => hclamp, (fun hmode => by cases hmode)⟩
    | false =>
      cases h
      exact ⟨rfl, hvalid, hsteps, (fun hmode => by cases hmode), fun _ => rfl⟩

theorem start_causedBy : Checked.CausedBy (fun e => ∃ fault, e = .configuration fault)
    (start s r t y adaptive) := by
  have hconfiguration (f : ToleranceFault α) (e : SolverError α)
      (h : toleranceError f = .cause e) : ∃ fault, e = .configuration fault := by
    cases h
    exact ⟨.tolerance f, rfl⟩
  refine .bind (.mapError hconfiguration) fun _ => .bind (.mapError hconfiguration) fun _ => ?_
  dsimp only
  split
  · intro e h
    cases h
    exact ⟨.valueCount _ _, rfl⟩
  · split
    · exact .bind (clamp_causedBy _ _ _) fun _ => .ok _
    · exact .ok _

end Trajectory.Controller
