import Trajectory.Proofs.Number.Comparable
import Trajectory.Proofs.Settings.Standard
import Trajectory.Proofs.Stepper.Start

namespace Trajectory

variable {α : Type} [Scalar α]

namespace Range

theorem isFinite_of_make {arg : String} {start finish firstStep : α} {r : Range α}
    (h : make arg start finish firstStep = .ok r) :
    Scalar.isFinite start = true ∧ Scalar.isFinite finish = true := by
  simp only [make] at h
  split at h
  next => cases h
  next =>
    split at h
    next => cases h
    next hfinite =>
      simp only [Bool.not_eq_true', Bool.not_eq_false, Bool.and_eq_true] at hfinite
      exact hfinite.1

end Range

namespace Tolerance

theorem isFinite_of_checkPositive {setting : String} {value : α}
    (h : checkPositive setting value = .ok ()) : Scalar.isFinite value = true := by
  unfold checkPositive at h
  split at h
  next hpositive => exact (Bool.and_eq_true_iff.mp hpositive).1
  next => cases h

theorem steps_of_validate {t : Tolerance α} (h : t.validate = .ok ()) :
    (∀ value, t.minStep? = some value → Scalar.isFinite value = true) ∧
      ∀ value, t.maxStep? = some value → Scalar.isFinite value = true := by
  have hpassed := passed_of_validate h
  refine ⟨fun value hvalue => ?_, fun value hvalue => ?_⟩
  · have hmin := hpassed.minStep
    rw [hvalue] at hmin
    exact isFinite_of_checkPositive hmin
  · have hmax := hpassed.maxStep
    rw [hvalue] at hmax
    exact isFinite_of_checkPositive hmax

open Scalar (Comparable)

variable [Comparable α] {t : Tolerance α} {r : Range α}

theorem minStep_le_self (h : t.validate = .ok ()) : t.minStep ≤ t.minStep := by
  unfold minStep
  cases hmin : t.minStep? with
  | none => exact Comparable.leastStep
  | some value => exact Comparable.le_self value ((steps_of_validate h).1 value hmin)

theorem maxStep_le_self (h : t.validate = .ok ()) (hr : r.Valid) : t.maxStep r ≤ t.maxStep r := by
  obtain ⟨hstart, hfinish⟩ := Range.isFinite_of_make hr
  unfold maxStep
  cases hmax : t.maxStep? with
  | none => exact Comparable.part r.finish r.start hfinish hstart
  | some value => exact Comparable.le_self value ((steps_of_validate h).2 value hmax)

theorem minStep_le_maxStep (h : t.validate = .ok ()) (hr : r.Valid)
    (hsteps : checkSteps t.minStep (t.maxStep r) = .ok ()) : t.minStep ≤ t.maxStep r := by
  refine Comparable.le_of_not_lt _ _ (minStep_le_self h) (maxStep_le_self h hr) fun hlt => ?_
  rw [checkSteps, if_pos hlt] at hsteps
  cases hsteps

end Tolerance

theorem Controller.exists_start [Scalar.Comparable α] {s : OdeSystem α} {r : Range α}
    {t : Tolerance α} {y : List α} (hvalid : t.validate = .ok ()) (hr : r.Valid)
    (hsteps : Tolerance.checkSteps t.minStep (t.maxStep r) = .ok ()) (hsize : y.length = s.size)
    (adaptive : Bool) : ∃ c, start s r t y adaptive = .ok c := by
  unfold start
  dsimp only
  rw [hvalid, hsteps]
  change ∃ c, (if y.length ≠ s.size then _ else _) = _
  rw [if_neg (not_not.mpr hsize)]
  cases adaptive with
  | true =>
    rw [if_pos rfl, clamp, if_pos (Tolerance.minStep_le_maxStep hvalid hr hsteps)]
    exact ⟨_, rfl⟩
  | false => exact ⟨_, rfl⟩

end Trajectory
