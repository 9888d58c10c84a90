import Trajectory.Proofs.Number.Rounded
import Trajectory.Proofs.Settings.Checks
import Trajectory.Proofs.Stepper.Advance
import Trajectory.Proofs.Stepper.Start

namespace Trajectory.Controller

open Scalar (zero)
open Scalar.Rounded (le_refl lt_trans lt_of_le_of_lt lt_of_lt_of_le le_of_lt not_le not_lt)

variable {α : Type} [Scalar α] [Scalar.Rounded α] {c after : Controller α} {s : AcceptedStep α}
  {r : Rejection α} {tries : Nat}

/-- The controller has not passed the end, and its next step goes forward. -/
structure OnCourse (c : Controller α) : Prop where
  place : c.x < c.finish ∨ c.x = c.finish
  step : zero < c.h
  minStep : zero < c.minStep

theorem lt_of_not_finished (h : c.finished = false) : c.x < c.finish := by
  unfold finished at h
  rw [decide_eq_false_iff_not] at h
  exact not_le.mp h

theorem OnCourse.eq_of_finished (hc : OnCourse c) (h : c.finished = true) : c.x = c.finish := by
  rcases hc.place with hplace | hplace
  · unfold finished at h
    rw [decide_eq_true_eq] at h
    exact absurd h (not_le.mpr hplace)
  · exact hplace

theorem minStep_le_of_retrySize {h factor next : α} (hnext : c.retrySize h factor = .ok next) :
    c.minStep ≤ next := by
  obtain ⟨size, hclamp, hnext⟩ := bind_eq_ok.mp hnext
  split at hnext
  next =>
    cases hnext
    exact Scalar.Rounded.le_max _ _
  next =>
    cases hnext
    exact Scalar.Rounded.low_le_of_clamp hclamp

theorem moved_of_nextPair {pair : StepPair α} (hstep : zero < c.h) (hpair : c.nextPair = .ok pair)
    (hlast : c.nextSize.2 = false) : c.x < c.x + c.h ∧ c.x + c.h < c.finish := by
  obtain ⟨hsize, hshort⟩ := nextSize_of_not_last hlast
  have hlarge : Stepper.tooSmall c.x c.h = false := by
    unfold nextPair at hpair
    split at hpair
    next => cases hpair
    next hsmall =>
      rw [hlast, hsize] at hsmall
      simpa using hsmall
  have hle : c.x + c.h ≤ c.x + c.h * stretch :=
    Scalar.Rounded.add_le_add_left (Scalar.Rounded.le_stretched c.h hstep) c.x
  exact ⟨Scalar.Rounded.lt_add c.x c.h hstep hlarge, lt_of_le_of_lt hle (not_le.mp hshort)⟩

theorem place_of_moved {pair : StepPair α} (hstep : zero < c.h) (hplace : c.x < c.finish)
    (hpair : c.nextPair = .ok pair) :
    let after := c.moved c.nextSize.1 c.nextSize.2 pair.fifth
    c.x < after.x ∧ (after.x < c.finish ∨ after.x = c.finish) := by
  cases hlast : c.nextSize.2 with
  | true => exact ⟨hplace, .inr rfl⟩
  | false =>
    obtain ⟨hforward, hshort⟩ := moved_of_nextPair hstep hpair hlast
    rw [(nextSize_of_not_last hlast).1]
    exact ⟨hforward, .inl hshort⟩

theorem OnCourse.accepted (hc : OnCourse c) (hgo : c.x < c.finish)
    (h : c.attempt = .accepted after s) : OnCourse after ∧ c.x < after.x := by
  cases tried_of_eq h with
  | fixed hpair hmode =>
    obtain ⟨hforward, hplace⟩ := place_of_moved hc.step hgo hpair
    exact ⟨⟨hplace, hc.step, hc.minStep⟩, hforward⟩
  | adapted hpair hmode hjudge hnorm hnext =>
    obtain ⟨hforward, hplace⟩ := place_of_moved hc.step hgo hpair
    have hlow := Scalar.Rounded.low_le_of_clamp hnext
    exact ⟨⟨hplace, lt_of_lt_of_le hc.minStep hlow, hc.minStep⟩, hforward⟩

theorem OnCourse.rejected (hc : OnCourse c) (h : c.attempt = .rejected after r) :
    OnCourse after ∧ after.x = c.x := by
  cases tried_of_eq h with
  | rejected hpair hmode hjudge hnorm hleast hnext =>
    have hlow := minStep_le_of_retrySize hnext
    exact ⟨⟨hc.place, lt_of_lt_of_le hc.minStep hlow, hc.minStep⟩, rfl⟩

theorem OnCourse.advance (hc : OnCourse c) (hgo : c.finished = false)
    (h : (c.advance tries).outcome = .step s) :
    OnCourse (c.advance tries).controller ∧ c.x < (c.advance tries).controller.x := by
  have hplace := lt_of_not_finished hgo
  obtain ⟨last, ⟨hlast, hx, hfinish⟩, hended⟩ : ∃ last,
      (OnCourse last ∧ last.x = c.x ∧ last.finish = c.finish) ∧ Ended last (c.advance tries) := by
    -- Rejections leave the place, so the last try starts where the first one did.
    refine exists_ended ⟨hc, rfl, rfl⟩ fun d after r hd hattempt => ?_
    obtain ⟨hd, hx, hfinish⟩ := hd
    obtain ⟨hafter, hsame⟩ := hd.rejected hattempt
    exact ⟨hafter, hsame.trans hx, (moves_of_rejected hattempt).finish.trans hfinish⟩
  cases hended with
  | step hattempt hcontroller houtcome =>
    rw [hcontroller, ← hx]
    exact hlast.accepted (by rwa [hx, hfinish]) hattempt
  | failure _ _ houtcome => simp [h] at houtcome
  | exhausted _ houtcome => simp [h] at houtcome

theorem onCourse_of_start {system : OdeSystem α} {range : Range α} {t : Tolerance α} {y : List α}
    {adaptive : Bool} (hrange : range.start < range.finish) (hstep : zero < range.firstStep)
    (h : start system range t y adaptive = .ok c) : OnCourse c := by
  have hstarted := started_of_start h
  have hminStep : zero < t.minStep := (Tolerance.proper_of_validate hstarted.validated).minStep_pos
  have hfields := hstarted.fields
  refine ⟨.inl ?_, ?_, ?_⟩
  · rw [hfields]
    exact hrange
  · cases adaptive with
    | true => exact lt_of_lt_of_le hminStep (Scalar.Rounded.low_le_of_clamp (hstarted.clamped rfl))
    | false =>
      rw [hstarted.fixed rfl]
      exact hstep
  · rw [hfields]
    exact hminStep

end Trajectory.Controller
