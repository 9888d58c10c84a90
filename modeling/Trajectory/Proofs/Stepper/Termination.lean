import Trajectory.OdeSystem.Reduction
import Trajectory.Proofs.Number.Exact
import Trajectory.Proofs.Number.Fraction
import Trajectory.Proofs.Settings.Checks
import Trajectory.Proofs.Stepper.Advance
import Trajectory.Proofs.Stepper.Start

namespace Trajectory.Controller

open Scalar (zero one)
open Scalar.Exact (value)

variable {α : Type} [Scalar α] {c after : Controller α} {r : Rejection α}

/-- The try is rejected on its way to the end of the range, and the next one goes there as well. -/
def stuck (c : Controller α) : Bool :=
  match c.attempt with
  | .rejected after _ => c.nextSize.2 && after.nextSize.2
  | _ => false

theorem stuck_of_attempt (h : c.attempt = .rejected after r) :
    c.stuck = (c.nextSize.2 && after.nextSize.2) := by rw [stuck, h]

theorem exists_rejected_of_stuck (h : c.stuck = true) : ∃ after r,
    c.attempt = .rejected after r ∧ c.nextSize.2 = true ∧ after.nextSize.2 = true := by
  unfold stuck at h
  split at h
  next after r hattempt => exact ⟨after, r, hattempt, Bool.and_eq_true_iff.mp h⟩
  next => cases h

theorem attempt_of_judged {pair : StepPair α} {norm factor next : α} (hpair : c.nextPair = .ok pair)
    (hmode : c.adaptive = true) (hjudge : c.judge pair = .ok (norm, factor))
    (hnorm : ¬ norm ≤ one) (hleast : ¬ c.nextSize.1 ≤ c.minStep)
    (hnext : c.retrySize c.nextSize.1 factor = .ok next) :
    c.attempt = .rejected { c with rejected := c.rejected + 1, h := next }
      ⟨c.x, c.nextSize.1, norm, next⟩ := by
  rw [attempt_eq, hpair]
  dsimp only
  rw [if_pos hmode]
  unfold attemptAdaptive
  rw [show (do
      let norm ← Stepper.errorNorm c.tolerance c.y pair.fifth pair.fourth
      let factor ← Stepper.stepFactor c.tolerance norm
      pure (norm, factor)) = c.judge pair from rfl, hjudge]
  dsimp only
  rw [if_neg hnorm, if_neg hleast, hnext]

/-- A controller that is stuck is stuck again after the try. -/
theorem stuck_of_rejected (hstuck : c.stuck = true) :
    ∃ after r, c.attempt = .rejected after r ∧ after.stuck = true := by
  obtain ⟨after, r, hattempt, hlast, hagain⟩ := exists_rejected_of_stuck hstuck
  refine ⟨after, r, hattempt, ?_⟩
  cases tried_of_eq hattempt with
  | @rejected pair norm factor next hpair hmode hjudge hnorm hleast hnext =>
    -- Both tries go from the same place to the end, so the second one is judged like the first.
    have hsize : nextSize { c with rejected := c.rejected + 1, h := next } = c.nextSize := by
      have hfirst := (nextSize_of_last hlast).1
      have hsecond := (nextSize_of_last hagain).1
      exact Prod.ext (hsecond.trans hfirst.symm) (hagain.trans hlast.symm)
    have hpair' : nextPair { c with rejected := c.rejected + 1, h := next } = .ok pair := by
      rw [← hpair]
      unfold nextPair
      rw [hsize]
      rfl
    have hattempt' := attempt_of_judged hpair' hmode hjudge hnorm (by rwa [hsize])
      (by rw [hsize]; exact hnext)
    rw [stuck_of_attempt hattempt']
    exact Bool.and_eq_true_iff.mpr ⟨hagain, hagain⟩

theorem exhausted_of_stuck (hstuck : c.stuck = true) (tries : Nat) :
    (c.advance tries).outcome = .exhausted := by
  induction tries generalizing c with
  | zero => rfl
  | succ tries ih =>
    obtain ⟨after, r, hattempt, hagain⟩ := stuck_of_rejected hstuck
    rw [advance, hattempt]
    exact ih hagain

theorem least_of_rejected (h : c.attempt = .rejected after r) : ¬ c.nextSize.1 ≤ c.minStep := by
  cases tried_of_eq h with
  | rejected _ _ _ _ hleast _ => exact hleast

section Reached

variable {s : OdeSystem α} {range : Range α} {t : Tolerance α} {y : List α} {adaptive : Bool}

/-- The controllers that a run over a range can come to, try after try. -/
inductive Reached (s : OdeSystem α) (range : Range α) (t : Tolerance α) (y : List α)
    (adaptive : Bool) : Controller α → Prop
  | start {c : Controller α} (h : start s range t y adaptive = .ok c) : Reached s range t y adaptive c
  | attempt {c : Controller α} (h : Reached s range t y adaptive c) :
      Reached s range t y adaptive c.attempt.controller

theorem Reached.advance (h : Reached s range t y adaptive c) (tries : Nat) :
    Reached s range t y adaptive (c.advance tries).controller := by
  obtain ⟨last, hlast, hended⟩ : ∃ last, Reached s range t y adaptive last ∧
      Ended last (c.advance tries) := by
    refine exists_ended h fun d after r hd hattempt => ?_
    have hafter := hd.attempt
    rwa [hattempt] at hafter
  have hafter := hlast.attempt
  cases hended with
  | step hattempt hcontroller _ =>
    rw [hattempt] at hafter
    rwa [hcontroller]
  | failure hattempt hcontroller _ =>
    rw [hattempt] at hafter
    rwa [hcontroller]
  | exhausted hcontroller _ => rwa [hcontroller]

end Reached

section Exact

variable [Scalar.Exact α] {s : OdeSystem α} {range : Range α} {t : Tolerance α} {y : List α}
  {adaptive : Bool}

/-- The factor by which a rejected step shrinks at least. -/
def shrink (t : Tolerance α) : ℝ := max (value t.minFactor) (value t.safety)

/-- What the tries for a step rely on in the tolerance of a controller. -/
structure Shrinks (c : Controller α) : Prop where
  proper : c.tolerance.Proper
  minStep : zero < c.minStep
  minFactor : c.tolerance.minFactor < one
  safety : c.tolerance.safety < one

/-- The power by which a step shrinks with its error. -/
def PowerShrinks (α : Type) [Scalar α] : Prop :=
  ∀ norm : α, one < norm → Scalar.power norm (-Scalar.ofDecimal 2 (-1)) < one

omit [Scalar.Exact α] in
theorem Shrinks.of_moves (hc : Shrinks c) (h : Moves c after) : Shrinks after := by
  refine ⟨?_, ?_, ?_, ?_⟩
  · rw [h.tolerance]
    exact hc.proper
  · rw [h.minStep]
    exact hc.minStep
  · rw [h.tolerance]
    exact hc.minFactor
  · rw [h.tolerance]
    exact hc.safety

theorem Shrinks.shrink_lt_one (h : Shrinks c) : shrink c.tolerance < 1 := by
  have hfactor := (Scalar.Exact.lt_iff _ _).mp h.minFactor
  have hsafety := (Scalar.Exact.lt_iff _ _).mp h.safety
  rw [Scalar.Exact.value_one] at hfactor hsafety
  exact max_lt hfactor hsafety

theorem Shrinks.value_minStep_pos (h : Shrinks c) : 0 < value c.minStep := by
  simpa using (Scalar.Exact.lt_iff _ _).mp h.minStep

theorem value_stretch_pos : (0 : ℝ) < value (stretch : α) := by
  rw [Scalar.Exact.value_stretch]
  positivity

theorem Shrinks.shrink_pos (h : Shrinks c) : 0 < shrink c.tolerance := by
  have hsafety := (Scalar.Exact.lt_iff _ _).mp h.proper.safety
  rw [Scalar.Exact.value_zero] at hsafety
  exact lt_max_of_lt_right hsafety

theorem factor_le (hpower : PowerShrinks α) (hsafety : zero < t.safety) {norm factor : α}
    (hnorm : ¬ norm ≤ one) (h : Stepper.stepFactor (ε := SolverError α) t norm = .ok factor) :
    value factor ≤ shrink t := by
  have hlarge : one < norm := Scalar.Rounded.not_le.mp hnorm
  have hzero : ¬ (norm == zero) = true := by
    rw [Scalar.Exact.beq_iff, Scalar.Exact.value_zero]
    rw [Scalar.Exact.lt_iff, Scalar.Exact.value_one] at hlarge
    intro heq
    linarith
  unfold Stepper.stepFactor at h
  rw [if_neg (by simp [Scalar.Exact.isFinite_eq]), if_neg hzero] at h
  rcases Scalar.Rounded.le_of_clamp h with hlow | hscaled
  · exact ((Scalar.Exact.le_iff _ _).mp hlow).trans (le_max_left _ _)
  · have hpow := (Scalar.Exact.lt_iff _ _).mp (hpower norm hlarge)
    have hscaled := (Scalar.Exact.le_iff _ _).mp hscaled
    have hpos := (Scalar.Exact.lt_iff _ _).mp hsafety
    rw [Scalar.Exact.value_one] at hpow
    rw [Scalar.Exact.value_mul] at hscaled
    rw [Scalar.Exact.value_zero] at hpos
    have hproduct : value t.safety * value (Scalar.power norm (-Scalar.ofDecimal 2 (-1))) ≤
        value t.safety := by nlinarith
    exact (hscaled.trans hproduct).trans (le_max_right _ _)

theorem retry_le {size factor next : α} {bound : ℝ} (hmin : zero < c.minStep)
    (hleast : ¬ size ≤ c.minStep) (hfactor : value factor ≤ bound) (hbound : bound < 1)
    (h : c.retrySize size factor = .ok next) :
    value next < value size ∧ (value next ≤ value c.minStep ∨ value next ≤ value size * bound) := by
  have hmin := (Scalar.Exact.lt_iff _ _).mp hmin
  have hleast := Scalar.Exact.not_le_iff.mp hleast
  rw [Scalar.Exact.value_zero] at hmin
  have hpos : 0 < value size := hmin.trans hleast
  obtain ⟨clamped, hclamp, h⟩ := bind_eq_ok.mp h
  have hsmall : value clamped ≤ value c.minStep ∨ value clamped ≤ value size * bound := by
    rcases Scalar.Rounded.le_of_clamp hclamp with hlow | hscaled
    · exact .inl ((Scalar.Exact.le_iff _ _).mp hlow)
    · have hscaled := (Scalar.Exact.le_iff _ _).mp hscaled
      rw [Scalar.Exact.value_mul] at hscaled
      exact .inr (hscaled.trans (mul_le_mul_of_nonneg_left hfactor hpos.le))
  have hless : value clamped < value size := by
    rcases hsmall with hlow | hscaled
    · exact lt_of_le_of_lt hlow hleast
    · nlinarith
  have hkept : ¬ size ≤ clamped := Scalar.Exact.not_le_iff.mpr hless
  rw [if_neg hkept] at h
  cases h
  exact ⟨hless, hsmall⟩

theorem of_rejected (hpower : PowerShrinks α) (hc : Shrinks c)
    (h : c.attempt = .rejected after r) :
    after = { c with rejected := c.rejected + 1, h := after.h } ∧
      value after.h < value c.nextSize.1 ∧
        (value after.h ≤ value c.minStep ∨
          value after.h ≤ value c.nextSize.1 * shrink c.tolerance) := by
  cases tried_of_eq h with
  | rejected hpair hmode hjudge hnorm hleast hnext =>
    obtain ⟨_, _, hjudge⟩ := bind_eq_ok.mp hjudge
    obtain ⟨_, hfactor, hjudge⟩ := bind_eq_ok.mp hjudge
    cases hjudge
    have hbound := factor_le hpower hc.proper.safety hnorm hfactor
    exact ⟨rfl, retry_le hc.minStep hleast hbound hc.shrink_lt_one hnext⟩

theorem not_last_of_rejected (hpower : PowerShrinks α) (hc : Shrinks c) (hlast : c.nextSize.2 = false)
    (h : c.attempt = .rejected after r) : after.nextSize.2 = false := by
  obtain ⟨hafter, hless, _⟩ := of_rejected hpower hc h
  obtain ⟨hsize, hshort⟩ := nextSize_of_not_last hlast
  rw [hsize] at hless
  have hstretch : (0 : ℝ) < value (stretch : α) := value_stretch_pos
  have hafterShort : ¬ after.finish ≤ after.x + after.h * stretch := by
    rw [Scalar.Exact.not_le_iff, Scalar.Exact.value_add, Scalar.Exact.value_mul] at hshort ⊢
    have hproduct := mul_lt_mul_of_pos_right hless hstretch
    have hx : after.x = c.x := by rw [hafter]
    have hfinish : after.finish = c.finish := by rw [hafter]
    rw [hx, hfinish]
    linarith
  unfold nextSize
  rw [if_neg hafterShort]

/-- From a step that falls short of the end, `n` rejections lead to the least step. -/
theorem not_exhausted_of_small (hpower : PowerShrinks α) {n : Nat} (hc : Shrinks c)
    (hlast : c.nextSize.2 = false)
    (hsize : value c.h * shrink c.tolerance ^ n ≤ value c.minStep) :
    (c.advance (n + 1)).outcome ≠ .exhausted := by
  induction n generalizing c with
  | zero =>
    rw [advance]
    split
    next => exact fun h => by cases h
    next => exact fun h => by cases h
    next after r hattempt =>
      have hleast := least_of_rejected hattempt
      rw [(nextSize_of_not_last hlast).1, Scalar.Exact.le_iff] at hleast
      simp only [pow_zero, mul_one] at hsize
      exact absurd hsize hleast
  | succ n ih =>
    rw [advance]
    split
    next => exact fun h => by cases h
    next => exact fun h => by cases h
    next after r hattempt =>
      obtain ⟨_, _, hsmall⟩ := of_rejected hpower hc hattempt
      have hmoves := moves_of_rejected hattempt
      have hpow : 0 ≤ shrink c.tolerance ^ n := pow_nonneg hc.shrink_pos.le n
      have hpowOne : shrink c.tolerance ^ n ≤ 1 :=
        pow_le_one₀ hc.shrink_pos.le hc.shrink_lt_one.le
      have hminPos := hc.value_minStep_pos
      refine ih (hc.of_moves hmoves) (not_last_of_rejected hpower hc hlast hattempt) ?_
      rw [hmoves.tolerance, hmoves.minStep]
      rw [(nextSize_of_not_last hlast).1] at hsmall
      -- The rejection took one factor off the power, or went to the least step at once.
      rcases hsmall with hlow | hshrunk
      · nlinarith
      · calc value after.h * shrink c.tolerance ^ n
            ≤ value c.h * shrink c.tolerance * shrink c.tolerance ^ n :=
              mul_le_mul_of_nonneg_right hshrunk hpow
          _ = value c.h * shrink c.tolerance ^ (n + 1) := by ring
          _ ≤ value c.minStep := hsize

theorem exists_pow_le (hc : Shrinks c) :
    ∃ n, value c.h * shrink c.tolerance ^ n ≤ value c.minStep := by
  have hminPos := hc.value_minStep_pos
  have hsize : 0 < |value c.h| + 1 := by positivity
  obtain ⟨n, hn⟩ := exists_pow_lt_of_lt_one (div_pos hminPos hsize) hc.shrink_lt_one
  refine ⟨n, ?_⟩
  rw [lt_div_iff₀ hsize] at hn
  have hpow : 0 ≤ shrink c.tolerance ^ n := pow_nonneg hc.shrink_pos.le n
  have habs := le_abs_self (value c.h)
  nlinarith

theorem exists_not_exhausted (hpower : PowerShrinks α) (hc : Shrinks c) (hstuck : c.stuck = false) :
    ∃ tries, (c.advance tries).outcome ≠ .exhausted := by
  cases hattempt : c.attempt with
  | accepted after step =>
    refine ⟨1, ?_⟩
    rw [advance, hattempt]
    exact fun h => by cases h
  | failed after f =>
    refine ⟨1, ?_⟩
    rw [advance, hattempt]
    exact fun h => by cases h
  | rejected after r =>
    have hshort : after.nextSize.2 = false := by
      cases hlast : c.nextSize.2 with
      | true =>
        rw [stuck_of_attempt hattempt, hlast, Bool.true_and] at hstuck
        exact hstuck
      | false => exact not_last_of_rejected hpower hc hlast hattempt
    have hafter := hc.of_moves (moves_of_rejected hattempt)
    obtain ⟨n, hn⟩ := exists_pow_le hafter
    refine ⟨n + 1 + 1, ?_⟩
    rw [advance, hattempt]
    exact not_exhausted_of_small hpower hafter hshort hn

theorem Reached.shrinks (hmin : t.minFactor < one) (hsafety : t.safety < one)
    (h : Reached s range t y adaptive c) : Shrinks c := by
  induction h with
  | @start c h =>
    have hstarted := started_of_start h
    have hproper := Tolerance.proper_of_validate hstarted.validated
    have htolerance : c.tolerance = t := congrArg Controller.tolerance hstarted.fields
    have hminStep : c.minStep = t.minStep := congrArg Controller.minStep hstarted.fields
    refine ⟨?_, ?_, ?_, ?_⟩
    · rw [htolerance]
      exact hproper
    · rw [hminStep]
      exact hproper.minStep_pos
    · rw [htolerance]
      exact hmin
    · rw [htolerance]
      exact hsafety
  | attempt _ ih => exact ih.of_moves (moves_attempt _)

theorem shrinks_iff_not_stuck (hpower : PowerShrinks α) (hc : Shrinks c)
    (h : c.attempt = .rejected after r) :
    after.nextSize.1 < c.nextSize.1 ↔ c.stuck = false := by
  obtain ⟨hafter, hless, _⟩ := of_rejected hpower hc h
  have hstuck := stuck_of_attempt h
  cases hagain : after.nextSize.2 with
  | false =>
    rw [(nextSize_of_not_last hagain).1, hstuck, hagain, Bool.and_false, Scalar.Exact.lt_iff]
    exact ⟨fun _ => rfl, fun _ => hless⟩
  | true =>
    cases hlast : c.nextSize.2 with
    | false =>
      have hshort := not_last_of_rejected hpower hc hlast h
      rw [hagain] at hshort
      cases hshort
    | true =>
      have hsame : after.nextSize.1 = c.nextSize.1 := by
        rw [(nextSize_of_last hagain).1, (nextSize_of_last hlast).1, hafter]
      rw [hsame, hstuck, hlast, hagain, Scalar.Exact.lt_iff]
      simp

/-- Settings that let a controller be stuck: the rest of the range is longer than the least step by no
more than a stretch, or the factors make a step so little smaller that the stretch undoes it. -/
theorem near_of_stuck (hpower : PowerShrinks α) (hc : Shrinks c) (hstuck : c.stuck = true) :
    (¬ c.finish - c.x ≤ c.minStep ∧ c.finish - c.x ≤ c.minStep * stretch) ∨
      1 ≤ shrink c.tolerance * value (stretch : α) := by
  obtain ⟨after, r, hattempt, hlast, hagain⟩ := exists_rejected_of_stuck hstuck
  obtain ⟨hafter, _, hsmall⟩ := of_rejected hpower hc hattempt
  have hleast := least_of_rejected hattempt
  have hreach := (nextSize_of_last hagain).2
  have hx : after.x = c.x := by rw [hafter]
  have hfinish : after.finish = c.finish := (moves_of_rejected hattempt).finish
  rw [(nextSize_of_last hlast).1] at hleast hsmall
  rw [hx, hfinish, Scalar.Exact.le_iff, Scalar.Exact.value_add, Scalar.Exact.value_mul] at hreach
  have hstretch : (0 : ℝ) < value (stretch : α) := value_stretch_pos
  have hrest : value (c.finish - c.x) ≤ value after.h * value (stretch : α) := by
    rw [Scalar.Exact.value_sub]
    linarith
  rcases hsmall with hlow | hshrunk
  · refine .inl ⟨hleast, ?_⟩
    rw [Scalar.Exact.le_iff, Scalar.Exact.value_mul]
    exact hrest.trans (mul_le_mul_of_nonneg_right hlow hstretch.le)
  · have hmin := hc.value_minStep_pos
    have hpos : 0 < value (c.finish - c.x) := hmin.trans (Scalar.Exact.not_le_iff.mp hleast)
    have hproduct : value (c.finish - c.x) * 1 ≤
        value (c.finish - c.x) * (shrink c.tolerance * value (stretch : α)) := by
      calc value (c.finish - c.x) * 1 = value (c.finish - c.x) := mul_one _
        _ ≤ value after.h * value (stretch : α) := hrest
        _ ≤ value (c.finish - c.x) * shrink c.tolerance * value (stretch : α) :=
          mul_le_mul_of_nonneg_right hshrunk hstretch.le
        _ = value (c.finish - c.x) * (shrink c.tolerance * value (stretch : α)) := mul_assoc _ _ _
    exact .inr (le_of_mul_le_mul_left hproduct hpos)

/-- The tries for a step come to an end exactly if the controller is not stuck, and then each try
after a rejected one is made with a smaller step. -/
theorem advance_ends_iff (hpower : PowerShrinks α) (hmin : t.minFactor < one) (hsafety : t.safety < one)
    (h : Reached s range t y adaptive c) :
    ((∃ tries, (c.advance tries).outcome ≠ .exhausted) ↔ c.stuck = false) ∧
      ∀ after r, c.attempt = .rejected after r →
        (after.nextSize.1 < c.nextSize.1 ↔ c.stuck = false) := by
  have hc := h.shrinks hmin hsafety
  refine ⟨⟨?_, exists_not_exhausted hpower hc⟩, fun after r hattempt => ?_⟩
  · intro hends
    obtain ⟨tries, hends⟩ := hends
    cases hstuck : c.stuck with
    | false => rfl
    | true => exact absurd (exhausted_of_stuck hstuck tries) hends
  · exact shrinks_iff_not_stuck hpower hc hattempt

end Exact

section Examples

/-- The controller for an equation over the unit interval, from the value one. -/
def onUnit (source : String) (t : Tolerance Fraction) : Option (Controller Fraction) := do
  let s ← (OdeSystem.reduce [source]).toOption
  (start s Range.standard t [one] true).toOption

theorem exists_of_onUnit {source : String} {t : Tolerance Fraction}
    {P : Controller Fraction → Bool} (h : (onUnit source t).any P = true) :
    ∃ s c, OdeSystem.reduce [source] = .ok s ∧ start s Range.standard t [one] true = .ok c ∧
      P c = true := by
  unfold onUnit at h
  cases hsystem : (OdeSystem.reduce [source] : Except SyntaxFault (OdeSystem Fraction)) with
  | error fault =>
    rw [hsystem] at h
    cases h
  | ok s =>
    cases hstart : start s Range.standard t [one] true with
    | error f => simp [hsystem, hstart, Except.toOption] at h
    | ok c =>
      refine ⟨s, c, rfl, hstart, ?_⟩
      simpa [hsystem, hstart, Except.toOption] using h

theorem powerShrinks_fraction : PowerShrinks Fraction := by
  intro norm hnorm
  have hpower : Scalar.power norm (-Scalar.ofDecimal 2 (-1)) = (⟨norm.value⁻¹⟩ : Fraction) := by
    show (⟨Fraction.power norm.value (-mkRat 2 10)⟩ : Fraction) = _
    have hfloor : (-mkRat 2 10).floor = Int.negSucc 0 := by decide
    rw [Fraction.power, hfloor]
    simp
  have hone : (one : Fraction) = ⟨1⟩ := by decide +kernel
  rw [hone] at hnorm ⊢
  rw [hpower]
  have hlarge : 1 < norm.value := hnorm
  exact inv_lt_one_of_one_lt₀ hlarge

/-- The largest of the errors counts, which is a fraction. -/
def largestError : Tolerance Fraction := { Tolerance.standard with norm := .max }

theorem advance_ends_of_decay : ∃ s c after r,
    OdeSystem.reduce ["y' = -50*y"] = .ok s ∧
      start s Range.standard largestError [one] true = .ok c ∧ c.attempt = .rejected after r ∧
        after.nextSize.1 < c.nextSize.1 ∧ ∃ tries, (c.advance tries).outcome ≠ .exhausted := by
  have hcomputed : (onUnit "y' = -50*y" largestError).any (fun c =>
      !c.stuck && match c.attempt with
        | .rejected _ _ => true
        | _ => false) = true := by decide +kernel
  obtain ⟨s, c, hsystem, hstart, hcomputed⟩ := exists_of_onUnit hcomputed
  rw [Bool.and_eq_true, Bool.not_eq_true'] at hcomputed
  obtain ⟨hstuck, hrejected⟩ := hcomputed
  split at hrejected
  next after r hattempt =>
    have hends := advance_ends_iff powerShrinks_fraction (t := largestError) (by decide +kernel)
      (by decide +kernel) (.start hstart)
    exact ⟨s, c, after, r, hsystem, hstart, hattempt, (hends.2 after r hattempt).mpr hstuck,
      hends.1.mpr hstuck⟩
  next => cases hrejected

/-- A least step that is a little shorter than the unit interval. -/
def longSteps : Tolerance Fraction :=
  { largestError with
    minStep? := some (Scalar.ofDecimal 999999995 (-9))
    maxStep? := some one }

/-- Settings that pass every check and let the first step be tried forever. -/
theorem exists_tried_forever : ∃ range s c after r,
    Range.make "x" (zero : Fraction) one (Scalar.ofDecimal 1 (-1)) = .ok range ∧
      longSteps.minFactor < one ∧ longSteps.safety < one ∧
        OdeSystem.reduce ["y' = -50*y"] = .ok s ∧ start s range longSteps [one] true = .ok c ∧
          c.attempt = .rejected after r ∧ ¬ after.nextSize.1 < c.nextSize.1 ∧
            ∀ tries, (c.advance tries).outcome = .exhausted := by
  have hcomputed : (onUnit "y' = -50*y" longSteps).any stuck = true := by decide +kernel
  obtain ⟨s, c, hsystem, hstart, hstuck⟩ := exists_of_onUnit hcomputed
  have hmin : longSteps.minFactor < one := by decide +kernel
  have hsafety : longSteps.safety < one := by decide +kernel
  have hc := (Reached.start hstart).shrinks hmin hsafety
  obtain ⟨after, r, hattempt, _⟩ := stuck_of_rejected hstuck
  have hsame : ¬ after.nextSize.1 < c.nextSize.1 := by
    rw [shrinks_iff_not_stuck powerShrinks_fraction hc hattempt, hstuck]
    exact Bool.noConfusion
  exact ⟨Range.standard, s, c, after, r, rfl, hmin, hsafety, hsystem, hstart, hattempt, hsame,
    exhausted_of_stuck hstuck⟩

end Examples

end Trajectory.Controller
