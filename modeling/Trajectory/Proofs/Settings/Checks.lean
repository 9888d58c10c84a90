import Trajectory.Outcome
import Trajectory.Proofs.Number.Rounded

namespace Trajectory

open Scalar (zero)

variable {α : Type} [Scalar α]

namespace Range

/-- What a run relies on in a range. -/
structure Proper (r : Range α) : Prop where
  order : ¬ r.finish ≤ r.start
  firstStep : ¬ r.firstStep ≤ zero

theorem proper_of_make {arg : String} {start finish firstStep : α} {r : Range α}
    (h : make arg start finish firstStep = .ok r) : r.Proper := by
  simp only [make] at h
  split at h
  next => cases h
  next =>
    split at h
    next => cases h
    next =>
      split at h
      next => cases h
      next horder =>
        split at h
        next => cases h
        next hstep =>
          cases h
          exact ⟨horder, hstep⟩

end Range

namespace Tolerance

/-- What a run relies on in a tolerance. -/
structure Proper (t : Tolerance α) : Prop where
  safety : zero < t.safety
  minFactor : zero < t.minFactor
  minStep : ∀ value, t.minStep? = some value → zero < value

theorem pos_of_checkPositive {setting : String} {value : α}
    (h : checkPositive setting value = .ok ()) : zero < value := by
  unfold checkPositive at h
  split at h
  next hpos =>
    rw [Bool.and_eq_true, decide_eq_true_eq] at hpos
    exact hpos.2
  next => cases h

/-- The checks that a valid tolerance has passed, each about one or two of its values. -/
structure Passed (t : Tolerance α) : Prop where
  absolute : checkPositive "atol" t.absolute = .ok ()
  relative : checkPositive "rtol" t.relative = .ok ()
  safety : checkPositive "safety factor" t.safety = .ok ()
  minFactor : checkPositive "min factor" t.minFactor = .ok ()
  maxFactor : checkPositive "max factor" t.maxFactor = .ok ()
  factors : ¬ t.maxFactor < t.minFactor
  minStep : checkPositive? "min step" t.minStep? = .ok ()
  maxStep : checkPositive? "max step" t.maxStep? = .ok ()
  steps : ∀ low high, t.minStep? = some low → t.maxStep? = some high →
    checkSteps low high = .ok ()

theorem passed_of_validate {t : Tolerance α} (h : t.validate = .ok ()) : t.Passed := by
  obtain ⟨_, habsolute, h⟩ := bind_eq_ok.mp h
  obtain ⟨_, hrelative, h⟩ := bind_eq_ok.mp h
  obtain ⟨_, hsafety, h⟩ := bind_eq_ok.mp h
  obtain ⟨_, hminFactor, h⟩ := bind_eq_ok.mp h
  obtain ⟨_, hmaxFactor, h⟩ := bind_eq_ok.mp h
  dsimp only at h
  split at h
  next => cases h
  next hfactors =>
    obtain ⟨_, hminStep, h⟩ := bind_eq_ok.mp h
    obtain ⟨_, hmaxStep, h⟩ := bind_eq_ok.mp h
    refine ⟨habsolute, hrelative, hsafety, hminFactor, hmaxFactor, hfactors, hminStep, hmaxStep,
      fun low high hlow hhigh => ?_⟩
    rw [hlow, hhigh] at h
    exact h

theorem Passed.validate {t : Tolerance α} (h : t.Passed) : t.validate = .ok () := by
  refine bind_eq_ok.mpr ⟨(), h.absolute, bind_eq_ok.mpr ⟨(), h.relative, ?_⟩⟩
  refine bind_eq_ok.mpr ⟨(), h.safety, bind_eq_ok.mpr ⟨(), h.minFactor, ?_⟩⟩
  refine bind_eq_ok.mpr ⟨(), h.maxFactor, ?_⟩
  dsimp only
  rw [if_neg h.factors]
  refine bind_eq_ok.mpr ⟨(), h.minStep, bind_eq_ok.mpr ⟨(), h.maxStep, ?_⟩⟩
  split
  next low high hlow hhigh => exact h.steps low high hlow hhigh
  next => rfl

theorem proper_of_validate {t : Tolerance α} (h : t.validate = .ok ()) : t.Proper := by
  have hpassed := passed_of_validate h
  refine ⟨pos_of_checkPositive hpassed.safety, pos_of_checkPositive hpassed.minFactor,
    fun value hvalue => ?_⟩
  have hstep := hpassed.minStep
  rw [hvalue] at hstep
  exact pos_of_checkPositive hstep

theorem Proper.minStep_pos [Scalar.Rounded α] {t : Tolerance α} (h : t.Proper) :
    zero < t.minStep := by
  unfold Tolerance.minStep
  cases hstep : t.minStep? with
  | none => exact Scalar.Rounded.decimal_pos (-10) (.inr rfl)
  | some value => exact h.minStep value hstep

end Tolerance

end Trajectory
