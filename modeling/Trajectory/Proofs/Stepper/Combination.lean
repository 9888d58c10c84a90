import Mathlib.Algebra.Module.Pi
import Trajectory.Proofs.Number.Fraction
import Trajectory.Stepper.Step

namespace Trajectory

open Fraction (slots)

namespace Stepper

variable {n : ℕ}

theorem addScaled_slots (c : ℚ) (k y : Fin n → ℚ) :
    addScaled ⟨c⟩ (slots k) (slots y) = slots (c • k + y) := by
  refine List.ext_getElem (by simp [addScaled, slots]) fun i hi hi' => ?_
  simp [addScaled, slots, Fraction.mk_mul, Fraction.mk_add]

theorem combine_slots (h : ℚ) (weights : List ℚ) (ks : List (Fin n → ℚ)) (y : Fin n → ℚ) :
    combine ⟨h⟩ (weights.map Fraction.mk) (ks.map slots) (slots y) =
      slots (y + ((weights.zip ks).map fun t => (h * t.1) • t.2).sum) := by
  induction ks generalizing weights y with
  | nil => simp [combine]
  | cons k ks ih =>
    cases weights with
    | nil => simp [combine]
    | cons w weights =>
      have hfirst : (if (⟨w⟩ : Fraction) == Scalar.zero then slots y
          else addScaled (⟨h⟩ * ⟨w⟩) (slots k) (slots y)) = slots (y + (h * w) • k) := by
        split
        next hzero => rw [Fraction.beq_zero_iff.mp hzero, mul_zero, zero_smul, add_zero]
        next => rw [Fraction.mk_mul, addScaled_slots, add_comm]
      have hlater := ih weights (y + (h * w) • k)
      rw [← hfirst, add_assoc, ← List.sum_cons] at hlater
      exact hlater

end Stepper

namespace Tableau

def ratios (row : List (ℤ × ℕ)) : List ℚ := row.map fun r => (r.1 : ℚ) / r.2

theorem ofRatios_eq (row : List (ℤ × ℕ)) : (ofRatios row : List Fraction) =
    (ratios row).map Fraction.mk := by
  rw [ofRatios, ratios, List.map_map]
  exact List.map_congr_left fun r _ => Fraction.ratio_eq r.1 r.2

theorem fifth_eq : (embedded : Tableau Fraction).fifth = (ratios fifthRatios).map Fraction.mk :=
  ofRatios_eq fifthRatios

theorem fourth_eq : (embedded : Tableau Fraction).fourth = (ratios fourthRatios).map Fraction.mk :=
  ofRatios_eq fourthRatios

/-- The stages after the first one: their nodes and rows, as numbers. -/
def laterStages : List (ℚ × List ℚ) := ((ratios nodeRatios).zip (rowRatios.map ratios)).tail

theorem laterStages_eq : ((embedded : Tableau Fraction).nodes.zip
    (embedded : Tableau Fraction).rows).tail =
      laterStages.map fun s => (⟨s.1⟩, s.2.map Fraction.mk) := by
  have hrows : rowRatios.map (ofRatios (α := Fraction)) =
      (rowRatios.map ratios).map (List.map Fraction.mk) := by
    rw [List.map_map]
    exact List.map_congr_left fun row _ => ofRatios_eq row
  have hzip : (ofRatios nodeRatios : List Fraction).zip (rowRatios.map ofRatios) =
      ((ratios nodeRatios).zip (rowRatios.map ratios)).map
        (fun s => (⟨s.1⟩, s.2.map Fraction.mk)) := by
    rw [ofRatios_eq, hrows, List.zip_map]
    rfl
  rw [laterStages, List.map_tail]
  exact congrArg List.tail hzip

end Tableau

end Trajectory
