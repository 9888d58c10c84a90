import Mathlib.Algebra.CharZero.Infinite
import Mathlib.Algebra.Polynomial.AlgebraMap
import Mathlib.Algebra.Polynomial.Roots
import Mathlib.Data.Matrix.Basic
import Trajectory.Proofs.OdeSystem.Linear
import Trajectory.Proofs.Stepper.Combination

namespace Trajectory

open Fraction (slots)
open Polynomial Matrix

namespace Stepper

variable {n : ℕ} {M : Matrix (Fin n) (Fin n) ℚ} {x h : ℚ} {y : Fin n → ℚ}

/-- Derivatives that are the product of a matrix and the state. -/
def Linear (M : Matrix (Fin n) (Fin n) ℚ)
    (f : Fraction → List Fraction → Checked EvalError (List Fraction)) : Prop :=
  ∀ x v, f x (slots v) = .ok (slots (M *ᵥ v))

/-- What a state becomes along derivatives at the states that `ps` lead to, as a polynomial in the
matrix times the step. -/
noncomputable def growth (weights : List ℚ) (ps : List ℚ[X]) : ℚ[X] :=
  1 + X * ((weights.zip ps).map fun t => C t.1 * t.2).sum

/-- The states at further stages, as polynomials. -/
noncomputable def growthsAfter (ps : List ℚ[X]) : List (List ℚ) → List ℚ[X]
  | [] => ps
  | row :: rows => growthsAfter (ps ++ [growth row ps]) rows

/-- The derivative at the state that a polynomial leads to. -/
noncomputable def slope (M : Matrix (Fin n) (Fin n) ℚ) (h : ℚ) (y : Fin n → ℚ) (p : ℚ[X]) :
    Fin n → ℚ :=
  M *ᵥ (aeval (h • M) p *ᵥ y)

theorem sum_slopes (weights : List ℚ) (ps : List ℚ[X]) :
    ((weights.zip (ps.map (slope M h y))).map fun t => (h * t.1) • t.2).sum =
      (h • M) *ᵥ (aeval (h • M) ((weights.zip ps).map fun t => C t.1 * t.2).sum *ᵥ y) := by
  induction ps generalizing weights with
  | nil => simp
  | cons p ps ih =>
    cases weights with
    | nil => simp
    | cons w weights =>
      have hfirst : (h * w) • slope M h y p = (h • M) *ᵥ (aeval (h • M) (C w * p) *ᵥ y) := by
        rw [← smul_eq_C_mul, map_smul, smul_mulVec, smul_mulVec, mulVec_smul, smul_smul, slope]
      simp only [List.map_cons, List.zip_cons_cons, List.sum_cons]
      rw [ih, hfirst, map_add, add_mulVec, mulVec_add]

theorem add_sum_slopes (weights : List ℚ) (ps : List ℚ[X]) :
    y + ((weights.zip (ps.map (slope M h y))).map fun t => (h * t.1) • t.2).sum =
      aeval (h • M) (growth weights ps) *ᵥ y := by
  rw [sum_slopes, growth, map_add, map_mul, map_one, aeval_X, add_mulVec, one_mulVec, mulVec_mulVec]

theorem combine_slopes (weights : List ℚ) (ps : List ℚ[X]) :
    combine ⟨h⟩ (weights.map Fraction.mk) (ps.map fun p => slots (slope M h y p)) (slots y) =
      slots (aeval (h • M) (growth weights ps) *ᵥ y) := by
  have hslots := combine_slots h weights (ps.map (slope M h y)) y
  rw [List.map_map] at hslots
  exact hslots.trans (congrArg slots (add_sum_slopes weights ps))

variable {f : Fraction → List Fraction → Checked EvalError (List Fraction)}

theorem stagesAfter_slopes (hf : Linear M f) (ps : List ℚ[X]) (stages : List (ℚ × List ℚ)) :
    stagesAfter f ⟨x⟩ ⟨h⟩ (slots y) (ps.map fun p => slots (slope M h y p))
        (stages.map fun s => (⟨s.1⟩, s.2.map Fraction.mk)) =
      .ok ((growthsAfter ps (stages.map Prod.snd)).map fun p => slots (slope M h y p)) := by
  induction stages generalizing ps with
  | nil => rfl
  | cons stage stages ih =>
    have hnext := ih (ps ++ [growth stage.2 ps])
    rw [List.map_append] at hnext
    rw [List.map_cons, stagesAfter, combine_slopes, hf]
    exact hnext

/-- The polynomials of all seven stages. -/
noncomputable def growths : List ℚ[X] := growthsAfter [1] (Tableau.laterStages.map Prod.snd)

noncomputable def fifthGrowth : ℚ[X] := growth (Tableau.ratios Tableau.fifthRatios) growths

noncomputable def fourthGrowth : ℚ[X] := growth (Tableau.ratios Tableau.fourthRatios) growths

theorem step_linear_eq (hf : Linear M f) : step f ⟨x⟩ (slots y) ⟨h⟩ =
    .ok ⟨slots (aeval (h • M) fifthGrowth *ᵥ y), slots (aeval (h • M) fourthGrowth *ᵥ y)⟩ := by
  have hfirst : f ⟨x⟩ (slots y) = .ok (slots (slope M h y 1)) := by
    rw [hf, slope, map_one, one_mulVec]
  have hstages : stages Tableau.embedded f ⟨x⟩ (slots y) ⟨h⟩ =
      .ok (growths.map fun p => slots (slope M h y p)) := by
    refine bind_eq_ok.mpr ⟨_, hfirst, ?_⟩
    rw [Tableau.laterStages_eq]
    exact stagesAfter_slopes hf [1] Tableau.laterStages
  refine bind_eq_ok.mpr ⟨_, hstages, ?_⟩
  rw [Tableau.fifth_eq, Tableau.fourth_eq, combine_slopes, combine_slopes]
  rfl

theorem fifthGrowth_eq : fifthGrowth =
    ∑ j ∈ Finset.range 6, C (1 / j.factorial : ℚ) * X ^ j + C (1 / 600 : ℚ) * X ^ 6 := by
  refine Polynomial.funext fun t => ?_
  simp [fifthGrowth, growth, growths, growthsAfter, Tableau.laterStages, Tableau.ratios,
    Tableau.nodeRatios, Tableau.rowRatios, Tableau.fifthRatios, Finset.sum_range_succ,
    Nat.factorial_succ]
  ring

theorem fourthGrowth_eq : fourthGrowth =
    ∑ j ∈ Finset.range 5, C (1 / j.factorial : ℚ) * X ^ j + C (1097 / 120000 : ℚ) * X ^ 5 +
      C (161 / 120000 : ℚ) * X ^ 6 + C (1 / 24000 : ℚ) * X ^ 7 := by
  refine Polynomial.funext fun t => ?_
  simp [fourthGrowth, growth, growths, growthsAfter, Tableau.laterStages, Tableau.ratios,
    Tableau.nodeRatios, Tableau.rowRatios, Tableau.fourthRatios, Finset.sum_range_succ,
    Nat.factorial_succ]
  ring

theorem aeval_term (c : ℚ) (j : ℕ) :
    aeval (h • M) (C c * X ^ j) *ᵥ y = c • ((h • M) ^ j *ᵥ y) := by
  rw [← smul_eq_C_mul, map_smul, map_pow, aeval_X, smul_mulVec]

/-- A power series in a matrix times the step, cut off and applied to a state. -/
theorem aeval_series (m : ℕ) :
    aeval (h • M) (∑ j ∈ Finset.range m, C (1 / j.factorial : ℚ) * X ^ j) *ᵥ y =
      ∑ j ∈ Finset.range m, (1 / j.factorial : ℚ) • ((h • M) ^ j *ᵥ y) := by
  rw [map_sum, sum_mulVec]
  exact Finset.sum_congr rfl fun j _ => aeval_term _ j

/-- A step of a linear system follows the exponential series in the matrix times the step. What the
results have beyond its first powers is the same combination of further powers for every system. -/
theorem step_of_linear (M : Matrix (Fin n) (Fin n) ℚ) (x h : ℚ) (y : Fin n → ℚ) :
    ∃ fifth fourth : Fin n → ℚ,
      (∀ f, Linear M f → step f ⟨x⟩ (slots y) ⟨h⟩ = .ok ⟨slots fifth, slots fourth⟩) ∧
      (∀ letters texts arg, Function.Injective letters →
        arg ∉ (OdeSystem.linear letters texts M).names →
        (OdeSystem.linear letters texts M).step arg ⟨x⟩ (slots y) ⟨h⟩ =
          .ok ⟨slots fifth, slots fourth⟩) ∧
      fifth - ∑ j ∈ Finset.range 6, (1 / j.factorial : ℚ) • ((h • M) ^ j *ᵥ y) =
        (1 / 600 : ℚ) • ((h • M) ^ 6 *ᵥ y) ∧
      fourth - ∑ j ∈ Finset.range 5, (1 / j.factorial : ℚ) • ((h • M) ^ j *ᵥ y) =
        (1097 / 120000 : ℚ) • ((h • M) ^ 5 *ᵥ y) + (161 / 120000 : ℚ) • ((h • M) ^ 6 *ᵥ y) +
          (1 / 24000 : ℚ) • ((h • M) ^ 7 *ᵥ y) := by
  refine ⟨_, _, fun f hf => step_linear_eq hf, fun letters texts arg hletters harg =>
    step_linear_eq (OdeSystem.evaluate_linear hletters harg), ?_, ?_⟩
  · rw [fifthGrowth_eq, map_add, add_mulVec, aeval_series, aeval_term]
    exact add_sub_cancel_left _ _
  · rw [fourthGrowth_eq, map_add, map_add, map_add, add_mulVec, add_mulVec, add_mulVec, aeval_series,
      aeval_term, aeval_term, aeval_term, add_assoc, add_assoc, add_assoc]
    exact add_sub_cancel_left _ _

def drivenMatrix : Matrix (Fin 2) (Fin 2) ℚ := ![![0, 1], ![3, 1 / 2]]

/-- A value that moves as the other one does, and one that is driven by both. -/
def driven : OdeSystem Fraction :=
  .linear !['y', 'z'] !["y' = 0*y + 1*z", "z' = 3*y + 0.5*z"] drivenMatrix

theorem step_of_linear_driven :
    OdeSystem.reduce ["y' = 0*y + 1*z", "z' = 3*y + 0.5*z"] = .ok driven ∧ "t" ∉ driven.names ∧
      Linear drivenMatrix (driven.evaluate "t") ∧
      ∃ fifth fourth : Fin 2 → ℚ,
        Stepper.step (driven.evaluate "t") ⟨0⟩ [⟨1⟩, ⟨2⟩] ⟨1 / 10⟩ =
          .ok ⟨slots fifth, slots fourth⟩ ∧
        driven.step "t" ⟨0⟩ [⟨1⟩, ⟨2⟩] ⟨1 / 10⟩ = .ok ⟨slots fifth, slots fourth⟩ ∧
        fifth - ∑ j ∈ Finset.range 6,
            (1 / j.factorial : ℚ) • (((1 / 10 : ℚ) • drivenMatrix) ^ j *ᵥ ![1, 2]) =
          (1 / 600 : ℚ) • (((1 / 10 : ℚ) • drivenMatrix) ^ 6 *ᵥ ![1, 2]) := by
  have hreduce : OdeSystem.reduce ["y' = 0*y + 1*z", "z' = 3*y + 0.5*z"] = .ok driven := by
    decide +kernel
  have hletters : Function.Injective !['y', 'z'] := by decide
  have harg : "t" ∉ driven.names := by decide +kernel
  have hlinear : Linear drivenMatrix (driven.evaluate "t") :=
    OdeSystem.evaluate_linear hletters harg
  obtain ⟨fifth, fourth, hstep, hsystem, hfifth, _⟩ :=
    step_of_linear drivenMatrix 0 (1 / 10) ![1, 2]
  exact ⟨hreduce, harg, hlinear, fifth, fourth, hstep _ hlinear, hsystem _ _ "t" hletters harg,
    hfifth⟩

end Stepper

end Trajectory
