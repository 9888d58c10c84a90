import Mathlib.Algebra.Polynomial.Div
import Mathlib.Analysis.SpecialFunctions.Integrals.Basic
import Trajectory.Proofs.OdeSystem.Step
import Trajectory.Proofs.Stepper.Combination
import Trajectory.Stepper.Controller

namespace Trajectory

open Fraction (slots)
open Polynomial

namespace Expr

/-- A polynomial in a variable by its coefficients, the constant one first. -/
def horner (arg : String) : List ℚ → Expr Fraction
  | [] => const Scalar.zero
  | c :: cs => binary .add (const ⟨c⟩) (binary .mul (var arg) (horner arg cs))

/-- A list of coefficients, zero beyond its end. -/
def Lists (coeffs : List ℚ) (p : ℚ[X]) : Prop := ∀ j, coeffs.getD j 0 = p.coeff j

theorem value_horner {coeffs : List ℚ} {p : ℚ[X]} (h : Lists coeffs p) {arg : String}
    {env : String → Fraction} {x : ℚ} (henv : env arg = ⟨x⟩) :
    (horner arg coeffs).value env = ⟨p.eval x⟩ := by
  induction coeffs generalizing p with
  | nil =>
    have hp : p = 0 := Polynomial.ext fun j => (h j).symm
    rw [hp, eval_zero]
    exact Fraction.ofNat_eq 0
  | cons c cs ih =>
    have hlater : Lists cs p.divX := fun j => by rw [coeff_divX]; exact h (j + 1)
    have hfirst : c = p.coeff 0 := h 0
    have heval : p.eval x = c + x * p.divX.eval x := by
      conv_lhs => rw [← divX_mul_X_add p]
      rw [eval_add, eval_mul, eval_X, eval_C, hfirst]
      ring
    rw [heval, ← Fraction.mk_add, ← Fraction.mk_mul, ← ih hlater, ← henv]
    rfl

theorem mem_occurrences_horner {arg name : String} {coeffs : List ℚ}
    (h : name ∈ (horner arg coeffs).occurrences) : name = arg := by
  induction coeffs with
  | nil => cases h
  | cons c cs ih =>
    rcases List.mem_cons.mp h with heq | hlater
    · exact heq
    · exact ih hlater

end Expr

namespace OdeSystem

/-- The system of one letter whose derivative is a polynomial in the argument. -/
def polynomial (letter : Char) (text arg : String) (coeffs : List ℚ) : OdeSystem Fraction where
  equations := [⟨letter, 1, Expr.horner arg coeffs, text⟩]

theorem evaluate_polynomial {letter : Char} {text arg : String} {coeffs : List ℚ} {p : ℚ[X]}
    (hp : Expr.Lists coeffs p) (harg : arg ≠ letter.toString) (x y : ℚ) :
    (polynomial letter text arg coeffs).evaluate arg ⟨x⟩ [⟨y⟩] = .ok [⟨p.eval x⟩] := by
  have hdistinct : (polynomial letter text arg coeffs).Distinct := List.nodup_singleton _
  have hname : arg ∉ (polynomial letter text arg coeffs).names := by
    intro hmem
    exact harg (List.mem_singleton.mp hmem)
  have hforeign : (polynomial letter text arg coeffs).foreign? arg = none := by
    rw [foreign?_eq_none_iff]
    rintro ⟨e, he, name, hname, hne, _⟩
    cases List.mem_singleton.mp he
    exact hne (Expr.mem_occurrences_horner hname)
  have hsize : ([⟨y⟩] : List Fraction).length = (polynomial letter text arg coeffs).size := rfl
  obtain ⟨env, henv⟩ := exists_assigns (x := ⟨x⟩) hdistinct hname hsize
  rw [evaluate_eq hsize (extends_of_assigns hdistinct hname hsize henv), hforeign]
  exact congrArg (fun v => Except.ok [v]) (Expr.value_horner hp henv.argument)

end OdeSystem

namespace Stepper

variable {x h y : ℚ} {p : ℚ[X]} {f : Fraction → List Fraction → Checked EvalError (List Fraction)}

/-- A derivative that is the value of a polynomial at the argument. -/
def Follows (p : ℚ[X]) (f : Fraction → List Fraction → Checked EvalError (List Fraction)) : Prop :=
  ∀ x y, f ⟨x⟩ [⟨y⟩] = .ok [⟨p.eval x⟩]

/-- The sum of a function's values at the nodes, by the weights. -/
def average (weights nodes : List ℚ) (q : ℚ → ℚ) : ℚ :=
  ((weights.zip nodes).map fun t => t.1 * q t.2).sum

theorem combine_single (h y : ℚ) (weights nodes : List ℚ) (q : ℚ → ℚ) :
    combine ⟨h⟩ (weights.map Fraction.mk) (nodes.map fun c => [⟨q c⟩]) [⟨y⟩] =
      [⟨y + h * average weights nodes q⟩] := by
  have hsum := combine_slots h weights (nodes.map fun c => fun _ : Fin 1 => q c) fun _ => y
  rw [List.map_map, List.zip_map_right, List.map_map] at hsum
  refine hsum.trans (congrArg (fun v : ℚ => [(⟨y + v⟩ : Fraction)]) ?_)
  rw [Pi.list_sum_apply, List.map_map, average, ← List.sum_map_mul_left]
  exact congrArg List.sum (List.map_congr_left fun t _ => mul_assoc h t.1 (q t.2))

theorem stagesAfter_single (hf : Follows p f) (nodes : List ℚ) (stages : List (ℚ × List ℚ)) :
    stagesAfter f ⟨x⟩ ⟨h⟩ [⟨y⟩] (nodes.map fun c => [⟨p.eval (x + c * h)⟩])
        (stages.map fun s => (⟨s.1⟩, s.2.map Fraction.mk)) =
      .ok ((nodes ++ stages.map Prod.fst).map fun c => [⟨p.eval (x + c * h)⟩]) := by
  induction stages generalizing nodes with
  | nil =>
    rw [List.map_nil, List.map_nil, List.append_nil]
    rfl
  | cons stage stages ih =>
    have hnext := ih (nodes ++ [stage.1])
    rw [List.map_append, List.append_assoc] at hnext
    rw [List.map_cons, stagesAfter, combine_single, Fraction.mk_mul, Fraction.mk_add, hf]
    exact hnext

theorem average_sum (weights nodes : List ℚ) (m : ℕ) (a : ℕ → ℚ) :
    average weights nodes (fun c => ∑ j ∈ Finset.range m, a j * c ^ j) =
      ∑ j ∈ Finset.range m, a j * average weights nodes (· ^ j) := by
  unfold average
  induction weights.zip nodes with
  | nil => simp
  | cons t terms ih =>
    simp only [List.map_cons, List.sum_cons] at ih ⊢
    rw [ih, Finset.mul_sum, ← Finset.sum_add_distrib]
    exact Finset.sum_congr rfl fun j _ => by ring

/-- What a step adds to a value whose derivative is a polynomial in the argument. -/
def gain (weights nodes : List ℚ) (p : ℚ[X]) (x h : ℚ) : ℚ :=
  h * average weights nodes fun c => p.eval (x + c * h)

/-- Weights that average the powers below `m` as the integral from zero to one does. -/
def Integrates (weights nodes : List ℚ) (m : ℕ) : Prop :=
  ∀ j < m, average weights nodes (· ^ j) = 1 / (j + 1)

theorem integral_of_integrates {weights nodes : List ℚ} {m : ℕ} (hweights : Integrates weights nodes m)
    (hp : p.natDegree < m) :
    ((y + gain weights nodes p x h : ℚ) : ℝ) = y + ∫ t in (x : ℝ)..(x + h), aeval t p := by
  -- The polynomial in terms of how far the step has come, from zero to one.
  let q : ℚ[X] := p.comp (C h * X + C x)
  have hdegree : q.natDegree < m := by
    have hinner : (C h * X + C x).natDegree ≤ 1 := natDegree_linear_le
    calc q.natDegree ≤ p.natDegree * (C h * X + C x).natDegree := natDegree_comp_le
      _ ≤ p.natDegree * 1 := Nat.mul_le_mul_left _ hinner
      _ < m := by rwa [Nat.mul_one]
  have haverage : (average weights nodes fun c => p.eval (x + c * h)) =
      ∑ j ∈ Finset.range m, q.coeff j * (1 / (j + 1)) := by
    have hvalues : (fun c => p.eval (x + c * h)) =
        fun c => ∑ j ∈ Finset.range m, q.coeff j * c ^ j := by
      funext c
      rw [← eval_eq_sum_range' hdegree, eval_comp, eval_add, eval_mul, eval_C, eval_X, eval_C, mul_comm,
        add_comm]
    rw [hvalues, average_sum]
    exact Finset.sum_congr rfl fun j hj => by rw [hweights j (Finset.mem_range.mp hj)]
  have hintegral : ∫ t in (x : ℝ)..(x + h), aeval t p =
      h * ∑ j ∈ Finset.range m, (q.coeff j : ℝ) * (1 / (j + 1)) := by
    have hvalues (s : ℝ) : aeval (h * s + x : ℝ) p =
        ∑ j ∈ Finset.range m, (q.coeff j : ℝ) * s ^ j := by
      have hinner : aeval s (C h * X + C x) = (h * s + x : ℝ) := by simp
      rw [← hinner, ← aeval_comp, aeval_eq_sum_range' hdegree]
      exact Finset.sum_congr rfl fun j _ => Rat.smul_def _ _
    have hscale := intervalIntegral.smul_integral_comp_mul_add (a := 0) (b := 1)
      (fun t : ℝ => aeval t p) (h : ℝ) x
    rw [mul_zero, zero_add, mul_one, add_comm (h : ℝ), smul_eq_mul] at hscale
    rw [← hscale]
    simp only [hvalues]
    rw [intervalIntegral.integral_finsetSum fun j _ => Continuous.intervalIntegrable (by fun_prop) _ _]
    simp [integral_pow]
  rw [gain, haverage, hintegral]
  push_cast
  rfl

theorem integrates_fifth :
    Integrates (Tableau.ratios Tableau.fifthRatios) (Tableau.ratios Tableau.nodeRatios) 5 := by
  unfold Integrates
  decide +kernel

theorem integrates_fourth :
    Integrates (Tableau.ratios Tableau.fourthRatios) (Tableau.ratios Tableau.nodeRatios) 4 := by
  unfold Integrates
  decide +kernel

theorem step_follows_eq (hf : Follows p f) : step f ⟨x⟩ [⟨y⟩] ⟨h⟩ = .ok
    ⟨[⟨y + gain (Tableau.ratios Tableau.fifthRatios) (Tableau.ratios Tableau.nodeRatios) p x h⟩],
     [⟨y + gain (Tableau.ratios Tableau.fourthRatios) (Tableau.ratios Tableau.nodeRatios) p x h⟩]⟩ := by
  have hfirst : f ⟨x⟩ [⟨y⟩] = .ok [⟨p.eval (x + 0 * h)⟩] := by rw [hf, zero_mul, add_zero]
  have hnodes : [0] ++ Tableau.laterStages.map Prod.fst = Tableau.ratios Tableau.nodeRatios := by
    decide +kernel
  have hstages : stages Tableau.embedded f ⟨x⟩ [⟨y⟩] ⟨h⟩ =
      .ok ((Tableau.ratios Tableau.nodeRatios).map fun c => [⟨p.eval (x + c * h)⟩]) := by
    refine bind_eq_ok.mpr ⟨_, hfirst, ?_⟩
    rw [Tableau.laterStages_eq, ← hnodes]
    exact stagesAfter_single hf [0] Tableau.laterStages
  refine bind_eq_ok.mpr ⟨_, hstages, ?_⟩
  rw [Tableau.fifth_eq, Tableau.fourth_eq, combine_single, combine_single]
  rfl

theorem abs_difference_self (v : Fraction) : Scalar.abs (v - v) = Scalar.zero := by
  have hdifference : v - v = Scalar.zero := by
    rw [Scalar.zero, Fraction.ofNat_eq]
    exact congrArg Fraction.mk ((sub_self v.value).trans Nat.cast_zero.symm)
  rw [hdifference]
  decide +kernel

theorem scaledErrors_self (t : Tolerance Fraction) (y v : Fraction) :
    scaledErrors t [y] [v] [v] = [Scalar.zero] := by
  have hquotient (d : Fraction) : (Scalar.zero : Fraction) / d = Scalar.zero := by
    rw [Scalar.zero, Fraction.ofNat_eq]
    exact congrArg Fraction.mk (by rw [Nat.cast_zero, zero_div])
  show [Scalar.abs (v - v) / _] = _
  rw [abs_difference_self, hquotient]

theorem errorNorm_self (t : Tolerance Fraction) (y v : Fraction) :
    errorNorm (ε := SolverError Fraction) t [y] [v] [v] = .ok Scalar.zero := by
  have hcombined : combined t.norm [(Scalar.zero : Fraction)] = Scalar.zero := by
    cases t.norm <;> decide +kernel
  show Except.ok (combined t.norm (scaledErrors t [y] [v] [v])) = _
  rw [scaledErrors_self, hcombined]

theorem maxAbsDifference_self (v : Fraction) :
    maxAbsDifference (ε := SolverError Fraction) [v] [v] = .ok Scalar.zero :=
  congrArg Except.ok (abs_difference_self v)

/-- A step whose derivative is a polynomial in the argument adds the integral over the step: the first
result does up to the degree four and the second one up to three, and then no error is estimated. -/
theorem step_of_polynomial (p : ℚ[X]) (x y h : ℚ) : ∃ fifth fourth : ℚ,
    (∀ f, Follows p f → step f ⟨x⟩ [⟨y⟩] ⟨h⟩ = .ok ⟨[⟨fifth⟩], [⟨fourth⟩]⟩) ∧
    (∀ letter text arg coeffs, Expr.Lists coeffs p → arg ≠ letter.toString →
      (OdeSystem.polynomial letter text arg coeffs).step arg ⟨x⟩ [⟨y⟩] ⟨h⟩ =
        .ok ⟨[⟨fifth⟩], [⟨fourth⟩]⟩) ∧
    (p.natDegree ≤ 4 → (fifth : ℝ) = y + ∫ t in (x : ℝ)..(x + h), aeval t p) ∧
    (p.natDegree ≤ 3 → (fourth : ℝ) = y + ∫ t in (x : ℝ)..(x + h), aeval t p ∧ fourth = fifth ∧
      maxAbsDifference (ε := SolverError Fraction) [(⟨fifth⟩ : Fraction)] [⟨fourth⟩] = .ok Scalar.zero ∧
      ∀ t : Tolerance Fraction,
        scaledErrors t [⟨y⟩] [⟨fifth⟩] [⟨fourth⟩] = [Scalar.zero] ∧
        errorNorm (ε := SolverError Fraction) t [⟨y⟩] [⟨fifth⟩] [⟨fourth⟩] = .ok Scalar.zero) := by
  have hfifth (hp : p.natDegree ≤ 4) :=
    integral_of_integrates (x := x) (h := h) (y := y) integrates_fifth (Nat.lt_succ_of_le hp)
  refine ⟨_, _, fun f hf => step_follows_eq hf, fun letter text arg coeffs hp harg =>
    step_follows_eq (OdeSystem.evaluate_polynomial hp harg), hfifth, fun hp => ?_⟩
  have hfourth :=
    integral_of_integrates (x := x) (h := h) (y := y) integrates_fourth (Nat.lt_succ_of_le hp)
  have heq := Rat.cast_injective (hfourth.trans (hfifth (hp.trans (by decide))).symm)
  refine ⟨hfourth, heq, ?_⟩
  rw [heq]
  exact ⟨maxAbsDifference_self _, fun t => ⟨scaledErrors_self t _ _, errorNorm_self t _ _⟩⟩

noncomputable def risingPolynomial : ℚ[X] := C 4 * X ^ 3 + C 3 * X ^ 2 + C 2 * X + C 1

/-- A value that rises as the polynomial says. -/
def rising : OdeSystem Fraction :=
  .polynomial 'y' "y' = 1 + t*(2 + t*(3 + t*(4 + t*0)))" "t" [1, 2, 3, 4]

theorem step_of_polynomial_rising :
    OdeSystem.reduce ["y' = 1 + t*(2 + t*(3 + t*(4 + t*0)))"] = .ok rising ∧
      Expr.Lists [1, 2, 3, 4] risingPolynomial ∧ risingPolynomial.natDegree ≤ 3 ∧
      Follows risingPolynomial (rising.evaluate "t") ∧
      ∃ fifth fourth : ℚ,
        Stepper.step (rising.evaluate "t") ⟨1⟩ [⟨7⟩] ⟨1 / 10⟩ = .ok ⟨[⟨fifth⟩], [⟨fourth⟩]⟩ ∧
        rising.step "t" ⟨1⟩ [⟨7⟩] ⟨1 / 10⟩ = .ok ⟨[⟨fifth⟩], [⟨fourth⟩]⟩ ∧
        (fifth : ℝ) = (7 : ℚ) +
          ∫ t in ((1 : ℚ) : ℝ)..((1 : ℚ) + (1 / 10 : ℚ)), aeval t risingPolynomial ∧
        fourth = fifth := by
  have hreduce : OdeSystem.reduce ["y' = 1 + t*(2 + t*(3 + t*(4 + t*0)))"] = .ok rising := by
    decide +kernel
  have hlists : Expr.Lists [1, 2, 3, 4] risingPolynomial := by
    intro j
    match j with
    | 0 | 1 | 2 | 3 => simp [risingPolynomial, coeff_X, coeff_one]
    | j + 4 => simp [risingPolynomial, coeff_one]
  have hdegree : risingPolynomial.natDegree ≤ 3 := natDegree_cubic_le
  have harg : "t" ≠ 'y'.toString := by decide
  have hfollows : Follows risingPolynomial (rising.evaluate "t") :=
    OdeSystem.evaluate_polynomial hlists harg
  obtain ⟨fifth, fourth, hstep, hsystem, hfifth, hfourth⟩ :=
    step_of_polynomial risingPolynomial 1 7 (1 / 10)
  exact ⟨hreduce, hlists, hdegree, hfollows, fifth, fourth, hstep _ hfollows,
    hsystem _ _ _ _ hlists harg, hfifth (hdegree.trans (by decide)), (hfourth hdegree).2.1⟩

end Stepper

end Trajectory
