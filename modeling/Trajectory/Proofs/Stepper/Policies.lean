import Trajectory.Proofs.Stepper.Norms
import Trajectory.Proofs.Stepper.Promises

namespace Trajectory

open Scalar (zero one Exact Faithful Rooted)
open Scalar.Exact (value value_zero value_one)

variable {α : Type} [Scalar α] [Exact α] [Rooted α] [Faithful α]

namespace Stepper

theorem exists_rms_le {t : Tolerance α} {y fifth fourth : List α} (ht : t.Lenient)
    (hfifth : fifth.length = y.length) (hfourth : fourth.length = y.length) {max : α}
    (hmax : errorNorm (ε := SolverError α) { t with norm := .max } y fifth fourth = .ok max) :
    ∃ rms, errorNorm (ε := SolverError α) { t with norm := .rms } y fifth fourth = .ok rms ∧
      rms ≤ max := by
  by_cases hy : y = []
  · subst hy
    rw [List.length_nil, List.length_eq_zero_iff] at hfifth hfourth
    subst hfifth hfourth
    cases hmax
    exact ⟨zero, rfl, (Exact.le_iff _ _).mpr le_rfl⟩
  · have hnorms := norms_eq hy hfifth hfourth t
    have hcompared := compared_of_lenient hy hfifth hfourth ht
    cases hnorms.max.symm.trans hmax
    exact ⟨_, hnorms.rms, hcompared.le⟩

end Stepper

namespace Controller

section Accepted

variable {β : Type} [Scalar β] {c : Controller β} {pair : StepPair β}

theorem accepted_of_fixed {norm : β} (hpair : c.nextPair = .ok pair) (hmode : c.adaptive = false)
    (hnorm : Stepper.maxAbsDifference (ε := SolverError β) pair.fifth pair.fourth = .ok norm) :
    c.attempt = .accepted (c.moved c.nextSize.1 c.nextSize.2 pair.fifth)
      ⟨(c.moved c.nextSize.1 c.nextSize.2 pair.fifth).x, c.nextSize.1, norm⟩ := by
  have hfixed : ¬ c.adaptive = true := by simp [hmode]
  rw [attempt_eq, hpair]
  dsimp only
  rw [if_neg hfixed, attemptFixed, hnorm]

theorem accepted_of_judge {norm factor next : β} (hpair : c.nextPair = .ok pair)
    (hmode : c.adaptive = true) (hjudge : c.judge pair = .ok (norm, factor)) (hnorm : norm ≤ one)
    (hnext : clamp (ε := SolverError β) (c.nextSize.1 * factor) c.minStep c.maxStep = .ok next) :
    c.attempt = .accepted { c.moved c.nextSize.1 c.nextSize.2 pair.fifth with h := next }
      ⟨(c.moved c.nextSize.1 c.nextSize.2 pair.fifth).x, c.nextSize.1, norm⟩ := by
  rw [attempt_eq, hpair]
  dsimp only
  rw [if_pos hmode, attemptAdaptive_eq, hjudge]
  dsimp only
  rw [if_pos hnorm, hnext]

/-- The controller with another policy for its errors. -/
def under (c : Controller β) (norm : ErrorNorm) : Controller β :=
  { c with tolerance := { c.tolerance with norm } }

end Accepted

variable {c after : Controller α} {s : AcceptedStep α}

omit [Rooted α] [Faithful α] in
theorem exists_accepted {pair : StepPair α} {norm : α} (hpair : c.nextPair = .ok pair)
    (hmode : c.adaptive = true) (ht : c.tolerance.validate = .ok ()) (hbounds : c.minStep ≤ c.maxStep)
    (hnorm : Stepper.errorNorm (ε := SolverError α) c.tolerance c.y pair.fifth pair.fourth = .ok norm)
    (hone : norm ≤ one) :
    ∃ next, c.attempt = .accepted { c.moved c.nextSize.1 c.nextSize.2 pair.fifth with h := next }
      ⟨(c.moved c.nextSize.1 c.nextSize.2 pair.fifth).x, c.nextSize.1, norm⟩ := by
  obtain ⟨factor, hfactor⟩ := Stepper.exists_stepFactor (ε := SolverError α)
    (Tolerance.minFactor_le_maxFactor ht) norm
  obtain ⟨next, hnext⟩ := exists_clamp (ε := SolverError α) hbounds (c.nextSize.1 * factor)
  have hjudge : c.judge pair = .ok (norm, factor) :=
    bind_eq_ok.mpr ⟨norm, hnorm, bind_eq_ok.mpr ⟨factor, hfactor, rfl⟩⟩
  exact ⟨next, accepted_of_judge hpair hmode hjudge hone hnext⟩

/-- A step that is accepted for its largest error is accepted for the mean one too, and leads to the same
place. -/
theorem rms_accepts (ht : c.tolerance.validate = .ok ()) (h : (c.under .max).attempt = .accepted after s) :
    ∃ next norm, (c.under .rms).attempt =
      .accepted { after.under .rms with h := next } { s with errorNorm := norm } ∧
        norm ≤ s.errorNorm := by
  cases tried_of_eq h with
  | @fixed pair norm hpair hmode =>
    obtain ⟨_, hfifth, hfourth⟩ := length_of_nextPair hpair
    obtain ⟨largest, hlargest⟩ := Stepper.exists_maxAbsDifference (ε := SolverError α)
      (hfifth.trans hfourth.symm)
    have hrms := accepted_of_fixed (c := c.under .rms) hpair hmode hlargest
    cases h.symm.trans (accepted_of_fixed hpair hmode hlargest)
    exact ⟨_, _, hrms, (Exact.le_iff _ _).mpr le_rfl⟩
  | @adapted pair max factor next hpair hmode hjudge hmax hnext =>
    obtain ⟨hc, hfifth, hfourth⟩ := length_of_nextPair hpair
    obtain ⟨_, herror, hfactor⟩ := bind_eq_ok.mp hjudge
    obtain ⟨_, _, hpure⟩ := bind_eq_ok.mp hfactor
    cases hpure
    obtain ⟨rms, hrms, hle⟩ := Stepper.exists_rms_le (Tolerance.lenient_of_validate ht)
      (hfifth.trans hc.size.symm) (hfourth.trans hc.size.symm) herror
    have hbounds : c.minStep ≤ c.maxStep := by
      unfold clamp at hnext
      split at hnext
      next hbounds => exact hbounds
      next => cases hnext
    have hone : rms ≤ one := by
      rw [Exact.le_iff] at hle hmax ⊢
      exact hle.trans hmax
    obtain ⟨next', haccepted⟩ := exists_accepted (c := c.under .rms) hpair hmode ht hbounds hrms hone
    exact ⟨next', rms, haccepted, hle⟩

end Controller

namespace Stepper

/-- Under a valid tolerance the square of the mean error of a step is at most that of its largest error,
which in turn is at most as many times the former as there are slots. Both errors vanish only where the
results are the same, and neither grows when more is tolerated. A step that is accepted for its largest
error is accepted for the mean one too. -/
theorem norms_compare {t : Tolerance α} (ht : t.validate = .ok ()) :
    (∀ y fifth fourth : List α, y ≠ [] → fifth.length = y.length → fourth.length = y.length →
      ∃ rms max, Norms t y fifth fourth rms max ∧ Compared t y fifth fourth rms max) ∧
    ∀ (c after : Controller α) (s : AcceptedStep α), c.tolerance = t →
      (c.under .max).attempt = .accepted after s →
        ∃ next norm, (c.under .rms).attempt =
          .accepted { after.under .rms with h := next } { s with errorNorm := norm } ∧
            norm ≤ s.errorNorm := by
  have hlenient := Tolerance.lenient_of_validate ht
  constructor
  · intro y fifth fourth hy hfifth hfourth
    exact ⟨_, _, norms_eq hy hfifth hfourth t, compared_of_lenient hy hfifth hfourth hlenient⟩
  · intro c after s hc hattempt
    exact Controller.rms_accepts (hc ▸ ht) hattempt

section Driven

variable {f : α → List α → Checked EvalError (List α)} {g : α → α} {x h v : α}

omit [Rooted α] [Faithful α] in
theorem combine_driven (h : α) (weights ks : List α) (v : α) :
    ∃ u, combine h weights (ks.map fun k => [k]) [v] = [u] ∧
      value u = value v + ((weights.zip ks).map fun t => value h * value t.1 * value t.2).sum := by
  induction ks generalizing weights v with
  | nil => exact ⟨v, by simp [combine], by simp⟩
  | cons k ks ih =>
    cases weights with
    | nil => exact ⟨v, rfl, by simp⟩
    | cons w weights =>
      obtain ⟨u, hfirst, hu⟩ : ∃ u, (if w == zero then [v] else addScaled (h * w) [k] [v]) = [u] ∧
          value u = value v + value h * value w * value k := by
        cases hzero : w == zero with
        | true =>
          rw [Exact.beq_iff, value_zero] at hzero
          exact ⟨v, if_pos rfl, by simp [hzero]⟩
        | false =>
          refine ⟨h * w * k + v, if_neg Bool.false_ne_true, ?_⟩
          simp only [Exact.value_add, Exact.value_mul]
          ring
      obtain ⟨u', hlater, hu'⟩ := ih weights u
      refine ⟨u', ?_, ?_⟩
      · unfold combine at hlater ⊢
        rw [List.map_cons, List.zip_cons_cons, List.foldl_cons, hfirst, hlater]
      · rw [hu', hu, List.zip_cons_cons, List.map_cons, List.sum_cons, add_assoc]

omit [Rooted α] [Faithful α] in
theorem stagesAfter_driven (hf : ∀ x y, f x [y] = .ok [g x]) (ks : List α)
    (stages : List (α × List α)) :
    stagesAfter f x h [v] (ks.map fun k => [k]) stages =
      .ok ((ks ++ stages.map fun s => g (x + s.1 * h)).map fun k => [k]) := by
  induction stages generalizing ks with
  | nil => simp [stagesAfter, pure, Except.pure]
  | cons stage stages ih =>
    obtain ⟨u, hcombine, _⟩ := combine_driven h stage.2 ks v
    have hlater := ih (ks ++ [g (x + stage.1 * h)])
    rw [List.map_append, List.append_assoc] at hlater
    rw [stagesAfter, hcombine, hf]
    exact hlater

/-- The derivatives at all stages of a step. -/
def driftsOf (g : α → α) (x h : α) : List α :=
  g x :: ((Tableau.embedded : Tableau α).nodes.zip (Tableau.embedded : Tableau α).rows).tail.map
    fun s => g (x + s.1 * h)

omit [Rooted α] [Faithful α] in
theorem step_driven (hf : ∀ x y, f x [y] = .ok [g x]) : ∃ fifth fourth,
    step f x [v] h = .ok ⟨[fifth], [fourth]⟩ ∧
      value fifth = value v + (((Tableau.embedded : Tableau α).fifth.zip (driftsOf g x h)).map
        fun t => value h * value t.1 * value t.2).sum ∧
      value fourth = value v + (((Tableau.embedded : Tableau α).fourth.zip (driftsOf g x h)).map
        fun t => value h * value t.1 * value t.2).sum := by
  obtain ⟨fifth, hfifth, hvalue⟩ :=
    combine_driven h (Tableau.embedded : Tableau α).fifth (driftsOf g x h) v
  obtain ⟨fourth, hfourth, hvalue'⟩ :=
    combine_driven h (Tableau.embedded : Tableau α).fourth (driftsOf g x h) v
  refine ⟨fifth, fourth, ?_, hvalue, hvalue'⟩
  have hstages := stagesAfter_driven (x := x) (h := h) (v := v) hf [g x]
    ((Tableau.embedded : Tableau α).nodes.zip (Tableau.embedded : Tableau α).rows).tail
  refine bind_eq_ok.mpr ⟨_, bind_eq_ok.mpr ⟨_, hf x v, hstages⟩, ?_⟩
  exact congrArg Except.ok (congr (congrArg StepPair.mk hfifth) hfourth)

end Driven

/-- One value driven by the fourth power of the argument, about to make the only step of its run. -/
noncomputable def quartic : Controller RealNumber where
  system := ⟨[⟨'y', 1, .binary .mul (.binary .mul (.var "x") (.var "x"))
    (.binary .mul (.var "x") (.var "x")), "y' = x*x*(x*x)"⟩]⟩
  arg := "x"
  tolerance := Tolerance.standard
  adaptive := true
  minStep := zero
  maxStep := one
  finish := Scalar.ofDecimal 1 (-2)
  x := zero
  y := [⟨7⟩]
  h := Scalar.ofDecimal 1 (-2)
  accepted := 0
  rejected := 0

theorem evaluate_quartic (x y : RealNumber) :
    quartic.system.evaluate "x" x [y] = .ok [x * x * (x * x)] := rfl

/-- The two results of the step. They are not the same, as the weights of the second one do not take a
fourth power to its integral. -/
theorem step_quartic : ∃ fifth fourth : RealNumber,
    step (quartic.system.evaluate "x") zero [⟨7⟩] (Scalar.ofDecimal 1 (-2)) = .ok ⟨[fifth], [fourth]⟩ ∧
      value fifth - value fourth = 71 / 270000 * 10 ^ (-10 : Int) := by
  obtain ⟨fifth, fourth, hstep, hfifth, hfourth⟩ :=
    step_driven (x := zero) (h := Scalar.ofDecimal 1 (-2)) (v := ⟨7⟩) evaluate_quartic
  refine ⟨fifth, fourth, hstep, ?_⟩
  rw [hfifth, hfourth]
  simp [driftsOf, Tableau.embedded, Tableau.ofRatios, Tableau.fifthRatios, Tableau.fourthRatios,
    Tableau.nodeRatios, Tableau.rowRatios, RealNumber.value_ratio, Exact.value_ofDecimal]
  norm_num

theorem nextPair_quartic : ∃ fifth fourth : RealNumber,
    (quartic.under .max).nextPair = .ok ⟨[fifth], [fourth]⟩ ∧
      value fifth - value fourth = 71 / 270000 * 10 ^ (-10 : Int) := by
  obtain ⟨fifth, fourth, hstep, hdifference⟩ := step_quartic
  have hreach : (Scalar.ofDecimal 1 (-2) : RealNumber) ≤
      zero + Scalar.ofDecimal 1 (-2) * Controller.stretch := by
    rw [Exact.le_iff, Exact.value_add, Exact.value_mul, value_zero, Exact.value_stretch,
      Exact.value_ofDecimal]
    norm_num
  have hlast : (quartic.under .max).nextSize = (Scalar.ofDecimal 1 (-2) - zero, true) := if_pos hreach
  have hsize : (Scalar.ofDecimal 1 (-2) - zero : RealNumber) = Scalar.ofDecimal 1 (-2) := by
    refine Faithful.value_injective ?_
    rw [Exact.value_sub, value_zero, sub_zero]
  refine ⟨fifth, fourth, ?_, hdifference⟩
  unfold Controller.nextPair
  rw [hlast, hsize]
  exact congrArg (Checked.mapCause SolverError.evaluation) hstep

theorem quartic_accepts : ∃ after s,
    (quartic.under .max).attempt = .accepted after s ∧ s.errorNorm ≠ zero := by
  obtain ⟨fifth, fourth, hpair, hdifference⟩ := nextPair_quartic
  have hvalid : (Tolerance.standard : Tolerance RealNumber).validate = .ok () := Scalar.Usual.tolerance
  have hlenient := Tolerance.lenient_of_validate hvalid
  have hy : ([⟨7⟩] : List RealNumber) ≠ [] := List.cons_ne_nil _ _
  have hsize (v : RealNumber) : [v].length = ([⟨7⟩] : List RealNumber).length := rfl
  have hnorms := norms_eq hy (hsize fifth) (hsize fourth) (Tolerance.standard : Tolerance RealNumber)
  have hcompared := compared_of_lenient hy (hsize fifth) (hsize fourth) hlenient
  have hdiffer : [fifth] ≠ [fourth] := by
    intro hsame
    rw [List.singleton_inj.mp hsame, sub_self] at hdifference
    norm_num at hdifference
  have hone : combined .max (scaledErrors Tolerance.standard [⟨7⟩] [fifth] [fourth]) ≤ one := by
    rw [Exact.le_iff, value_one]
    refine combined_max_le zero_le_one fun e he => ?_
    rw [List.mem_singleton.mp he, value_scaledError hlenient, hdifference]
    refine (div_le_one (hlenient.scale_pos _ _)).mpr (le_trans ?_ (hlenient.absolute_le_scale _ _))
    have habsolute : value (Tolerance.standard : Tolerance RealNumber).absolute =
        (1 : Nat) * 10 ^ (-6 : Int) := Exact.value_ofDecimal 1 (-6)
    rw [habsolute, abs_of_nonneg (by positivity)]
    norm_num
  have hbounds : (quartic.under .max).minStep ≤ (quartic.under .max).maxStep := by
    refine (Exact.le_iff _ _).mpr ?_
    exact (value_zero.trans_le zero_le_one).trans_eq value_one.symm
  obtain ⟨next, haccepted⟩ := Controller.exists_accepted hpair rfl hvalid hbounds hnorms.max hone
  exact ⟨_, _, haccepted, mt hcompared.max_vanishes.mp hdiffer⟩

theorem norms_compare_quartic :
    (Tolerance.standard : Tolerance RealNumber).validate = .ok () ∧
    (∃ rms max,
      Norms (Tolerance.standard : Tolerance RealNumber) [⟨1⟩, ⟨-2⟩] [⟨0⟩, ⟨0⟩] [⟨3⟩, ⟨4⟩] rms max ∧
      rms * rms ≤ max * max ∧ max * max ≤ Scalar.ofNat 2 * (rms * rms) ∧ rms ≠ zero ∧ max ≠ zero) ∧
    ∃ after s, (quartic.under .max).attempt = .accepted after s ∧ s.errorNorm ≠ zero ∧
      ∃ after' s', (quartic.under .rms).attempt = .accepted after' s' ∧ s'.errorNorm ≤ s.errorNorm := by
  have hvalid : (Tolerance.standard : Tolerance RealNumber).validate = .ok () := Scalar.Usual.tolerance
  obtain ⟨hnorms, haccepts⟩ := norms_compare hvalid
  obtain ⟨rms, max, hnorms, hcompared⟩ :=
    hnorms [⟨1⟩, ⟨-2⟩] [⟨0⟩, ⟨0⟩] [⟨3⟩, ⟨4⟩] (List.cons_ne_nil _ _) rfl rfl
  have hdiffer : ([⟨0⟩, ⟨0⟩] : List RealNumber) ≠ [⟨3⟩, ⟨4⟩] := by simp
  obtain ⟨after, s, hmax, hnonzero⟩ := quartic_accepts
  obtain ⟨next, norm, hrms, hle⟩ := haccepts quartic after s rfl hmax
  exact ⟨hvalid, ⟨rms, max, hnorms, hcompared.below, hcompared.above, mt hcompared.rms_vanishes.mp hdiffer,
    mt hcompared.max_vanishes.mp hdiffer⟩, after, s, hmax, hnonzero, _, _, hrms, hle⟩

end Stepper

end Trajectory
