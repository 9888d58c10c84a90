import Trajectory.Proofs.Number.Rounding
import Trajectory.Proofs.Stepper.Promises
import Trajectory.Proofs.Stepper.Sizes

namespace Trajectory

open Binary64
open Scalar (zero one)

def AllFinite {α : Type} [Scalar α] (values : List α) : Prop :=
  ∀ v ∈ values, Scalar.isFinite v = true

instance {α : Type} [Scalar α] (values : List α) : Decidable (AllFinite values) :=
  inferInstanceAs (Decidable (∀ v ∈ values, Scalar.isFinite v = true))

namespace Stepper

variable {t : Tolerance Float}

section Slot

variable {a e y fifth fourth : Float}

theorem unsigned_max (ha : Unsigned (parts a)) (he : Unsigned (parts e)) :
    Unsigned (parts (Scalar.max a e)) := by
  unfold Scalar.max
  split
  · exact he
  · exact ha

/-- The error is divided by a number without a minus sign, which keeps an infinity positive. -/
theorem lost_scaledError (ht : t.validate = .ok ()) (y : Float)
    (h : (fifth - fourth).isFinite = false) : Lost (parts (scaledError t y fifth fourth)) := by
  have hpassed := Tolerance.passed_of_validate ht
  have habsolute := unsigned_of_pos (Tolerance.pos_of_checkPositive hpassed.absolute)
  have hrelative := unsigned_of_pos (Tolerance.pos_of_checkPositive hpassed.relative)
  have hlarger := unsigned_max (unsigned_parts_abs y) (unsigned_parts_abs fifth)
  exact lost_div (lost_abs h)
    (unsigned_parts_add habsolute (unsigned_parts_mul hrelative hlarger))

theorem lost_largest_left (e : Float) (ha : Lost (parts a)) : Lost (parts (largest a e)) := by
  unfold largest
  split
  next hlarger =>
    rcases Bool.or_eq_true_iff.mp hlarger with hnone | hless
    · exact .inl (isNaN_eq_true_iff.mp hnone)
    · exact absurd (of_decide_eq_true hless) (not_lt_of_lost ha)
  next => exact ha

theorem lost_largest_right (a : Float) (he : Lost (parts e)) : Lost (parts (largest a e)) := by
  unfold largest
  split
  next => exact he
  next hsmaller =>
    rw [Bool.or_eq_true, not_or, decide_eq_true_eq] at hsmaller
    rcases he with hnone | hinfinity
    · exact absurd (isNaN_eq_true_iff.mpr hnone) hsmaller.1
    · exact lost_of_not_lt hinfinity hsmaller.2

end Slot

section Combined

variable {errors : List Float} {a e : Float}

theorem lost_foldl_largest (ha : Lost (parts a)) (errors : List Float) :
    Lost (parts (errors.foldl largest a)) := by
  induction errors generalizing a with
  | nil => exact ha
  | cons e errors ih => exact ih (lost_largest_left e ha)

theorem lost_foldl_of_mem (hmem : e ∈ errors) (he : Lost (parts e)) (a : Float) :
    Lost (parts (errors.foldl largest a)) := by
  induction errors generalizing a with
  | nil => cases hmem
  | cons first errors ih =>
    rcases List.mem_cons.mp hmem with rfl | hmem
    · exact lost_foldl_largest (lost_largest_right a he) errors
    · exact ih hmem _

theorem finite_of_foldl_add (h : (errors.foldl (fun a e => a + e) a).isFinite = true) :
    a.isFinite = true ∧ ∀ e ∈ errors, e.isFinite = true := by
  induction errors generalizing a with
  | nil => exact ⟨h, nofun⟩
  | cons first errors ih =>
    obtain ⟨hsum, herrors⟩ := ih h
    obtain ⟨ha, hfirst⟩ := finite_of_add hsum
    refine ⟨ha, fun e hmem => ?_⟩
    rcases List.mem_cons.mp hmem with rfl | hmem
    · exact hfirst
    · exact herrors e hmem

theorem lost_combined (norm : ErrorNorm) (hmem : e ∈ errors) (he : Lost (parts e)) :
    Lost (parts (combined norm errors)) := by
  cases norm with
  | max => exact lost_foldl_of_mem hmem he _
  | rms =>
    refine lost_sqrt (Bool.eq_false_iff.mpr fun hmean => ?_)
    obtain ⟨_, hsquares⟩ := finite_of_foldl_add (finite_of_div hmean)
    obtain ⟨hfinite, _⟩ := finite_of_mul (hsquares (e * e) (List.mem_map.mpr ⟨e, hmem, rfl⟩))
    rw [isFinite_of_lost he] at hfinite
    cases hfinite

end Combined

variable {y fifth fourth : List Float}

theorem exists_lost_error (ht : t.validate = .ok ()) (hfifth : fifth.length = y.length)
    (hfourth : fourth.length = y.length) (h : ¬ AllFinite (fifth ++ fourth)) :
    ∃ e ∈ scaledErrors t y fifth fourth, Lost (parts e) := by
  have hslot {i : Nat} (hi : i < y.length)
      (hdifference : (fifth[i] - fourth[i]).isFinite = false) :
      ∃ e ∈ scaledErrors t y fifth fourth, Lost (parts e) := by
    have hmem : (y[i], fifth[i], fourth[i]) ∈ y.zip (fifth.zip fourth) := by
      rw [List.mem_iff_getElem]
      exact ⟨i, by simp only [List.length_zip]; omega, by simp only [List.getElem_zip]⟩
    exact ⟨_, List.mem_map.mpr ⟨_, hmem, rfl⟩, lost_scaledError ht y[i] hdifference⟩
  unfold AllFinite at h
  push Not at h
  obtain ⟨v, hmem, hv⟩ := h
  rcases List.mem_append.mp hmem with hmem | hmem
  · obtain ⟨i, hi, rfl⟩ := List.getElem_of_mem hmem
    exact hslot (hfifth ▸ hi) (Bool.eq_false_iff.mpr fun hfinite => hv (finite_of_sub hfinite).1)
  · obtain ⟨i, hi, rfl⟩ := List.getElem_of_mem hmem
    exact hslot (hfourth ▸ hi) (Bool.eq_false_iff.mpr fun hfinite => hv (finite_of_sub hfinite).2)

theorem exists_lost_norm {ε : Type} (ht : t.validate = .ok ()) (hfifth : fifth.length = y.length)
    (hfourth : fourth.length = y.length) (h : ¬ AllFinite (fifth ++ fourth)) :
    ∃ norm, errorNorm (ε := ε) t y fifth fourth = .ok norm ∧ Lost (parts norm) := by
  obtain ⟨e, hmem, he⟩ := exists_lost_error ht hfifth hfourth h
  refine ⟨combined t.norm (scaledErrors t y fifth fourth), ?_, lost_combined t.norm hmem he⟩
  have hsome : y.isEmpty = false := by
    cases y with
    | nil => cases hmem
    | cons => rfl
  refine bind_eq_ok.mpr ⟨(), if_pos hfifth.ge, bind_eq_ok.mpr ⟨(), if_pos hfourth.ge, ?_⟩⟩
  rw [hsome]
  rfl

section Combine

variable {α : Type} [Scalar α]

theorem exists_later_of_stagesAfter {f : α → List α → Checked EvalError (List α)} {x h : α}
    {y : List α} {ks ks' : List (List α)} {stages : List (α × List α)}
    (hks : stagesAfter f x h y ks stages = .ok ks') : ∃ later, ks' = ks ++ later := by
  induction stages generalizing ks with
  | nil =>
    cases hks
    exact ⟨[], (List.append_nil _).symm⟩
  | cons stage stages ih =>
    obtain ⟨k, _, hks⟩ := bind_eq_ok.mp hks
    obtain ⟨later, hlater⟩ := ih hks
    exact ⟨k :: later, hlater.trans (List.append_assoc ks [k] later)⟩

theorem exists_combine_of_step {f : α → List α → Checked EvalError (List α)} {x h : α} {y : List α}
    {pair : StepPair α} (hstep : step f x y h = .ok pair) :
    ∃ k later, pair.fifth = combine h Tableau.embedded.fifth (k :: later) y := by
  obtain ⟨ks, hks, hpair⟩ := bind_eq_ok.mp hstep
  obtain ⟨k, _, hks⟩ := bind_eq_ok.mp hks
  obtain ⟨later, hlater⟩ := exists_later_of_stagesAfter hks
  cases hpair
  exact ⟨k, later, congrArg (combine h _ · y) hlater⟩

def StartsFinite (values : List α) : Prop := ∃ v, values.head? = some v ∧ Scalar.isFinite v = true

theorem StartsFinite.of_allFinite {values : List α} (h : AllFinite values) (hsome : values ≠ []) :
    StartsFinite values := by
  obtain ⟨v, later, rfl⟩ := List.exists_cons_of_ne_nil hsome
  exact ⟨v, rfl, h v List.mem_cons_self⟩

end Combine

theorem StartsFinite.of_addScaled {c : Float} {k sum : List Float}
    (h : StartsFinite (addScaled c k sum)) : c.isFinite = true ∧ StartsFinite sum := by
  obtain ⟨v, hv, hfinite⟩ := h
  cases k with
  | nil => cases hv
  | cons a k =>
    cases sum with
    | nil => cases hv
    | cons b sum =>
      cases hv
      obtain ⟨hproduct, hb⟩ := finite_of_add hfinite
      exact ⟨(finite_of_mul hproduct).1, b, rfl, hb⟩

theorem StartsFinite.of_foldl {h : Float} {terms : List (Float × List Float)} {sum : List Float}
    (hfinite : StartsFinite (terms.foldl
      (fun sum term => if term.1 == zero then sum else addScaled (h * term.1) term.2 sum) sum)) :
    StartsFinite sum := by
  induction terms generalizing sum with
  | nil => exact hfinite
  | cons term terms ih =>
    have hsum := ih hfinite
    dsimp only at hsum
    split at hsum
    next => exact hsum
    next => exact hsum.of_addScaled.2

/-- The first derivatives have a weight, so the size of the step has a part in every slot. -/
theorem isFinite_of_combine {h : Float} {k : List Float} {later : List (List Float)} {y : List Float}
    (hfinite : StartsFinite (combine h Tableau.embedded.fifth (k :: later) y)) :
    h.isFinite = true := by
  have hweight : ((Scalar.ratio 35 384 : Float) == zero) = false := by decide +kernel
  have hfirst : StartsFinite (if (Scalar.ratio 35 384 : Float) == zero then y
    else addScaled (h * Scalar.ratio 35 384) k y) := .of_foldl hfinite
  rw [hweight] at hfirst
  exact (finite_of_mul hfirst.of_addScaled.1).1

end Stepper

namespace Controller

theorem attempt_of_refuses {α : Type} [Scalar α] {c : Controller α} (hsound : c.Sound)
    (h : c.refuses = true) : (∃ after r, c.attempt = .rejected after r) ∨
      ∃ after, c.attempt = .failed after (c.convergence c.nextSize.1) := by
  have haccepted (after : Controller α) (s : AcceptedStep α) : c.attempt ≠ .accepted after s :=
    ne_accepted_of_refuses h
  have hbreach (after : Controller α) (b : Breach) : c.attempt ≠ .failed after (.breach b) :=
    hsound.attempt_ne b
  have htried := c.tried
  generalize c.attempt = a at htried haccepted hbreach
  cases htried with
  | stopped hpair =>
    rw [refuses, hpair] at h
    simp [bind, Except.bind] at h
  | fixed => exact absurd rfl (haccepted _ _)
  | adapted => exact absurd rfl (haccepted _ _)
  | rejected => exact .inl ⟨_, _, rfl⟩
  | least => exact .inr ⟨_, rfl⟩
  | breach => exact absurd rfl (hbreach _ _)

section Attempt

variable {c after : Controller Float} {pair : StepPair Float} {step : AcceptedStep Float}

theorem allFinite_of_norm {size norm : Float} (hvalid : c.tolerance.validate = .ok ())
    (hstep : c.system.step c.arg c.x c.y size = .ok pair)
    (herror : Stepper.errorNorm (ε := SolverError Float) c.tolerance c.y pair.fifth pair.fourth =
      .ok norm) (hnorm : norm ≤ one) : AllFinite (pair.fifth ++ pair.fourth) := by
  by_contra hinfinite
  have hc := OdeSystem.evaluable_of_step hstep
  obtain ⟨_, hstep', hfifth, hfourth⟩ := OdeSystem.exists_step (x := c.x) (h := size) hc
  cases hstep.symm.trans hstep'
  obtain ⟨_, herror', hlost⟩ := Stepper.exists_lost_norm (ε := SolverError Float) hvalid
    (hfifth.trans hc.size.symm) (hfourth.trans hc.size.symm) hinfinite
  cases herror.symm.trans herror'
  exact not_le_of_lost hlost (by decide +kernel) hnorm

theorem allFinite_of_judge {norm factor : Float} (hvalid : c.tolerance.validate = .ok ())
    (hpair : c.nextPair = .ok pair) (hjudge : c.judge pair = .ok (norm, factor))
    (hnorm : norm ≤ one) : AllFinite (pair.fifth ++ pair.fourth) := by
  obtain ⟨_, herror, hjudge⟩ := bind_eq_ok.mp hjudge
  obtain ⟨_, _, hjudge⟩ := bind_eq_ok.mp hjudge
  cases hjudge
  exact allFinite_of_norm hvalid (step_of_nextPair hpair) herror hnorm

theorem Made.allFinite (hvalid : c.tolerance.validate = .ok ()) (hmode : c.adaptive = true)
    (h : Made c step pair after) : AllFinite (pair.fifth ++ pair.fourth) := by
  obtain ⟨hnorm, herror⟩ := h.norm hmode
  exact allFinite_of_norm hvalid h.step herror hnorm

theorem refuses_of_not_finite (hsound : c.Sound) (hvalid : c.tolerance.validate = .ok ())
    (hmode : c.adaptive = true) (hpair : c.nextPair = .ok pair)
    (hinfinite : ¬ AllFinite (pair.fifth ++ pair.fourth)) : c.refuses = true := by
  obtain ⟨norm, factor, hjudge⟩ := hsound.exists_judge hpair
  have hnorm : ¬ norm ≤ one := mt (allFinite_of_judge hvalid hpair hjudge) hinfinite
  have hjudged : c.nextPair >>= c.judge = .ok (norm, factor) :=
    bind_eq_ok.mpr ⟨pair, hpair, hjudge⟩
  rw [refuses, hmode, hjudged]
  simpa using hnorm

theorem isFinite_of_nextPair (hpair : c.nextPair = .ok pair) (hfinite : AllFinite pair.fifth)
    (hsome : pair.fifth ≠ []) : c.nextSize.1.isFinite = true := by
  obtain ⟨k, later, hfifth⟩ := Stepper.exists_combine_of_step (step_of_nextPair hpair)
  have hstarts := Stepper.StartsFinite.of_allFinite hfinite hsome
  rw [hfifth] at hstarts
  exact Stepper.isFinite_of_combine hstarts

end Attempt

section Size

variable {c : Controller Float} {v low high size : Float}

theorem not_lt_of_clamp {ε : Type} (h : clamp (ε := ε) v low high = .ok size) : ¬ size < low := by
  unfold clamp at h
  split at h
  next horder =>
    cases h
    split
    · exact not_lt_self low
    · split
      · exact not_lt_of_le horder
      · assumption
  next => cases h

theorem not_lt_of_retrySize {factor next : Float} (h : c.retrySize size factor = .ok next) :
    ¬ next < c.minStep := by
  obtain ⟨clamped, hclamp, h⟩ := bind_eq_ok.mp h
  split at h
  next =>
    cases h
    unfold Scalar.max
    split
    next => exact not_lt_self _
    next hlarger =>
      rw [Bool.or_eq_true, not_or, decide_eq_true_eq] at hlarger
      exact hlarger.2
  next =>
    cases h
    exact not_lt_of_clamp hclamp

end Size

/-- An adaptive controller at a finite point, with a finite end before it. -/
structure Grounded (c : Controller Float) : Prop where
  mode : c.adaptive = true
  validated : c.tolerance.validate = .ok ()
  minStep : zero < c.minStep
  finish : c.finish.isFinite = true
  x : c.x.isFinite = true
  y : AllFinite c.y
  slots : c.y ≠ []
  /-- The size can be no number at all, but then the results of the step are none either. -/
  size : ¬ c.h < c.minStep

section Grounded

variable {c after : Controller Float} {step : AcceptedStep Float} {r : Rejection Float}
  {pair : StepPair Float} {tries : Nat}

theorem Grounded.place_moved (hc : c.Grounded) (hpair : c.nextPair = .ok pair)
    (hfinite : AllFinite pair.fifth) (hsome : pair.fifth ≠ []) :
    (c.moved c.nextSize.1 c.nextSize.2 pair.fifth).x.isFinite = true := by
  cases hlast : c.nextSize.2 with
  | true => exact hc.finish
  | false =>
    obtain ⟨hsize, hshort⟩ := nextSize_of_not_last hlast
    have hstep := isFinite_of_nextPair hpair hfinite hsome
    rw [hsize] at hstep ⊢
    exact isFinite_add_of_stretch hc.x (pos_of_not_lt hstep hc.minStep hc.size) hstep hc.finish hshort

theorem Grounded.accepted (hc : c.Grounded) (h : c.attempt = .accepted after step) :
    after.Grounded := by
  cases tried_of_eq h with
  | fixed _ hfixed => cases hc.mode.symm.trans hfixed
  | @adapted pair norm factor next hpair _ hjudge hnorm hnext =>
    have hfinite := allFinite_of_judge hc.validated hpair hjudge hnorm
    have hfifth : AllFinite pair.fifth := fun v hv => hfinite v (List.mem_append_left _ hv)
    have hsome : pair.fifth ≠ [] := by
      obtain ⟨hevaluable, hlength, _⟩ := length_of_nextPair hpair
      rw [← List.length_pos_iff, hlength, ← hevaluable.size, List.length_pos_iff]
      exact hc.slots
    exact ⟨hc.mode, hc.validated, hc.minStep, hc.finish, hc.place_moved hpair hfifth hsome, hfifth,
      hsome, not_lt_of_clamp hnext⟩

theorem Grounded.rejected (hc : c.Grounded) (h : c.attempt = .rejected after r) : after.Grounded := by
  cases tried_of_eq h with
  | rejected _ _ _ _ _ hnext => exact { hc with size := not_lt_of_retrySize hnext }

theorem Grounded.advance (hc : c.Grounded) (h : (c.advance tries).outcome = .step step) :
    (c.advance tries).controller.Grounded := by
  obtain ⟨last, hlast, hended⟩ : ∃ last, last.Grounded ∧ Ended last (c.advance tries) :=
    exists_ended (I := Grounded) hc fun _ _ _ hd hattempt => hd.rejected hattempt
  cases hended with
  | step hattempt hcontroller _ =>
    rw [hcontroller]
    exact hlast.accepted hattempt
  | failure _ _ houtcome => simp [h] at houtcome
  | exhausted _ houtcome => simp [h] at houtcome

end Grounded

section Reached

variable {α : Type} [Scalar α] [Scalar.Comparable α] {s : OdeSystem α} {range : Range α}
  {t : Tolerance α} {y : List α} {adaptive : Bool} {c : Controller α}

theorem Reached.steps (hrange : range.Valid) (h : Reached s range t y adaptive c) :
    c.minStep ≤ c.maxStep := by
  induction h with
  | @start c h =>
    have hstarted := started_of_start h
    rw [hstarted.fields]
    exact Tolerance.minStep_le_maxStep hstarted.validated hrange hstarted.steps
  | @attempt c _ ih =>
    rw [c.moves_attempt]
    exact ih

/-- Over a valid range only a state of the wrong size can break a promise. -/
theorem Reached.sound (hrange : range.Valid) (h : Reached s range t y adaptive c)
    (hsize : c.y.length = c.system.size) : c.Sound := by
  refine ⟨hsize, ?_, h.steps hrange⟩
  rw [h.kept.1]
  exact Tolerance.minFactor_le_maxFactor h.validated

end Reached

section Start

variable {s : OdeSystem Float} {range : Range Float} {t : Tolerance Float} {y : List Float}
  {c : Controller Float}

theorem minStep_pos (h : t.validate = .ok ()) : zero < t.minStep := by
  unfold Tolerance.minStep
  cases hstep : t.minStep? with
  | none => decide +kernel
  | some value => exact (Tolerance.proper_of_validate h).minStep value hstep

theorem grounded_of_start (hrange : range.Valid) (hy : AllFinite y) (hsome : y ≠ [])
    (h : start s range t y true = .ok c) : c.Grounded := by
  have hstarted := started_of_start h
  have hsize := not_lt_of_clamp (hstarted.clamped rfl)
  obtain ⟨hstart, hfinish⟩ := Range.isFinite_of_make hrange
  rw [hstarted.fields]
  exact ⟨rfl, hstarted.validated, minStep_pos hstarted.validated, hfinish, hstart, hy, hsome, hsize⟩

end Start

end Controller

end Trajectory
