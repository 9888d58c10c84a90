import Trajectory.Proofs.Solver.FirstStep
import Trajectory.Proofs.Solver.Refusal
import Trajectory.Proofs.Stepper.Promises
import Trajectory.Proofs.Stepper.Sizes
import Trajectory.Proofs.Task.Applying

namespace Trajectory

variable {α : Type} [Scalar α]

theorem Tolerance.le_of_checkSteps [Scalar.Rounded α] {low high : α}
    (h : checkSteps low high = .ok ()) : low ≤ high := by
  unfold checkSteps at h
  split at h
  next => cases h
  next hlarge => exact Scalar.Rounded.not_lt.mp hlarge

namespace Controller

open Scalar (zero one)
open Scalar.Exact (value)

theorem exists_size [Scalar.Rounded α] {r : Range α} {t : Tolerance α} (hvalid : t.validate = .ok ())
    (hsteps : Tolerance.checkSteps t.minStep (t.maxStep r) = .ok ()) :
    ∃ h, ∀ (s : OdeSystem α) (y : List α), y.length = s.size → start s r t y true = .ok
      { system := s, arg := r.arg, tolerance := t, adaptive := true, minStep := t.minStep,
        maxStep := t.maxStep r, finish := r.finish, x := r.start, y, h, accepted := 0,
        rejected := 0 } := by
  obtain ⟨h, hclamp⟩ :=
    exists_clamp (ε := SolverError α) (Tolerance.le_of_checkSteps hsteps) r.firstStep
  refine ⟨h, fun s y hy => ?_⟩
  unfold start
  dsimp only
  rw [hvalid, hsteps]
  change (if y.length ≠ s.size then _ else _) = _
  rw [if_neg (not_not.mpr hy), if_pos rfl, hclamp]
  rfl

variable [Scalar.Exact α] {c : Controller α} {system : OdeSystem α} {range : Range α} {t : Tolerance α}
  {y : List α} {tries : Nat} {s : AcceptedStep α}

theorem finished_iff : c.finished = true ↔ value c.finish ≤ value c.x := by
  rw [finished, decide_eq_true_eq, Scalar.Exact.le_iff]

/-- A step lands on the end, or it is as long as the least step at least. -/
theorem Reached.gains (hfactor : t.minFactor < one) (h : Reached system range t y true c)
    (houtcome : (c.advance tries).outcome = .step s) :
    value c.finish ≤ value (c.advance tries).controller.x ∨
      value c.x + value t.minStep ≤ value (c.advance tries).controller.x := by
  obtain ⟨last, ⟨hlast, hx, hfinish⟩, hended⟩ : ∃ last,
      (Reached system range t y true last ∧ last.x = c.x ∧ last.finish = c.finish) ∧
        Ended last (c.advance tries) := by
    refine exists_ended ⟨h, rfl, rfl⟩ fun d after r ⟨hd, hx, hfinish⟩ hattempt => ?_
    have hafter := hd.attempt
    rw [hattempt] at hafter
    exact ⟨hafter, (stands_of_rejected hattempt).x.trans hx,
      (moves_of_rejected hattempt).finish.trans hfinish⟩
  obtain ⟨_, hminStep, _, hmode⟩ := hlast.kept
  cases hended with
  | failure _ _ hfailure => cases hfailure.symm.trans houtcome
  | exhausted _ hexhausted => cases hexhausted.symm.trans houtcome
  | step hattempt hcontroller _ =>
    rw [hcontroller, ← hx, ← hfinish]
    cases tried_of_eq hattempt with
    | fixed _ hfixed => cases hmode.symm.trans hfixed
    | adapted =>
      cases hend : last.nextSize.2 with
      | true => exact .inl le_rfl
      | false =>
        have hlow := (hlast.within hfactor).low
        rw [hminStep, Scalar.Exact.le_iff] at hlow
        rw [(nextSize_of_not_last hend).1]
        change _ ∨ _ ≤ value (last.x + last.h)
        rw [Scalar.Exact.value_add]
        exact .inr (add_le_add_right hlow _)

end Controller

namespace Session

open Controller (PowerShrinks Reached finished_iff)
open Delivery (deliver)
open Scalar (one)
open Scalar.Exact (value)

variable {μ : Type}

/-- A run that ends with an error, or at the end of its range. -/
def Uncanceled (result : Result α (List (Point α))) (v : World (protocol α μ)) : Prop :=
  ∀ points, result = .ok points → v.state.solver.status ≠ .canceled

variable [Numeral α] {calls d tries steps fuel : Nat} {c : Controller α} {w : World (protocol α μ)}

/-- From wherever the controller stands in a run that nobody is told of, the run returns. -/
def Returns (μ : Type) (calls d tries steps : Nat) (c : Controller α) : Prop :=
  ∀ t : Stage α μ, t.controller = c → Deserted t.after → t.after.state.solver.cancelRequested = false →
    ∃ result v, t.rest (deliver (answer α μ) calls d) tries steps t.after = .ok result v ∧
      Uncanceled result v

theorem exists_conclude (hdeserted : Deserted w) (hflag : w.state.solver.cancelRequested = false)
    (points : List (Point α)) : ∃ v,
      conclude (deliver (answer α μ) calls d) ⟨c, points, none⟩ w = .ok (.ok points) v ∧
        v.state.solver.status = .finished := by
  let logged := w.addLog (stepsLine c)
  let stored := withSolver logged { logged.state.solver with status := .finished, result := points }
  refine ⟨stored.record (.published d .completed points), ?_, rfl⟩
  have htell := deliver_of_deserted (w := stored) hdeserted calls d .completed points
  unfold conclude
  dsimp only
  refine (Act.bind_of_ok rfl).trans ?_
  refine (Act.bind_of_ok rfl).trans ?_
  rw [if_neg (by simpa using hflag)]
  refine (Act.bind_of_ok rfl).trans ?_
  exact Act.bind_of_ok htell

namespace Returns

theorem of_finished (h : c.finished = true) : Returns μ calls d tries (steps + 1) c := by
  rintro t rfl hdeserted hflag
  obtain ⟨v, hconclude, hstatus⟩ : ∃ v, conclude (deliver (answer α μ) calls d)
      ⟨t.controller, t.points, none⟩ t.after = .ok (.ok t.points) v ∧
        v.state.solver.status = .finished := exists_conclude hdeserted hflag t.points
  refine ⟨.ok t.points, v, ?_, fun _ _ => ?_⟩
  · rw [Stage.rest_of_stops (by simp [stops, h]), hconclude]
  · rw [hstatus]
    decide

theorem of_failure {e : SolverError α} (hgo : c.finished = false)
    (houtcome : (c.advance tries).outcome = .failure (.cause e)) :
    Returns μ calls d tries (steps + 1) c := by
  rintro t rfl _ hflag
  obtain ⟨v, hrest⟩ : ∃ v, t.rest (deliver (answer α μ) calls d) tries (steps + 1) t.after =
      .ok (.error e) v := Stage.rest_of_failure (by simp [stops, hgo, hflag]) houtcome
  exact ⟨_, v, hrest, fun _ hok => by cases hok⟩

theorem of_step {s : AcceptedStep α} (hgo : c.finished = false)
    (houtcome : (c.advance tries).outcome = .step s)
    (h : Returns μ calls d tries steps (c.advance tries).controller) :
    Returns μ calls d tries (steps + 1) c := by
  rintro t rfl hdeserted hflag
  obtain ⟨point, hpoint⟩ := exists_pointAt (Controller.evaluable_of_step houtcome).size
  let before := tried tries t.controller t.after
  let told : Solver.Progress α := ⟨s.x, s.size, s.errorNorm⟩
  let next : Stage α μ := ⟨(t.controller.advance tries).controller, t.points ++ [point],
    t.progress ++ [told], before, before.record (.published d .progress told)⟩
  have htell := deliver_of_deserted (w := before) hdeserted calls d .progress told
  have hnext : t.Next (deliver (answer α μ) calls d) tries s point next :=
    ⟨by simp [stops, hgo, hflag], houtcome, rfl, hpoint, rfl, rfl, rfl, 0, htell⟩
  rw [hnext.rest_eq]
  exact h next rfl hdeserted hflag

theorem run {setup : Setup α} (h : Returns μ calls d fuel fuel c) (hdeserted : Deserted w)
    (hidle : w.state.solver.running = false) (hprepare : w.state.solver.prepare = .ok setup)
    (hstart : Controller.start setup.system setup.range setup.tolerance setup.y true = .ok c)
    (hsize : c.y.length = c.system.size) :
    ∃ result v, Session.run (deliver (answer α μ) calls d) fuel true w = .ok result v ∧
      Uncanceled result v := by
  obtain ⟨point, hpoint⟩ := exists_pointAt hsize
  let before := begun w setup true
  have htell := deliver_of_deserted (w := before) hdeserted calls d .runStarted setup.range
  let first : Stage α μ := ⟨c, [point], [], before,
    before.record (.published d .runStarted setup.range)⟩
  have hbegun : first.Begun (deliver (answer α μ) calls d) true w setup point :=
    ⟨hprepare, hstart, hpoint, rfl, rfl, rfl, 0, htell⟩
  obtain ⟨result, v, hrest, huncanceled⟩ := h first rfl hdeserted rfl
  refine ⟨result, released v, ?_, huncanceled⟩
  rw [hbegun.run_eq hidle]
  unfold releasing
  rw [hrest]
  rfl

end Returns

variable [Scalar.Exact α] {system : OdeSystem α} {range : Range α} {t : Tolerance α} {y : List α}

theorem exists_returns (calls d : Nat) (hpower : PowerShrinks α) (hmin : t.minFactor < one)
    (hsafety : t.safety < one) (hfree : ∀ e, Reached system range t y true e → e.stuck = false)
    {n : Nat} (hc : Reached system range t y true c) (hsound : c.Sound)
    (hrest : value c.finish ≤ value c.x + n * value t.minStep) :
    ∃ enough, ∀ tries ≥ enough, ∀ steps ≥ n, Returns μ calls d tries (steps + 1) c := by
  induction n generalizing c with
  | zero =>
    have hend : c.finished = true := finished_iff.mpr (by simpa using hrest)
    exact ⟨0, fun _ _ _ _ => .of_finished hend⟩
  | succ n ih =>
    cases hgo : c.finished with
    | true => exact ⟨0, fun _ _ _ _ => .of_finished hgo⟩
    | false =>
      obtain ⟨first, hfirst⟩ :=
        Controller.exists_not_exhausted hpower (hc.shrinks hmin hsafety) (hfree c hc)
      have hmore {tries : Nat} (htries : tries ≥ first) : c.advance tries = c.advance first :=
        Controller.advance_of_le hfirst htries
      cases houtcome : (c.advance first).outcome with
      | exhausted => exact absurd houtcome hfirst
      | failure f =>
        cases f with
        | breach b => exact absurd houtcome (hsound.outcome_ne b)
        | cause e =>
          exact ⟨first, fun tries htries _ _ => .of_failure hgo (by rw [hmore htries, houtcome])⟩
      | step s =>
        have hleft : value (c.advance first).controller.finish ≤
            value (c.advance first).controller.x + n * value t.minStep := by
          have hminStep : 0 < value t.minStep := by
            rw [← hc.kept.2.1]
            exact (hc.shrinks hmin hsafety).value_minStep_pos
          rw [(c.moves_advance first).finish]
          push_cast at hrest
          rcases hc.gains hmin houtcome with hend | hgain
          · have : 0 ≤ n * value t.minStep := by positivity
            linarith
          · linarith
        obtain ⟨enough, hlater⟩ := ih (hc.advance first) (hsound.advance houtcome) hleft
        refine ⟨max first enough, fun tries htries steps hsteps => ?_⟩
        have hsame := hmore ((le_max_left _ _).trans htries)
        obtain ⟨left, rfl⟩ : ∃ left, steps = left + 1 := ⟨steps - 1, by omega⟩
        refine .of_step hgo (by rw [hsame, houtcome]) ?_
        rw [hsame]
        exact hlater tries ((le_max_right _ _).trans htries) left (by omega)

theorem exists_run_of_free (hpower : PowerShrinks α) (hdeserted : Deserted w)
    (hidle : w.state.solver.running = false) {setup : Setup α}
    (hprepare : w.state.solver.prepare = .ok setup) (hmin : setup.tolerance.minFactor < one)
    (hsafety : setup.tolerance.safety < one)
    (hfree : ∀ e, Reached setup.system setup.range setup.tolerance setup.y true e → e.stuck = false) :
    ∃ enough, ∀ fuel ≥ enough, ∃ result v,
      run (deliver (answer α μ) calls d) fuel true w = .ok result v ∧ Uncanceled result v := by
  have hprepared := Solver.prepared_of_prepare hprepare
  have hvalid : setup.tolerance.validate = .ok () := by
    rw [hprepared.tolerance]
    exact hprepared.validated
  have hsteps : Tolerance.checkSteps setup.tolerance.minStep (setup.tolerance.maxStep setup.range) =
      .ok () := by
    rw [hprepared.tolerance, hprepared.range]
    exact hprepared.steps
  have hleast : 0 < value setup.tolerance.minStep := by
    have hpos := (Tolerance.proper_of_validate hvalid).minStep_pos
    rwa [Scalar.Exact.lt_iff, Scalar.Exact.value_zero] at hpos
  obtain ⟨h, hstarts⟩ := Controller.exists_size hvalid hsteps
  have hstart := hstarts setup.system setup.y hprepared.size
  -- As many of the least steps as it takes to go over the range.
  obtain ⟨n, hn⟩ := exists_nat_ge
    ((value setup.range.finish - value setup.range.start) / value setup.tolerance.minStep)
  rw [div_le_iff₀ hleast] at hn
  obtain ⟨enough, hreturns⟩ := exists_returns (μ := μ) (n := n) calls d hpower hmin hsafety
    hfree (.start hstart)
    ⟨hprepared.size, Tolerance.minFactor_le_maxFactor hvalid, Tolerance.le_of_checkSteps hsteps⟩
    (by linarith)
  refine ⟨max enough (n + 1), fun fuel hfuel => ?_⟩
  obtain ⟨steps, rfl⟩ : ∃ steps, fuel = steps + 1 := ⟨fuel - 1, by omega⟩
  exact (hreturns _ (by omega) steps (by omega)).run hdeserted hidle hprepare hstart hprepared.size

/-- The run that a solver is about to make comes to a controller that is stuck. -/
def Sticks (t : Solver α) : Prop :=
  ∃ setup c, t.prepare = .ok setup ∧
    Reached setup.system setup.range setup.tolerance setup.y true c ∧ c.stuck = true

/-- An adaptive run that nobody is told of returns, unless it sticks. -/
theorem adaptive_run_returns (hpower : PowerShrinks α) (hdeserted : Deserted w)
    (hmin : w.state.solver.tolerance.minFactor < one)
    (hsafety : w.state.solver.tolerance.safety < one) (calls d : Nat) :
    (∃ enough, ∀ fuel ≥ enough, ∃ result v,
      run (deliver (answer α μ) calls d) fuel true w = .ok result v ∧ Uncanceled result v) ∨
    Sticks w.state.solver := by
  cases hrunning : w.state.solver.running with
  | true => exact .inl ⟨0, fun _ _ => ⟨_, w, run_of_running hrunning, nofun⟩⟩
  | false =>
    cases hprepare : w.state.solver.prepare with
    | error fault => exact .inl ⟨0, fun _ _ => ⟨_, _, run_of_unprepared hrunning hprepare, nofun⟩⟩
    | ok setup =>
      have htolerance := (Solver.prepared_of_prepare hprepare).tolerance
      rw [← htolerance] at hmin hsafety
      refine or_iff_not_imp_right.mpr fun hfree => ?_
      refine exists_run_of_free hpower hdeserted hrunning hprepare hmin hsafety fun e he => ?_
      cases hstuck : e.stuck with
      | false => rfl
      | true => exact absurd ⟨setup, e, hprepare, he, hstuck⟩ hfree

end Session

end Trajectory
