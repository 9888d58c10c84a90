import Trajectory.Proofs.OdeSystem.Reduction
import Trajectory.Proofs.Settings.Standard
import Trajectory.Proofs.Solver.Points
import Trajectory.Proofs.Solver.Stages
import Trajectory.Proofs.Stepper.Evaluable

namespace Trajectory

variable {α μ : Type}

namespace Session

open Delivery (deliver)
open Delivery.Frame (Publishes)

theorem exists_pointAt {c : Controller α} (hy : c.y.length = c.system.size) :
    ∃ point, pointAt c = .ok point := by
  refine Point.exists_project (fun i hi => ?_) ?_
  · have hlt := OdeSystem.lt_of_mem_offsets hi
    rw [hy, OdeSystem.size, OdeSystem.vars]
    omega
  · rw [pointNames, List.length_cons, OdeSystem.baseNames, List.length_map, OdeSystem.baseIndices,
      OdeSystem.length_offsets]

variable [Scalar α]

theorem lasting_order [Scalar.Usual α] :
    Lasting fun s : Solver α => ¬ s.range.finish ≤ s.range.start :=
  .range (P := fun r => ¬ r.finish ≤ r.start) (Range.proper_of_make Scalar.Usual.range).order
    fun hmake => (Range.proper_of_make hmake).order

/-- After a step that was made no later one fails of the evaluation. -/
theorem Steps.ne_evaluation {publish : Publish α μ} {tries : Nat} {c last : Controller α}
    {error? : Option (SolverError α)} {points : List (Point α)} {w v : World (protocol α μ)}
    (hc : c.Evaluable) (h : Steps publish tries c w last error? points v) (e : EvalError) :
    error? ≠ some (.evaluation e) := by
  induction h with
  | stop _ => exact fun herror => by cases herror
  | failure _ _ houtcome =>
    intro herror
    cases herror
    exact hc.outcome_ne e houtcome
  | step _ _ houtcome _ _ _ ih => exact ih (Controller.evaluable_of_step houtcome)

theorem Steps.eq_nil_of_evaluation {publish : Publish α μ} {tries : Nat} {c last : Controller α}
    {e : EvalError} {points : List (Point α)} {w v : World (protocol α μ)}
    (h : Steps publish tries c w last (some (.evaluation e)) points v) : points = [] := by
  cases h with
  | failure => rfl
  | step _ _ houtcome _ _ hlater =>
    exact absurd rfl (hlater.ne_evaluation (Controller.evaluable_of_step houtcome) e)

/-- The first try meets an unbound name, unless the run was canceled before. -/
theorem Steps.of_foreign {publish : Publish α μ} {tries : Nat} {c last : Controller α} {n : String}
    {error? : Option (SolverError α)} {points : List (Point α)} {w v : World (protocol α μ)}
    (hgo : c.finished = false) (hy : c.y.length = c.system.size)
    (hforeign : c.system.foreign? c.arg = some n)
    (h : Steps publish tries c w last error? points v) :
    error? = some (c.unboundError n) ∨ error? = none ∧ v.state.solver.cancelRequested = true := by
  have hadvance (more : Nat) : c.advance (more + 1) =
      ⟨c, [], .failure (.cause (c.unboundError n))⟩ := Controller.advance_of_foreign hy hforeign
  cases h with
  | stop hstop => exact .inr ⟨rfl, by simpa [stops, hgo] using hstop⟩
  | failure _ _ houtcome =>
    cases tries with
    | zero => cases houtcome
    | succ tries =>
      rw [hadvance] at houtcome
      cases houtcome
      exact .inl rfl
  | step _ _ houtcome =>
    cases tries with
    | zero => cases houtcome
    | succ tries =>
      rw [hadvance] at houtcome
      cases houtcome

variable [Numeral α] {calls fuel d : Nat} {adaptive : Bool} {w v : World (protocol α μ)}

/-- A run that fails of an evaluation has told of its start and of nothing else. -/
theorem silent_of_evaluation {e : EvalError}
    (h : run (deliver (answer α μ) calls d) fuel adaptive w = .ok (.error (.evaluation e)) v) :
    ∃ new, v.history = new ++ w.history ∧ ∀ k p, .published k .progress p ∉ new := by
  have hidle : w.state.solver.running = false := by
    by_contra hrunning
    rw [run_of_running (by simpa using hrunning)] at h
    cases h
  have hpublish : Publishes WhileRunning d (deliver (answer α μ) calls d) := deliver_keeps calls d
  cases ran_of_run hidle h with
  | @through setup c point later stop n _ before told stepped ended hprepared hstart hpoint hbefore
      hhistory htell hsteps hpoints hconclude hreleased =>
    have hrunning : before.state.solver.running = true := by rw [hbefore]
    obtain ⟨hheld, _, progress, hx, htells⟩ := tells_of_steps hpublish hrunning htell hsteps
    rcases conclude_ends hpublish (hheld.running.trans hrunning) hconclude with
      ⟨e', herror, he', hlast, _⟩ | ⟨hok, _⟩
    · cases he'
      rw [herror] at hsteps
      rw [hsteps.eq_nil_of_evaluation] at hx
      obtain rfl : progress = [] := List.map_eq_nil_iff.mp hx.symm
      have hsilent : Tells d w before [] := .of_same hhistory
      have htold := hsilent.trans (htells.trans hlast)
      obtain ⟨new, hnew⟩ := htold.exists_new
      refine ⟨new, by rw [hreleased]; exact hnew, fun k p hmem => ?_⟩
      rcases htold.mem_of_published hnew hmem with hmem | hcanceled
      · simp at hmem
      · cases hcanceled
    · cases hok

section Foreign

variable {s : Solver α} {setup : Setup α} {c : Controller α} {system : OdeSystem α} {n : String}

omit [Numeral α] in
theorem started_of_prepared (hprepared : Solver.Prepared s setup)
    (hstart : Controller.start setup.system setup.range setup.tolerance setup.y adaptive = .ok c)
    (horder : ¬ s.range.finish ≤ s.range.start) (hsystem : s.system? = some system)
    (hforeign : system.foreign? s.range.arg = some n) :
    c.finished = false ∧ c.y.length = c.system.size ∧ c.system.foreign? c.arg = some n := by
  have hfields := (Controller.started_of_start hstart).fields
  have hsame : setup.system = system := Option.some.inj (hprepared.system.symm.trans hsystem)
  refine ⟨?_, ?_, ?_⟩
  · rw [hfields, hprepared.range]
    exact decide_eq_false horder
  · rw [hfields]
    exact hprepared.size
  · rw [hfields, hprepared.range, hsame]
    exact hforeign

/-- With an unbound name a run that made it past its checks, and was neither canceled nor given up
before its first step, has failed of that name. -/
theorem result_of_foreign {result : Result α (List (Point α))}
    (horder : ¬ w.state.solver.range.finish ≤ w.state.solver.range.start)
    (hidle : w.state.solver.running = false) (hsystem : w.state.solver.system? = some system)
    (hforeign : system.foreign? w.state.solver.range.arg = some n)
    (h : run (deliver (answer α μ) calls d) fuel adaptive w = .ok result v)
    (hchecked : ∀ fault, result ≠ .error (.configuration fault))
    (hcanceled : v.state.solver.status ≠ .canceled)
    (hconverged : ∀ x h minStep, result ≠ .error (.convergence x h minStep)) :
    result = .error (.evaluation (.unbound n)) := by
  have hpublish : Publishes WhileRunning d (deliver (answer α μ) calls d) := deliver_keeps calls d
  cases ran_of_run hidle h with
  | refused => exact absurd rfl (hchecked _)
  | @through setup c point later stop m _ before told stepped ended hprepared hstart hpoint hbefore
      hhistory htell hsteps hpoints hconclude hreleased =>
    obtain ⟨hgo, hy, hunbound⟩ :=
      started_of_prepared hprepared hstart horder hsystem hforeign
    have hrunning : before.state.solver.running = true := by rw [hbefore]
    obtain ⟨hheld, _⟩ := tells_of_steps hpublish hrunning htell hsteps
    rw [hreleased] at hcanceled
    rcases hsteps.of_foreign hgo hy hunbound with hfailed | ⟨hdone, hrequested⟩
    · rcases conclude_ends hpublish (hheld.running.trans hrunning) hconclude with
        ⟨e, herror, hresult, _⟩ | ⟨_, hnone, _⟩
      · obtain rfl : e = c.unboundError n := Option.some.inj (herror.symm.trans hfailed)
        rw [hresult, Controller.unboundError] at hconverged ⊢
        split
        next hlost => exact absurd (by rw [if_pos hlost]) (hconverged _ _ _)
        next => rfl
      · cases hnone.symm.trans hfailed
    · rcases conclude_ends hpublish (hheld.running.trans hrunning) hconclude with
        ⟨e, herror, _⟩ | ⟨_, _, _, ⟨hkept, _⟩ | ⟨_, hstatus, _⟩⟩
      · cases herror.symm.trans hdone
      · cases hkept.symm.trans hrequested
      · exact absurd hstatus hcanceled

theorem run_of_foreign {publish : Publish α μ} {m : Nat} {told : World (protocol α μ)}
    (horder : ¬ w.state.solver.range.finish ≤ w.state.solver.range.start)
    (hidle : w.state.solver.running = false) (hsystem : w.state.solver.system? = some system)
    (hforeign : system.foreign? w.state.solver.range.arg = some n)
    (hprepare : w.state.solver.prepare = .ok setup)
    (hstart : Controller.start setup.system setup.range setup.tolerance setup.y adaptive = .ok c)
    (htold : publish .runStarted setup.range (begun w setup adaptive) = .ok m told)
    (hgoes : told.state.solver.cancelRequested = false) (hfuel : 0 < fuel) :
    ∃ v, run publish fuel adaptive w = .ok (.error (c.unboundError n)) v := by
  obtain ⟨hgo, hy, hunbound⟩ :=
    started_of_prepared (Solver.prepared_of_prepare hprepare) hstart horder hsystem hforeign
  obtain ⟨point, hpoint⟩ := exists_pointAt hy
  let t : Stage α μ := ⟨c, [point], [], begun w setup adaptive, told⟩
  have hbegun : t.Begun publish adaptive w setup point :=
    ⟨hprepare, hstart, hpoint, rfl, rfl, rfl, m, htold⟩
  obtain ⟨steps, rfl⟩ : ∃ steps, fuel = steps + 1 := ⟨fuel - 1, by omega⟩
  have hstop : stops t.controller t.after = false := by simp [t, stops, hgo, hgoes]
  have houtcome : (t.controller.advance (steps + 1)).outcome =
      .failure (.cause (c.unboundError n)) := by
    rw [Controller.advance_of_foreign hy hunbound]
  obtain ⟨u, hrest⟩ : ∃ u, t.rest publish (steps + 1) (steps + 1) t.after =
      .ok (.error (c.unboundError n)) u := Stage.rest_of_failure hstop houtcome
  refine ⟨released u, ?_⟩
  rw [hbegun.run_eq hidle]
  unfold releasing
  rw [hrest]
  rfl

end Foreign

/-- A step fails exactly as the derivatives at its start do, whatever the values are. So a run fails of
an evaluation at its first step or never, and it does where a right-hand side reads a name that is
neither the argument nor a variable, unless it ends before that step. -/
theorem run_evaluates_first [Scalar.Usual α] (calls fuel d : Nat) (adaptive : Bool) :
    (∀ (s : OdeSystem α) (arg : String) (x : α) (y : List α) (h : α) (f : Failure EvalError),
      s.step arg x y h = .error f ↔ s.evaluate arg x y = .error f) ∧
    (∀ (w v : World (protocol α μ)) (e : EvalError),
      run (deliver (answer α μ) calls d) fuel adaptive w = .ok (.error (.evaluation e)) v →
        ∃ new, v.history = new ++ w.history ∧ ∀ k p, .published k .progress p ∉ new) ∧
    ∀ (w : World (protocol α μ)) (system : OdeSystem α), Reachable w →
      w.state.solver.running = false → w.state.solver.system? = some system →
      (∃ e ∈ system.equations, ∃ n ∈ e.right.occurrences,
        n ≠ w.state.solver.range.arg ∧ n ∉ system.names) →
      ∃ n, system.foreign? w.state.solver.range.arg = some n ∧
        (∀ result v, run (deliver (answer α μ) calls d) fuel adaptive w = .ok result v →
          (∀ fault, result ≠ .error (.configuration fault)) → v.state.solver.status ≠ .canceled →
            (∀ x h minStep, result ≠ .error (.convergence x h minStep)) →
              result = .error (.evaluation (.unbound n))) ∧
        -- Once its start has been told of, it does return.
        ∀ setup c m told, w.state.solver.prepare = .ok setup →
          Controller.start setup.system setup.range setup.tolerance setup.y adaptive = .ok c →
          deliver (answer α μ) calls d .runStarted setup.range (begun w setup adaptive) =
            .ok m told →
          told.state.solver.cancelRequested = false → 0 < fuel →
            ∃ v, run (deliver (answer α μ) calls d) fuel adaptive w =
              .ok (.error (c.unboundError n)) v := by
  refine ⟨fun s arg x y h f => OdeSystem.step_eq_error_iff, fun w v e h => silent_of_evaluation h,
    fun w system hreachable hidle hsystem hreads => ?_⟩
  have horder := lasting_order.of_reachable hreachable
  cases hforeign : system.foreign? w.state.solver.range.arg with
  | none => exact absurd hreads (OdeSystem.foreign?_eq_none_iff.mp hforeign)
  | some n =>
    refine ⟨n, rfl, fun result v h => result_of_foreign horder hidle hsystem hforeign h, ?_⟩
    intro setup c m told hprepare hstart htold hgoes hfuel
    exact run_of_foreign horder hidle hsystem hforeign hprepare hstart htold hgoes hfuel

/-- A value that grows with a rate that is nowhere given. -/
def unrated : OdeSystem Fraction where
  equations := [⟨'y', 1, .const Scalar.one, "y' = 1"⟩,
    ⟨'z', 1, .binary .add (.binary .mul (.var "k") (.var "y")) (.var "q"), "z' = k*y + q"⟩]

def unratedWorld : World (protocol Fraction Unit) :=
  let stated := (ask 0 (.setEquations ["y' = 1", "z' = k*y + q"])).after (newWorld {} ())
  (ask 0 (.setConditions (.ofList [("y", Scalar.one), ("z", Scalar.one)]))).after stated

theorem reachable_unrated : Reachable unratedWorld := by
  have hstated := Reachable.answered (α := Fraction) (.new {} () .foreign) 0 0 0
    (.setEquations ["y' = 1", "z' = k*y + q"])
  exact .answered hstated 0 0 0 (.setConditions (.ofList [("y", Scalar.one), ("z", Scalar.one)]))

theorem run_evaluates_first_unrated : ∃ v,
    run (deliver (answer Fraction Unit) 2 0) 20 true unratedWorld =
        .ok (.error (.evaluation (.unbound "k"))) v ∧
      ∃ new, v.history = new ++ unratedWorld.history ∧ ∀ k p, .published k .progress p ∉ new := by
  have hidle : unratedWorld.state.solver.running = false := by decide +kernel
  have hsystem : unratedWorld.state.solver.system? = some unrated := by decide +kernel
  have hk : unrated.foreign? unratedWorld.state.solver.range.arg = some "k" := by decide +kernel
  have hcomputed : (Stage.first? (deliver (answer Fraction Unit) 2 0) true unratedWorld).any
      (fun t => !t.after.state.solver.cancelRequested && !t.controller.lost) = true := by
    decide +kernel
  obtain ⟨t, hfirst, hcomputed⟩ := Option.any_eq_true _ _ |>.mp hcomputed
  simp only [Bool.and_eq_true, Bool.not_eq_true'] at hcomputed
  obtain ⟨hgoes, hlost⟩ := hcomputed
  obtain ⟨setup, point, hbegun⟩ := begun_of_first? hfirst
  obtain ⟨m, htold⟩ := hbegun.told
  rw [hbegun.before] at htold
  obtain ⟨_, hsilent, hforeign⟩ := run_evaluates_first (α := Fraction) (μ := Unit) 2 20 0 true
  have hreads := not_not.mp (mt OdeSystem.foreign?_eq_none_iff.mpr (by rw [hk]; simp))
  obtain ⟨n, hn, _, hreturns⟩ := hforeign unratedWorld unrated reachable_unrated hidle hsystem hreads
  obtain rfl : n = "k" := Option.some.inj (hn.symm.trans hk)
  obtain ⟨v, hrun⟩ :=
    hreturns setup t.controller m t.after hbegun.prepare hbegun.start htold hgoes (by decide)
  have herror : t.controller.unboundError "k" = .evaluation (.unbound "k") := by
    rw [Controller.unboundError, hlost]
    rfl
  rw [herror] at hrun
  exact ⟨v, hrun, hsilent unratedWorld v _ hrun⟩

end Session

end Trajectory
