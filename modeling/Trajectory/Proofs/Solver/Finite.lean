import Trajectory.Decimal.Binary64
import Trajectory.Proofs.OdeSystem.Reduction
import Trajectory.Proofs.Solver.Points
import Trajectory.Proofs.Solver.Refusal
import Trajectory.Proofs.Solver.Requests
import Trajectory.Proofs.Solver.Soundness
import Trajectory.Proofs.Solver.Stages
import Trajectory.Proofs.Stepper.Finite

namespace Trajectory

namespace OdeSystem

variable {α : Type} [Scalar α] {s : OdeSystem α}

theorem size_pos_of_reduce {sources : List String} (h : reduce sources = .ok s) : 0 < s.size := by
  obtain ⟨hsome, hstands, _⟩ := stands_of_reduce h
  cases hequations : s.equations with
  | nil =>
    rw [hequations] at hstands
    cases hstands
    exact absurd rfl hsome
  | cons e equations =>
    obtain ⟨later, hchain, _⟩ := e.chain_eq
    simp [size, vars, hequations, hchain]

end OdeSystem

namespace Conditions

variable {α : Type}

theorem mem_of_get? {c : Conditions α} {name : String} {v : α} (h : c.get? name = some v) :
    ∃ entry ∈ c.entries, entry.2 = v := by
  obtain ⟨entry, hfind, hv⟩ := Option.map_eq_some_iff.mp h
  exact ⟨entry, List.mem_of_find?_eq_some hfind, hv⟩

end Conditions

namespace Point

variable {α ε : Type}

theorem mem_of_select {indices : List Nat} {y values : List α}
    (h : select (ε := ε) indices y = .ok values) : ∀ v ∈ values, v ∈ y := by
  induction indices generalizing values with
  | nil =>
    cases h
    exact nofun
  | cons i indices ih =>
    obtain ⟨v, later, rfl, hv, hlater⟩ := select_cons h
    intro u hu
    rcases List.mem_cons.mp hu with rfl | hu
    · exact List.mem_of_getElem? hv
    · exact ih hlater u hu

end Point

namespace Session

open Delivery (deliver)

variable {α μ : Type} [Scalar α]

/-- The settings of a solver that a run takes its first point from. -/
structure Starting (s : Solver α) : Prop where
  range : s.range.Valid
  size : ∀ system, s.system? = some system → 0 < system.size
  conditions : ∀ entry ∈ s.conditions.entries, Scalar.isFinite entry.2 = true

theorem lasting_starting [Scalar.Usual α] : Lasting (Starting (α := α)) where
  fresh := ⟨Scalar.Usual.range, nofun, nofun⟩
  setting f s c hf hs h := by
    obtain ⟨_, hchanged⟩ := hf.changed h
    cases hchanged with
    | equations hreduce =>
      refine ⟨hs.range, fun system hsystem => ?_, nofun⟩
      cases hsystem
      exact OdeSystem.size_pos_of_reduce hreduce
    | conditions hcheck =>
      exact ⟨hs.range, hs.size, fun entry hentry =>
        (Solver.forall_of_checkConditions hcheck entry hentry).2⟩
    | range hmake => exact ⟨Range.valid_of_make hmake, hs.size, hs.conditions⟩
    | tolerance => exact ⟨hs.range, hs.size, hs.conditions⟩
    | stepControl => exact ⟨hs.range, hs.size, hs.conditions⟩
  noted s t h hs := by
    rw [h]
    exact ⟨hs.range, hs.size, hs.conditions⟩

theorem Starting.state {s : Solver α} {setup : Setup α} (hs : Starting s)
    (h : Solver.Prepared s setup) : AllFinite setup.y ∧ setup.y ≠ [] := by
  constructor
  · intro v hv
    have hmem : some v ∈ setup.system.names.map s.conditions.get? := by
      rw [h.state]
      exact List.mem_map_of_mem hv
    obtain ⟨name, _, hget⟩ := List.mem_map.mp hmem
    obtain ⟨entry, hentry, rfl⟩ := Conditions.mem_of_get? hget
    exact hs.conditions entry hentry
  · rw [← List.length_pos_iff, h.size]
    exact hs.size _ h.system

section Float

variable {c last : Controller Float} {point : Point Float} {points : List (Point Float)}

theorem allFinite_of_pointAt (hc : c.Grounded) (h : pointAt c = .ok point) :
    AllFinite point.values := by
  obtain ⟨values, hselect, rfl⟩ := of_pointAt h
  intro v hv
  rcases List.mem_cons.mp hv with rfl | hv
  · exact hc.x
  · exact hc.y v (Point.mem_of_select hselect v hv)

theorem Steps.allFinite {publish : Publish Float μ} {tries : Nat}
    {error? : Option (SolverError Float)} {w v : World (protocol Float μ)} (hc : c.Grounded)
    (h : Steps publish tries c w last error? points v) : ∀ p ∈ points, AllFinite p.values := by
  induction h with
  | stop => exact nofun
  | failure => exact nofun
  | step _ _ houtcome hpoint _ _ ih =>
    have hafter := hc.advance houtcome
    intro p hp
    rcases List.mem_cons.mp hp with rfl | hp
    · exact allFinite_of_pointAt hafter hpoint
    · exact ih hafter p hp

theorem allFinite_of_run {calls fuel d : Nat} {w v : World (protocol Float μ)} (hw : Reachable w)
    (h : run (deliver (answer Float μ) calls d) fuel true w = .ok (.ok points) v) :
    ∀ p ∈ points, AllFinite p.values := by
  have hidle : w.state.solver.running = false := by
    by_contra hrunning
    cases (run_of_running (by simpa using hrunning)).symm.trans h
  have hstarting := lasting_starting.of_reachable hw
  cases ran_of_run hidle h with
  | @through setup c point later stop n _ before told stepped ended hprepared hstart hpoint hbefore
      hhistory htell hsteps hpoints hconclude hreleased =>
    have hrunning : before.state.solver.running = true := by rw [hbefore]
    obtain ⟨hheld, _⟩ := tells_of_steps (deliver_keeps calls d) hrunning htell hsteps
    obtain ⟨e, _, hresult, _⟩ | ⟨hresult, _⟩ :=
      conclude_ends (deliver_keeps calls d) (hheld.running.trans hrunning) hconclude
    · cases hresult
    obtain rfl : points = stop.points := by cases hresult; rfl
    obtain ⟨hfinite, hsome⟩ := hstarting.state hprepared
    have hc : c.Grounded :=
      Controller.grounded_of_start (hprepared.range ▸ hstarting.range) hfinite hsome hstart
    rw [hpoints]
    intro p hp
    rcases List.mem_cons.mp hp with rfl | hp
    · exact allFinite_of_pointAt hc hpoint
    · exact hsteps.allFinite hc p hp

open Controller (Reached Stands Made)

/-- One value that is not finite, at any place, makes the error of a step infinite or no number. The
step is refused, and so every value that an adaptive run shows is finite. -/
theorem adaptive_stays_finite :
    (∀ (t : Tolerance Float) (y fifth fourth : List Float), t.validate = .ok () →
      fifth.length = y.length → fourth.length = y.length → ¬ AllFinite (fifth ++ fourth) →
        ∃ norm, Stepper.errorNorm (ε := SolverError Float) t y fifth fourth = .ok norm ∧
          (Scalar.isNaN norm = true ∨ norm = Scalar.infinity)) ∧
    (∀ (s : OdeSystem Float) (range : Range Float) (t : Tolerance Float) (y : List Float)
      (c : Controller Float), range.Valid → Reached s range t y true c →
        (∀ pair, c.nextPair = .ok pair → ¬ AllFinite (pair.fifth ++ pair.fourth) →
          c.refuses = true ∧ Stands c c.attempt.controller ∧
            ((∃ after r, c.attempt = .rejected after r) ∨
              ∃ after, c.attempt = .failed after (c.convergence c.nextSize.1))) ∧
        ∀ tries step, (c.advance tries).outcome = .step step →
          ∃ pair, Made c step pair (c.advance tries).controller ∧
            AllFinite (pair.fifth ++ pair.fourth)) ∧
    ∀ (calls fuel d : Nat) (w v : World (protocol Float μ)) (points : List (Point Float)),
      Reachable w → run (deliver (answer Float μ) calls d) fuel true w = .ok (.ok points) v →
        ∀ p ∈ points, AllFinite p.values := by
  refine ⟨fun t y fifth fourth ht hfifth hfourth hinfinite => ?_, fun s range t y c hrange hc => ?_,
    fun calls fuel d w v points hw h => allFinite_of_run hw h⟩
  · obtain ⟨norm, herror, hlost⟩ := Stepper.exists_lost_norm ht hfifth hfourth hinfinite
    exact ⟨norm, herror, Binary64.lost_of_parts hlost⟩
  · obtain ⟨htolerance, _, _, hmode⟩ := hc.kept
    have hvalid : c.tolerance.validate = .ok () := by
      rw [htolerance]
      exact hc.validated
    refine ⟨fun pair hpair hinfinite => ?_, fun tries step houtcome => ?_⟩
    · obtain ⟨hevaluable, _⟩ := Controller.length_of_nextPair hpair
      have hsound := hc.sound hrange hevaluable.size
      have hrefuses := Controller.refuses_of_not_finite hsound hvalid hmode hpair hinfinite
      have hended := Controller.attempt_of_refuses hsound hrefuses
      refine ⟨hrefuses, ?_, hended⟩
      rcases hended with ⟨after, r, hattempt⟩ | ⟨after, hattempt⟩
      · rw [hattempt]
        exact Controller.stands_of_rejected hattempt
      · rw [hattempt]
        exact Controller.stands_of_failed hattempt
    · obtain ⟨pair, hmade⟩ := Controller.made_of_step houtcome
      exact ⟨pair, hmade, hmade.allFinite hvalid hmode⟩

open Scalar (zero one notANumber)

/-- The first step ends where the derivative is no number. -/
def gapSource : String := "y' = 0/(x - 0.1)"

/-- The first try of a step through the gap. -/
def gapTry : Option (OdeSystem Float × Controller Float × StepPair Float) := do
  let s ← (OdeSystem.reduce [gapSource]).toOption
  let c ← (Controller.start s Range.standard Tolerance.standard [one] true).toOption
  let pair ← c.nextPair.toOption
  pure (s, c, pair)

def gapWorld : World (protocol Float Unit) :=
  (ask 0 (.setStepBounds none (some one))).after
    ((ask 0 (.setConditions (.ofList [("y", one)]))).after
      ((ask 0 (.setEquations [gapSource])).after (newWorld {} ())))

theorem reachable_gapWorld : Reachable gapWorld := by
  have hstated := Reachable.answered (α := Float) (.new {} () .foreign) 0 0 0 (.setEquations [gapSource])
  have hready := hstated.answered 0 0 0 (.setConditions (.ofList [("y", one)]))
  exact hready.answered 0 0 0 (.setStepBounds none (some one))

theorem exists_gapTry : ∃ (s : OdeSystem Float) (c : Controller Float) (pair : StepPair Float),
    OdeSystem.reduce [gapSource] = .ok s ∧
      Controller.start s Range.standard Tolerance.standard [one] true = .ok c ∧
        c.nextPair = .ok pair ∧ ¬ AllFinite (pair.fifth ++ pair.fourth) := by
  have htry : gapTry.any (fun r => decide (¬ AllFinite (r.2.2.fifth ++ r.2.2.fourth))) = true := by
    decide +kernel
  obtain ⟨⟨s, c, pair⟩, hr, hinfinite⟩ := (Option.any_eq_true _ _).mp htry
  obtain ⟨_, hs, hr⟩ := Option.bind_eq_some_iff.mp hr
  obtain ⟨_, hc, hr⟩ := Option.bind_eq_some_iff.mp hr
  obtain ⟨_, hpair, hr⟩ := Option.bind_eq_some_iff.mp hr
  cases hr
  exact ⟨s, c, pair, toOption_eq_some hs, toOption_eq_some hc, toOption_eq_some hpair,
    of_decide_eq_true hinfinite⟩

/-- A value that is lost in the second slot, a first step that is refused, and a run beyond it. -/
theorem adaptive_stays_finite_of_gap : ∃ (norm : Float) (s : OdeSystem Float)
    (c : Controller Float) (pair : StepPair Float) (points : List (Point Float))
    (v : World (protocol Float Unit)),
    Stepper.errorNorm (ε := SolverError Float) { Tolerance.standard with norm := .max } [zero, zero]
      [zero, notANumber] [zero, zero] = .ok norm ∧
      (Scalar.isNaN norm = true ∨ norm = Scalar.infinity) ∧
    OdeSystem.reduce [gapSource] = .ok s ∧
      Controller.start s Range.standard Tolerance.standard [one] true = .ok c ∧
        c.nextPair = .ok pair ∧ ¬ AllFinite (pair.fifth ++ pair.fourth) ∧ c.refuses = true ∧
    run (deliver (answer Float Unit) 0 0) 20 true gapWorld = .ok (.ok points) v ∧
      points.length = 5 ∧ ∀ p ∈ points, AllFinite p.values := by
  obtain ⟨hnorm, hsteps, hruns⟩ := adaptive_stays_finite (μ := Unit)
  obtain ⟨norm, herror, hlost⟩ := hnorm { Tolerance.standard with norm := .max } [zero, zero]
    [zero, notANumber] [zero, zero] (eq_ok_of_isOk (by decide +kernel)) rfl rfl (by decide +kernel)
  obtain ⟨s, c, pair, hs, hc, hpair, hinfinite⟩ := exists_gapTry
  have hrun : (returned? (run (deliver (answer Float Unit) 0 0) 20 true gapWorld)).any
      (fun r => r.1.length == 5) = true := by decide +kernel
  obtain ⟨points, v, hrun, hlength⟩ := exists_of_returned hrun
  obtain ⟨hrefuses, _⟩ := (hsteps s _ _ _ c Scalar.Usual.range (.start hc)).1 pair hpair hinfinite
  exact ⟨norm, s, c, pair, points, v, herror, hlost, hs, hc, hpair, hinfinite, hrefuses, hrun,
    eq_of_beq hlength, hruns 0 20 0 gapWorld v points reachable_gapWorld hrun⟩

end Float

end Session

end Trajectory
