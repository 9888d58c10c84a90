import Trajectory.Decimal.Binary64
import Trajectory.Proofs.Solver.Nested
import Trajectory.Proofs.Solver.Protocol
import Trajectory.Proofs.Solver.Reachable
import Trajectory.Proofs.Solver.Stages
import Trajectory.Proofs.Stepper.Bounds

namespace Trajectory

namespace Session

open Delivery (deliver)
open Delivery.Frame (Publishes)

variable {α μ : Type} [Scalar α] [Numeral α] {fuel : Nat} {adaptive : Bool}
  {w v : World (protocol α μ)}

omit [Numeral α] in
theorem lasting_valid [Scalar.Usual α] : Lasting fun s : Solver α => s.range.Valid :=
  .range Scalar.Usual.range Range.valid_of_make

theorem start_of_prepare [Scalar.Usual α] [Scalar.Comparable α] (hw : Configured w) {setup : Setup α}
    (h : w.state.solver.prepare = .ok setup) (adaptive : Bool) : ∃ c : Controller α,
      Controller.start setup.system setup.range setup.tolerance setup.y adaptive = .ok c := by
  have hprepared := Solver.prepared_of_prepare h
  have hvalid : w.state.solver.range.Valid := lasting_valid.of_configured hw
  rw [hprepared.range, hprepared.tolerance]
  exact Controller.exists_start hprepared.validated hvalid hprepared.steps hprepared.size adaptive

theorem run_of_unprepared {publish : Publish α μ} {fault : ConfigurationFault α}
    (hidle : w.state.solver.running = false) (h : w.state.solver.prepare = .error fault) :
    run publish fuel adaptive w = .ok (.error (.configuration fault))
      (withSolver w { w.state.solver with cancelRequested := false }) := by
  have hsame : withSolver w { w.state.solver with cancelRequested := false } =
      withSolver w { w.state.solver with cancelRequested := false, running := false } := by
    rw [← hidle]
  rw [run_of_idle hidle, h, hsame]
  rfl

theorem ofStep_of_run {calls d : Nat} {setup : Setup α} {c : Controller α} {e : SolverError α}
    (hidle : w.state.solver.running = false) (hprepare : w.state.solver.prepare = .ok setup)
    (hstart : Controller.start setup.system setup.range setup.tolerance setup.y adaptive = .ok c)
    (h : run (deliver (answer α μ) calls d) fuel adaptive w = .ok (.error e) v) : e.OfStep := by
  have hpublish : Publishes WhileRunning d (deliver (answer α μ) calls d) := deliver_keeps calls d
  rw [run_of_idle hidle, hprepare] at h
  obtain ⟨u, hsetup, _⟩ := of_releasing h
  obtain ⟨point, stop, n, told, stepped, _, htell, hthrough, hconclude⟩ :=
    opened_of_setup rfl hstart hsetup
  obtain ⟨later, _, hsteps⟩ := steps_of_stepThrough hthrough
  obtain ⟨hheld, hcause, _⟩ := tells_of_steps hpublish rfl htell hsteps
  rcases conclude_ends hpublish hheld.running hconclude with ⟨e', herror, he', _⟩ | ⟨hok, _⟩
  · cases he'
    exact hcause e herror
  · cases hok

theorem busy_of_run {calls d : Nat}
    (h : run (deliver (answer α μ) calls d) fuel adaptive w = .ok (.error .busy) v) :
    InProgress w := by
  by_contra hw
  have hidle : w.state.solver.running = false := Bool.eq_false_iff.mpr hw
  cases opened_of_run hidle h with
  | refused herror => cases herror
  | begun hprepare hstart => cases ofStep_of_run hidle hprepare hstart h

/-- A run is refused as busy exactly while another one is in progress, and this changes nothing. Where the
settings are those of a session, a setup that passes the first check of a run passes the second one, in
both modes; so a run that is refused for its configuration leaves everything as it was, but for the
request to cancel, which is forgotten. -/
theorem refused_run [Scalar.Usual α] [Scalar.Comparable α] (w : World (protocol α μ)) :
    (∀ calls fuel d adaptive v,
      run (deliver (answer α μ) calls d) fuel adaptive w = .ok (.error .busy) v ↔
        InProgress w ∧ v = w) ∧
    (Configured w →
      (∀ setup adaptive, w.state.solver.prepare = .ok setup → ∃ c : Controller α,
        Controller.start setup.system setup.range setup.tolerance setup.y adaptive = .ok c) ∧
      ∀ calls fuel d adaptive fault v,
        run (deliver (answer α μ) calls d) fuel adaptive w = .ok (.error (.configuration fault)) v →
          v = withSolver w { w.state.solver with cancelRequested := false }) := by
  refine ⟨fun calls fuel d adaptive v => ⟨fun h => ?_, ?_⟩, fun hw => ⟨fun setup adaptive h => ?_, ?_⟩⟩
  · have hrunning := busy_of_run h
    rw [run_of_running hrunning] at h
    cases h
    exact ⟨hrunning, rfl⟩
  · rintro ⟨hrunning, rfl⟩
    exact run_of_running hrunning
  · exact start_of_prepare hw h adaptive
  · intro calls fuel d adaptive fault v h
    cases hrunning : w.state.solver.running with
    | true =>
      rw [run_of_running hrunning] at h
      cases h
    | false =>
      cases hprepare : w.state.solver.prepare with
      | error fault =>
        rw [run_of_unprepared hrunning hprepare] at h
        cases h
        rfl
      | ok setup =>
        obtain ⟨c, hstart⟩ := start_of_prepare hw hprepare adaptive
        cases ofStep_of_run hrunning hprepare hstart h

/-- A session in floating point with an equation, no condition for it, and a request to cancel. -/
def carelessWorld : World (protocol Float Unit) :=
  (ask 0 .cancel).after ((ask 0 (.setEquations ["y' = 1"])).after (newWorld {} ()))

def carefulWorld : World (protocol Float Unit) :=
  (ask 0 (.setConditions (.ofList [("y", Scalar.one)]))).after carelessWorld

/-- The careful session once a run of it has begun. -/
def busyWorld : World (protocol Float Unit) :=
  withSolver carefulWorld { carefulWorld.state.solver with
    cancelRequested := false, running := true, status := .running, result := [] }

theorem refused_run_careless :
    (∃ setup c, busyWorld.state.solver.prepare = .ok setup ∧
      Controller.start setup.system setup.range setup.tolerance setup.y true = .ok c) ∧
    run (deliver (answer Float Unit) 0 0) 1 true busyWorld = .ok (.error .busy) busyWorld ∧
    carelessWorld.state.solver.cancelRequested = true ∧ ∃ fault v,
      fault.message = "missing initial conditions for [\"y\"]" ∧
        run (deliver (answer Float Unit) 0 0) 1 true carelessWorld =
          .ok (.error (.configuration fault)) v ∧
        v = withSolver carelessWorld { carelessWorld.state.solver with cancelRequested := false } := by
  have hcareless : Reachable carelessWorld :=
    .answered (.answered (.new {} () .foreign) 0 0 0 (.setEquations ["y' = 1"])) 0 0 0 .cancel
  have hcareful : Reachable carefulWorld :=
    .answered hcareless 0 0 0 (.setConditions (.ofList [("y", Scalar.one)]))
  have hinside : Configured busyWorld := ⟨carefulWorld, hcareful, rfl⟩
  obtain ⟨hbusy, hsettled⟩ := refused_run busyWorld
  obtain ⟨hstarts, _⟩ := hsettled hinside
  obtain ⟨_, hrefused⟩ := (refused_run carelessWorld).2 hcareless.configured
  have hprepare : busyWorld.state.solver.prepare.toOption.isSome = true := by decide +kernel
  obtain ⟨setup, hsetup⟩ := Option.isSome_iff_exists.mp hprepare
  have hprepared := toOption_eq_some hsetup
  obtain ⟨c, hc⟩ := hstarts setup true hprepared
  refine ⟨⟨setup, c, hprepared, hc⟩, (hbusy 0 1 0 true _).mpr ⟨rfl, rfl⟩, by decide +kernel, ?_⟩
  have hmessage : (carelessWorld.state.solver.prepare.mapError ConfigurationFault.message).map
      (fun _ => ()) = .error "missing initial conditions for [\"y\"]" := by decide +kernel
  have hidle : carelessWorld.state.solver.running = false := by decide +kernel
  cases hfault : carelessWorld.state.solver.prepare with
  | ok setup =>
    rw [hfault] at hmessage
    cases hmessage
  | error fault =>
    rw [hfault] at hmessage
    have hrun : run (deliver (answer Float Unit) 0 0) 1 true carelessWorld = _ :=
      run_of_unprepared hidle hfault
    exact ⟨fault, _, Except.error.inj hmessage, hrun, hrefused 0 1 0 true fault _ hrun⟩

end Session

end Trajectory
