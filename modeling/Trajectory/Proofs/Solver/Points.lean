import Trajectory.Proofs.Solver.Protocol
import Trajectory.Proofs.Solver.Reachable
import Trajectory.Proofs.Stepper.Course

namespace Trajectory

namespace Session

open Delivery.Frame (Publishes)
open Scalar (zero)
open Scalar.Rounded (le_refl lt_trans le_of_lt not_le)

variable {α μ : Type} [Scalar α] [Scalar.Rounded α]

theorem lasting_firstStep : Lasting fun s : Solver α => zero < s.range.firstStep :=
  .range (Scalar.Rounded.decimal_pos (-1) (.inl rfl)) fun hmake =>
    Scalar.Rounded.not_le.mp (Range.proper_of_make hmake).firstStep

theorem lt_of_checkFirstStep {range : Range α} (hstep : zero < range.firstStep)
    (h : Solver.checkFirstStep range = .ok ()) : range.start < range.finish := by
  unfold Solver.checkFirstStep at h
  split at h
  next => cases h
  next hshort =>
    split at h
    next => cases h
    next hlarge =>
      have hforward : range.start < range.start + range.firstStep :=
        Scalar.Rounded.lt_add _ _ hstep (by simpa using hlarge)
      exact lt_trans hforward (not_le.mp hshort)

/-- From the place of a controller the arguments of the points increase, up to the place of the last
controller, and none is behind the end. -/
theorem Steps.increase {publish : Publish α μ} {tries : Nat} {c last : Controller α}
    {error? : Option (SolverError α)} {points : List (Point α)} {w v : World (protocol α μ)}
    (hc : c.OnCourse) (h : Steps publish tries c w last error? points v) :
    ∃ xs : List α, points.map Point.x? = xs.map some ∧ (c.x :: xs).Pairwise (· < ·) ∧
      (∀ x ∈ c.x :: xs, x ≤ c.finish) ∧
        (error? = none → (c.x :: xs).getLast? = some c.finish ∨
          v.state.solver.cancelRequested = true) := by
  induction h with
  | @stop c w hstop =>
    have hle : c.x ≤ c.finish := by
      rcases hc.place with hplace | hplace
      · exact le_of_lt hplace
      · rw [hplace]
        exact le_refl _
    refine ⟨[], rfl, List.pairwise_singleton _ _, by simpa using hle, fun _ => ?_⟩
    unfold stops at hstop
    rcases Bool.or_eq_true_iff.mp hstop with hfinished | hcanceled
    · refine .inl ?_
      rw [List.getLast?_singleton, hc.eq_of_finished hfinished]
    · exact .inr hcanceled
  | failure hstop =>
    refine ⟨[], rfl, List.pairwise_singleton _ _, ?_, fun h => by cases h⟩
    have hgo := Controller.lt_of_not_finished (finished_of_stops hstop)
    simpa using le_of_lt hgo
  | @step c last w u v z s point n error? points hstop _ houtcome hpoint _ _ ih =>
    obtain ⟨hafter, hforward⟩ := hc.advance (finished_of_stops hstop) houtcome
    obtain ⟨xs, hx, hincrease, hwithin, hend⟩ := ih hafter
    have hfinish := (c.moves_advance tries).finish
    have hgo := Controller.lt_of_not_finished (finished_of_stops hstop)
    refine ⟨(c.advance tries).controller.x :: xs, ?_, ?_, ?_, ?_⟩
    · rw [List.map_cons, List.map_cons, hx, eq_of_pointAt hpoint]
    · refine List.pairwise_cons.mpr ⟨fun x hmem => ?_, hincrease⟩
      rcases List.mem_cons.mp hmem with rfl | hmem
      · exact hforward
      · exact lt_trans hforward ((List.pairwise_cons.mp hincrease).1 x hmem)
    · intro x hmem
      rcases List.mem_cons.mp hmem with rfl | hmem
      · exact le_of_lt hgo
      · rw [← hfinish]
        exact hwithin x hmem
    · intro herror
      rw [← hfinish]
      simpa using hend herror

variable [Numeral α]

theorem forward_of_prepared {setup : Setup α} {w : World (protocol α μ)}
    (hreachable : Reachable w) (hprepared : Solver.Prepared w.state.solver setup) :
    zero < setup.range.firstStep ∧ setup.range.start < setup.range.finish := by
  have hstep : zero < setup.range.firstStep := by
    rw [hprepared.range]
    exact lasting_firstStep.of_reachable hreachable
  refine ⟨hstep, lt_of_checkFirstStep hstep ?_⟩
  rw [hprepared.range]
  exact hprepared.firstStep

/-- The arguments of the points of a run increase within the range, and lead to its end if the run was
not canceled. -/
theorem points_increase {calls fuel d : Nat} {adaptive : Bool} {points : List (Point α)}
    {w v : World (protocol α μ)} (hreachable : Reachable w)
    (hidle : w.state.solver.running = false)
    (h : run (Delivery.deliver (answer α μ) calls d) fuel adaptive w = .ok (.ok points) v) :
    ∃ xs : List α, points.map Point.x? = xs.map some ∧ xs.Pairwise (· < ·) ∧
      (∀ x ∈ xs, w.state.solver.range.start ≤ x ∧ x ≤ w.state.solver.range.finish) ∧
        (v.state.solver.status ≠ .canceled →
          xs.getLast? = some w.state.solver.range.finish) := by
  have hpublish : Publishes WhileRunning d (Delivery.deliver (answer α μ) calls d) :=
    deliver_keeps calls d
  cases ran_of_run hidle h with
  | @through setup c point later stop n _ before told stepped ended hprepared hstart hpoint hbefore
      hhistory htell hsteps hpoints hconclude hreleased =>
    have hrunning : before.state.solver.running = true := by rw [hbefore]
    obtain ⟨hheld, _⟩ := tells_of_steps hpublish hrunning htell hsteps
    obtain ⟨e, _, hresult, _⟩ | ⟨hresult, herror, _, hconcluded⟩ :=
      conclude_ends hpublish (hheld.running.trans hrunning) hconclude
    · cases hresult
    obtain rfl : points = stop.points := by cases hresult; rfl
    obtain ⟨hstep, hrange⟩ := forward_of_prepared hreachable hprepared
    have hcourse := Controller.onCourse_of_start hrange hstep hstart
    have hfields := (Controller.started_of_start hstart).fields
    have hx : c.x = w.state.solver.range.start := by rw [hfields, hprepared.range]
    have hfinish : c.finish = w.state.solver.range.finish := by rw [hfields, hprepared.range]
    obtain ⟨xs, hlater, hincrease, hwithin, hend⟩ := hsteps.increase hcourse
    refine ⟨c.x :: xs, ?_, hincrease, ?_, ?_⟩
    · rw [hpoints, List.map_cons, List.map_cons, hlater, eq_of_pointAt hpoint]
    · intro x hmem
      rw [← hx, ← hfinish]
      refine ⟨?_, hwithin x hmem⟩
      rcases List.mem_cons.mp hmem with rfl | hmem
      · exact le_refl _
      · exact le_of_lt ((List.pairwise_cons.mp hincrease).1 x hmem)
    · intro hstatus
      rw [hreleased] at hstatus
      rw [← hfinish]
      rcases hconcluded with ⟨hkept, _⟩ | ⟨_, hcanceled, _⟩
      · rcases hend herror with hend | hcanceled
        · exact hend
        · rw [hkept] at hcanceled
          cases hcanceled
      · exact absurd hcanceled hstatus

theorem reachable_steady : Reachable steadyWorld := by
  have hstated := Reachable.answered (α := Fraction) (.new {} () .foreign) 0 0 0 (.setEquations ["y' = 1"])
  exact .answered hstated 0 0 0 (.setConditions (.ofList [("y", Scalar.one)]))

theorem points_increase_of_steady : ∃ (points : List (Point Fraction)) (v : World (protocol Fraction Unit))
    (xs : List Fraction),
    run (Delivery.deliver (answer Fraction Unit) 2 0) 20 false steadyWorld = .ok (.ok points) v ∧
      v.state.solver.status = .finished ∧ points.map Point.x? = xs.map some ∧
        xs.Pairwise (· < ·) ∧ xs.length = 11 ∧ xs.getLast? = some Scalar.one := by
  have hidle : steadyWorld.state.solver.running = false := by decide +kernel
  have hcomputed : (returned? (run (Delivery.deliver (answer Fraction Unit) 2 0) 20 false
      steadyWorld)).any (fun r =>
        r.2.state.solver.status == .finished && r.1.length == 11) = true := by decide +kernel
  obtain ⟨⟨points, v⟩, hreturned, hcomputed⟩ := Option.any_eq_true _ _ |>.mp hcomputed
  rw [Bool.and_eq_true, beq_iff_eq, beq_iff_eq] at hcomputed
  obtain ⟨hstatus, hlength⟩ := hcomputed
  have hrun := eq_ok_of_returned hreturned
  obtain ⟨xs, hx, hincrease, _, hend⟩ := points_increase reachable_steady hidle hrun
  have hlengths := congrArg List.length hx
  rw [List.length_map, List.length_map, hlength] at hlengths
  have hfinish : steadyWorld.state.solver.range.finish = Scalar.one := by decide +kernel
  refine ⟨points, v, xs, hrun, hstatus, hx, hincrease, hlengths.symm, ?_⟩
  rw [← hfinish]
  exact hend (by rw [hstatus]; decide)

end Session

end Trajectory
