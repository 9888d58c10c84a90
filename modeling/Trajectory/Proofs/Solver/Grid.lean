import Mathlib.Order.Bounds.Basic
import Trajectory.Proofs.Solver.Points
import Trajectory.Proofs.Stepper.Grid

namespace Trajectory

namespace Session

open Delivery.Frame (Publishes)
open Scalar (zero)
open Scalar.Exact (value)

variable {α μ : Type} [Scalar α] [Scalar.Exact α]

/-- Over exact arithmetic, the arguments and the step sizes of `n` steps of a fixed size through a
range: the last step is the one that reaches the end when a full step is stretched a little. -/
structure Spaced (range : Range α) (n : ℕ) (xs sizes : List α) : Prop where
  least : IsLeast {m : ℕ | 1 ≤ m ∧ value range.finish ≤ value range.start +
    (m - 1) * value range.firstStep + value range.firstStep * (1 + (10 : ℝ) ^ (-8 : Int))} n
  places : xs.map value = (List.range n).map
    (fun i : ℕ => value range.start + i * value range.firstStep) ++ [value range.finish]
  lands : xs.getLast? = some range.finish
  count : sizes.length = n
  sizes : ∃ last, sizes = List.replicate (n - 1) range.firstStep ++ [last] ∧
    value last = value range.finish - value range.start - (n - 1) * value range.firstStep ∧
      0 < value last ∧ value last ≤ value range.firstStep * (1 + (10 : ℝ) ^ (-8 : Int))

theorem spaced_of_grid {range : Range α} {n : ℕ} {xs sizes : List α}
    (hstep : zero < range.firstStep) (hplace : range.start < range.finish)
    (h : Controller.Grid range.start range.firstStep range.finish n xs sizes) :
    Spaced range (n + 1) (range.start :: xs) sizes := by
  obtain ⟨size, hsizes, hsize⟩ := h.sizes
  have hbefore := h.before_finish hstep hplace
  have hreach := h.reach
  have hshort := h.short
  rw [Scalar.Exact.value_stretch] at hreach hshort
  refine ⟨⟨⟨Nat.le_add_left 1 n, ?_⟩, fun m hm => ?_⟩, ?_, ?_, ?_, size, ?_, ?_, ?_, ?_⟩
  · push_cast
    rwa [add_sub_cancel_right]
  · obtain ⟨hone, hm⟩ := hm
    by_contra hless
    have hn : m - 1 < n := by omega
    have hmissed := hshort (m - 1) hn
    rw [Nat.cast_sub hone, Nat.cast_one] at hmissed
    exact absurd hm (not_le.mpr hmissed)
  · rw [List.map_cons, h.places, List.range_succ_eq_map, List.map_cons, List.map_map,
      List.cons_append]
    refine congrArg₂ List.cons (by simp) (congrArg (· ++ [value range.finish]) ?_)
    refine List.map_congr_left fun i _ => ?_
    show _ = value range.start + ((i + 1 : ℕ) : ℝ) * value range.firstStep
    push_cast
    rfl
  · rw [List.getLast?_cons, h.lands]
    rfl
  · rw [hsizes]
    simp
  · exact hsizes
  · push_cast
    rwa [add_sub_cancel_right]
  · rw [hsize]
    linarith
  · rw [hsize]
    linarith

variable [Numeral α]

omit [Scalar α] [Scalar.Exact α] in
theorem completed_of_conclude {publish : Publish α μ} {d : Nat} {stop : Stop α}
    {points : List (Point α)} {w v : World (protocol α μ)}
    (hpublish : Publishes WhileRunning d publish) (hrunning : w.state.solver.running = true)
    (h : conclude publish stop w = .ok (.ok points) v) (hstatus : v.state.solver.status ≠ .canceled) :
    points = stop.points ∧ stop.error? = none ∧ w.state.solver.cancelRequested = false ∧
      Tells d w v [⟨.completed, points⟩] := by
  rcases conclude_ends hpublish hrunning h with
    ⟨e, _, hresult, _⟩ | ⟨hresult, herror, _, ⟨hkept, _, hcompleted⟩ | ⟨_, hcanceled, _⟩⟩
  · cases hresult
  · cases hresult
    exact ⟨rfl, herror, hkept, hcompleted⟩
  · exact absurd hcanceled hstatus

/-- A run of fixed steps that has points, and was not canceled, spaces them through its range. -/
theorem fixed_run_spaced {calls fuel d : Nat} {points : List (Point α)} {w v : World (protocol α μ)}
    (hreachable : Reachable w)
    (h : run (Delivery.deliver (answer α μ) calls d) fuel false w = .ok (.ok points) v)
    (hstatus : v.state.solver.status ≠ .canceled) :
    ∃ (n : ℕ) (xs : List α) (progress : List (Solver.Progress α)),
      points.map Point.x? = xs.map some ∧
        Tells d w v (⟨.runStarted, w.state.solver.range⟩ :: progress.map progressEvent ++
          [⟨.completed, points⟩]) ∧
        Spaced w.state.solver.range n xs (progress.map Solver.Progress.stepSize) := by
  have hidle : w.state.solver.running = false := by
    by_contra hrunning
    rw [run_of_running (by simpa using hrunning)] at h
    cases h
  have hpublish : Publishes WhileRunning d (Delivery.deliver (answer α μ) calls d) :=
    deliver_keeps calls d
  cases ran_of_run hidle h with
  | @through setup c point later stop k _ before told stepped ended hprepared hstart hpoint hbefore
      hhistory htell hsteps hpoints hconclude hreleased =>
    have hrunning : before.state.solver.running = true := by rw [hbefore]
    obtain ⟨hheld, htells⟩ := tells_of_publish hpublish hrunning htell ⟨rfl, rfl⟩
    obtain ⟨hheld', _, steps, reached, htaken, hreached, hx, hprogress⟩ :=
      hsteps.taken hpublish (hheld.running.trans hrunning)
    rw [hreleased] at hstatus ⊢
    obtain ⟨rfl, herror, hkept, hcompleted⟩ := completed_of_conclude hpublish
      ((hheld.trans hheld').running.trans hrunning) hconclude hstatus
    have hfinished : reached.finished = true := by
      obtain ⟨rfl, hstop⟩ := hreached herror
      rw [stops, hkept, Bool.or_false] at hstop
      exact hstop
    obtain ⟨hstep, hrange⟩ := forward_of_prepared hreachable hprepared
    have hstarted := Controller.started_of_start hstart
    have hh := hstarted.fixed rfl
    have hfields := hstarted.fields
    have hmode : c.adaptive = false := by rw [hfields]
    have hbegin : c.x = setup.range.start := by rw [hfields]
    have hfinish : c.finish = setup.range.finish := by rw [hfields]
    obtain ⟨n, hgrid⟩ := Controller.grid_of_taken hmode (by rwa [hh]) (by rwa [hbegin, hfinish])
      htaken hfinished
    rw [hbegin, hh, hfinish] at hgrid
    have hspaced := spaced_of_grid hstep hrange hgrid
    rw [hprepared.range] at hspaced htells
    have htold : Tells d w before [] := .of_same hhistory
    refine ⟨n + 1, w.state.solver.range.start :: steps.map AcceptedStep.x, steps.map progressOf, ?_,
      ((htold.trans htells).trans hprogress).trans hcompleted, ?_⟩
    · rw [hpoints, List.map_cons, List.map_cons, hx, eq_of_pointAt hpoint, hbegin, hprepared.range,
        List.map_map]
      rfl
    · rw [List.map_map]
      exact hspaced

/-- A session whose first step fits into its range nearly twice. -/
def nearlyHalvedWorld : World (protocol Fraction Unit) :=
  (ask 0 (.setRange "x" Scalar.zero Scalar.one (Scalar.ofDecimal 499999999 (-9)))).after steadyWorld

theorem fixed_run_spaced_of_nearlyHalved : ∃ points v,
    run (Delivery.deliver (answer Fraction Unit) 2 0) 20 false nearlyHalvedWorld =
        .ok (.ok points) v ∧
      ∃ xs sizes, points.map Point.x? = xs.map some ∧ xs.length = 3 ∧
        Spaced nearlyHalvedWorld.state.solver.range 2 xs sizes := by
  have hreachable : Reachable nearlyHalvedWorld := .answered reachable_steady 0 0 0
    (.setRange "x" Scalar.zero Scalar.one (Scalar.ofDecimal 499999999 (-9)))
  have hcomputed : (returned? (run (Delivery.deliver (answer Fraction Unit) 2 0) 20 false
      nearlyHalvedWorld)).any (fun r =>
        r.2.state.solver.status == .finished && r.1.length == 3) = true := by decide +kernel
  obtain ⟨points, v, hrun, hcomputed⟩ := exists_of_returned hcomputed
  rw [Bool.and_eq_true, beq_iff_eq, beq_iff_eq] at hcomputed
  obtain ⟨hstatus, hlength⟩ := hcomputed
  obtain ⟨n, xs, progress, hx, _, hspaced⟩ :=
    fixed_run_spaced hreachable hrun (by rw [hstatus]; decide)
  have hlengths := congrArg List.length hx
  rw [List.length_map, List.length_map, hlength] at hlengths
  have hplaces := congrArg List.length hspaced.places
  simp only [List.length_map, List.length_append, List.length_range, List.length_singleton]
    at hplaces
  obtain rfl : n = 2 := by omega
  exact ⟨points, v, hrun, xs, _, hx, hlengths.symm, hspaced⟩

end Session

end Trajectory
