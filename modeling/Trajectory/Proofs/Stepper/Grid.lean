import Mathlib.Tactic.Ring
import Trajectory.Proofs.Number.Exact
import Trajectory.Proofs.Stepper.Course
import Trajectory.Proofs.Stepper.Tries

namespace Trajectory.Controller

open Scalar (zero)
open Scalar.Exact (value)

variable {α : Type} [Scalar α] [Scalar.Exact α] {x h finish : α} {c last : Controller α} {n tries : ℕ}
  {xs sizes : List α} {s : AcceptedStep α} {steps : List (AcceptedStep α)}

/-- Over exact arithmetic, the places and the sizes of `n` full steps from `x` and of the one after
them, which lands on the end. -/
structure Grid (x h finish : α) (n : ℕ) (xs sizes : List α) : Prop where
  short : ∀ m < n, value x + m * value h + value h * value (stretch : α) < value finish
  reach : value finish ≤ value x + n * value h + value h * value (stretch : α)
  places : xs.map value = (List.range n).map (fun i : ℕ => value x + (i + 1) * value h) ++
    [value finish]
  lands : xs.getLast? = some finish
  sizes : ∃ size, sizes = List.replicate n h ++ [size] ∧
    value size = value finish - value x - n * value h

namespace Grid

theorem single (hreach : finish ≤ x + h * stretch) : Grid x h finish 0 [finish] [finish - x] := by
  rw [Scalar.Exact.le_iff, Scalar.Exact.value_add, Scalar.Exact.value_mul] at hreach
  refine ⟨fun m hm => absurd hm (Nat.not_lt_zero m), ?_, rfl, rfl, finish - x, rfl, ?_⟩
  · simpa using hreach
  · simp

theorem cons (hshort : ¬ finish ≤ x + h * stretch) (hlater : Grid (x + h) h finish n xs sizes) :
    Grid x h finish (n + 1) ((x + h) :: xs) (h :: sizes) := by
  rw [Scalar.Exact.not_le_iff, Scalar.Exact.value_add, Scalar.Exact.value_mul] at hshort
  have hstart : value (x + h) = value x + value h := Scalar.Exact.value_add x h
  obtain ⟨size, hsizes, hsize⟩ := hlater.sizes
  have hfurther (m : ℕ) : value x + ((m + 1 : ℕ) : ℝ) * value h = value (x + h) + m * value h := by
    rw [hstart]
    push_cast
    ring
  refine ⟨fun m hm => ?_, ?_, ?_, ?_, size, ?_, ?_⟩
  · cases m with
    | zero => simpa using hshort
    | succ m =>
      rw [hfurther]
      exact hlater.short m (Nat.lt_of_succ_lt_succ hm)
  · rw [hfurther]
    exact hlater.reach
  · have hplace (i : ℕ) : value x + (((i + 1 : ℕ) : ℝ) + 1) * value h =
        value (x + h) + (i + 1) * value h := by
      have hnext := hfurther (i + 1)
      push_cast at hnext ⊢
      exact hnext
    rw [List.map_cons, hlater.places, List.range_succ_eq_map, List.map_cons, List.map_map,
      List.cons_append]
    refine congrArg₂ List.cons ?_ (congrArg (· ++ [value finish]) ?_)
    · simp
    · exact List.map_congr_left fun i _ => (hplace i).symm
  · rw [List.getLast?_cons, hlater.lands]
    rfl
  · rw [hsizes, List.replicate_succ, List.cons_append]
  · have hrest := hfurther n
    rw [hsize]
    linarith

theorem before_finish (hgrid : Grid x h finish n xs sizes) (hpos : zero < h)
    (hplace : x < finish) : value x + n * value h < value finish := by
  rw [Scalar.Exact.lt_iff, Scalar.Exact.value_zero] at hpos
  rw [Scalar.Exact.lt_iff] at hplace
  cases n with
  | zero => simpa using hplace
  | succ m =>
    have hshort := hgrid.short m (Nat.lt_succ_self m)
    have hsmall : (0 : ℝ) < (10 : ℝ) ^ (-8 : Int) := by positivity
    have hstretch : value h ≤ value h * value (stretch : α) := by
      rw [Scalar.Exact.value_stretch]
      nlinarith
    push_cast
    linarith

end Grid

theorem grid_of_taken (hmode : c.adaptive = false) (hstep : zero < c.h) (hplace : c.x < c.finish)
    (htaken : Taken tries c steps last) (hlast : last.finished = true) :
    ∃ n, Grid c.x c.h c.finish n (steps.map AcceptedStep.x) (steps.map AcceptedStep.size) := by
  induction htaken with
  | refl c =>
    have hbefore := Scalar.Rounded.not_le.mpr hplace
    exact absurd (of_decide_eq_true hlast) hbefore
  | @step c last s steps hgo houtcome hlater ih =>
    obtain ⟨pair, hpair, hafter, hsize⟩ := advance_of_fixed hmode houtcome
    have hx := advance_of_step houtcome
    rw [List.map_cons, List.map_cons, hx, hsize]
    rw [hafter] at hlater ih ⊢
    cases hlands : c.nextSize.2 with
    | true =>
      obtain ⟨hrest, hreach⟩ := nextSize_of_last hlands
      have hend : (c.moved c.nextSize.1 c.nextSize.2 pair.fifth).finished = true := by
        rw [hlands]
        exact decide_eq_true (Scalar.Rounded.le_refl c.finish)
      have hnone : steps = [] := by
        cases hlater with
        | refl => rfl
        | step hgo => cases hend.symm.trans hgo
      refine ⟨0, ?_⟩
      rw [hnone, hrest]
      exact .single hreach
    | false =>
      obtain ⟨hfull, hshort⟩ := nextSize_of_not_last hlands
      obtain ⟨_, hahead⟩ := moved_of_nextPair hstep hpair hlands
      rw [hlands, hfull] at ih
      obtain ⟨n, hgrid⟩ := ih hmode hstep hahead hlast
      refine ⟨n + 1, ?_⟩
      rw [hfull]
      exact hgrid.cons hshort

end Trajectory.Controller
