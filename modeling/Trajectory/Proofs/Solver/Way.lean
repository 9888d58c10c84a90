import Trajectory.Proofs.Solver.Reachable
import Trajectory.Proofs.Solver.Steps
import Trajectory.Proofs.Stepper.Advance

namespace Trajectory

variable {α μ : Type}

theorem Solver.Prepared.unique [Scalar α] {s t : Solver α} {setup setup' : Setup α}
    (hnoted : Session.Noted s t) (h : Prepared s setup) (h' : Prepared t setup') :
    setup' = setup := by
  obtain ⟨system, range, tolerance, y⟩ := setup
  obtain ⟨system', range', tolerance', y'⟩ := setup'
  obtain ⟨hsystem, hrange, htolerance, hconditions⟩ : t.system? = s.system? ∧ t.range = s.range ∧
      t.tolerance = s.tolerance ∧ t.conditions = s.conditions := by
    rw [hnoted]
    exact ⟨rfl, rfl, rfl, rfl⟩
  have hsome : some system' = some system := h'.system.symm.trans (hsystem.trans h.system)
  obtain rfl := Option.some.inj hsome
  obtain rfl : range' = range := h'.range.trans (hrange.trans h.range.symm)
  obtain rfl : tolerance' = tolerance := h'.tolerance.trans (htolerance.trans h.tolerance.symm)
  have hvalues : y'.map some = y.map some := by
    rw [← h'.state, ← h.state, hconditions]
  obtain rfl : y' = y := (List.map_inj_right fun _ _ => Option.some.inj).mp hvalues
  rfl

namespace Session

variable [Scalar α]

/-- From one controller to another over the points after accepted steps. No step is made from the
end of the range. -/
inductive Way : Controller α → List (Point α) → Controller α → Prop
  | refl (c : Controller α) : Way c [] c
  | step {c last : Controller α} {tries : Nat} {s : AcceptedStep α} {point : Point α}
      {points : List (Point α)} (hgo : c.finished = false)
      (houtcome : (c.advance tries).outcome = .step s)
      (hpoint : pointAt (c.advance tries).controller = .ok point)
      (hlater : Way (c.advance tries).controller points last) : Way c (point :: points) last

namespace Way

variable {c d e : Controller α} {first later : List (Point α)}

theorem trans (hcd : Way c first d) (hde : Way d later e) : Way c (first ++ later) e := by
  induction hcd with
  | refl c => exact hde
  | step hgo houtcome hpoint _ ih => exact .step hgo houtcome hpoint (ih hde)

theorem eq_nil_of_finished (hc : c.finished = true) (h : Way c first d) : first = [] := by
  cases h with
  | refl => rfl
  | step hgo =>
    rw [hc] at hgo
    cases hgo

/-- Of two ways from one controller the longer one goes on where the shorter one ends. -/
theorem exists_rest (hd : Way c first d) (he : Way c later e)
    (hlength : first.length ≤ later.length) : ∃ rest, later = first ++ rest ∧ Way d rest e := by
  induction hd generalizing later with
  | refl c => exact ⟨later, rfl, he⟩
  | @step c d tries s point points _ houtcome hpoint _ ih =>
    cases he with
    | refl => simp at hlength
    | @step _ _ tries' s' point' points' _ houtcome' hpoint' hlater' =>
      -- The number of tries that were allowed does not matter.
      rw [Controller.advance_eq_of_step houtcome houtcome'] at hpoint' hlater'
      rw [hpoint] at hpoint'
      cases hpoint'
      obtain ⟨rest, hrest, hway⟩ := ih hlater' (by simpa using hlength)
      exact ⟨rest, by rw [hrest, List.cons_append], hway⟩

theorem eq_of_length_eq (hd : Way c first d) (he : Way c later e)
    (hlength : first.length = later.length) : later = first := by
  obtain ⟨rest, hrest, _⟩ := hd.exists_rest he (Nat.le_of_eq hlength)
  have hnone : rest = [] := by
    rw [hrest, List.length_append] at hlength
    exact List.length_eq_zero_iff.mp (by omega)
  rw [hrest, hnone, List.append_nil]

theorem eq_take_of_finished (hd : Way c first d) (he : Way c later e) (hend : e.finished = true) :
    first = later.take first.length := by
  rcases Nat.le_total first.length later.length with hlength | hlength
  · obtain ⟨rest, hrest, _⟩ := hd.exists_rest he hlength
    rw [hrest, List.take_left]
  · obtain ⟨rest, hrest, hway⟩ := he.exists_rest hd hlength
    have hnone : rest = [] := hway.eq_nil_of_finished hend
    rw [hrest, hnone, List.append_nil, List.take_length]

end Way

theorem Steps.way {publish : Publish α μ} {tries : Nat} {c last : Controller α}
    {points : List (Point α)} {w v : World (protocol α μ)}
    (h : Steps publish tries c w last none points v) : Way c points last ∧ stops last v = true := by
  generalize herror : (none : Option (SolverError α)) = error? at h
  induction h with
  | stop hstop => exact ⟨.refl _, hstop⟩
  | failure => cases herror
  | step hstop _ houtcome hpoint _ _ ih =>
    obtain ⟨hway, hlast⟩ := ih herror
    exact ⟨.step (finished_of_stops hstop) houtcome hpoint hway, hlast⟩

end Session

end Trajectory
