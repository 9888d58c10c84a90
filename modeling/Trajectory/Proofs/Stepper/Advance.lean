import Trajectory.Proofs.Stepper.Attempt

namespace Trajectory

def Attempt.controller {α : Type} : Attempt α → Controller α
  | accepted c _ => c
  | rejected c _ => c
  | failed c _ => c

namespace Controller

variable {α : Type}

/-- The second controller has moved, adapted its step or counted. -/
def Moves (c d : Controller α) : Prop :=
  d = { c with x := d.x, y := d.y, h := d.h, accepted := d.accepted, rejected := d.rejected }

namespace Moves

variable {c d e : Controller α}

theorem refl (c : Controller α) : Moves c c := rfl

theorem trans (hcd : Moves c d) (hde : Moves d e) : Moves c e := by
  unfold Moves at hcd hde ⊢
  rw [hcd] at hde
  exact hde

theorem system (h : Moves c d) : d.system = c.system := by rw [h]

theorem tolerance (h : Moves c d) : d.tolerance = c.tolerance := by rw [h]

theorem minStep (h : Moves c d) : d.minStep = c.minStep := by rw [h]

theorem finish (h : Moves c d) : d.finish = c.finish := by rw [h]

end Moves

variable [Scalar α] {c : Controller α} {tries : Nat}

theorem moves_attempt (c : Controller α) : Moves c c.attempt.controller := by
  have htried := c.tried
  generalize c.attempt = a at htried
  cases htried with
  | stopped => rfl
  | fixed => rfl
  | adapted => rfl
  | rejected => rfl
  | least => rfl
  | breach hafter =>
    rw [hafter]
    rfl

theorem moves_of_rejected {after : Controller α} {r : Rejection α}
    (h : c.attempt = .rejected after r) : Moves c after := by
  have hmoves := c.moves_attempt
  rw [h] at hmoves
  exact hmoves

/-- How the tries for one step came to their end, if they were enough. -/
inductive Ended (last : Controller α) (a : Advance α) : Prop
  | step {after : Controller α} {s : AcceptedStep α} (hattempt : last.attempt = .accepted after s)
      (hcontroller : a.controller = after) (houtcome : a.outcome = .step s)
  | failure {after : Controller α} {f : Failure (SolverError α)}
      (hattempt : last.attempt = .failed after f) (hcontroller : a.controller = after)
      (houtcome : a.outcome = .failure f)
  | exhausted (hcontroller : a.controller = last) (houtcome : a.outcome = .exhausted)

theorem exists_ended {I : Controller α → Prop} (hc : I c)
    (hrejected : ∀ d after r, I d → d.attempt = .rejected after r → I after) :
    ∃ last, I last ∧ Ended last (c.advance tries) := by
  induction tries generalizing c with
  | zero => exact ⟨c, hc, .exhausted rfl rfl⟩
  | succ tries ih =>
    rw [advance]
    split
    next after s hattempt => exact ⟨c, hc, .step hattempt rfl rfl⟩
    next after f hattempt => exact ⟨c, hc, .failure hattempt rfl rfl⟩
    next after r hattempt =>
      obtain ⟨last, hlast, hended⟩ := ih (hrejected c after r hc hattempt)
      refine ⟨last, hlast, ?_⟩
      cases hended with
      | step hattempt hcontroller houtcome => exact .step hattempt hcontroller houtcome
      | failure hattempt hcontroller houtcome => exact .failure hattempt hcontroller houtcome
      | exhausted hcontroller houtcome => exact .exhausted hcontroller houtcome

theorem exists_last (c : Controller α) (tries : Nat) :
    ∃ last, Moves c last ∧ Ended last (c.advance tries) :=
  exists_ended (.refl c) fun _ _ _ hd hattempt => hd.trans (moves_of_rejected hattempt)

/-- Once the tries are enough, more of them change nothing. -/
theorem advance_of_le {more : Nat} (h : (c.advance tries).outcome ≠ .exhausted)
    (hle : tries ≤ more) : c.advance more = c.advance tries := by
  induction tries generalizing c more with
  | zero => exact absurd rfl h
  | succ tries ih =>
    obtain ⟨later, rfl⟩ : ∃ later, more = later + 1 := ⟨more - 1, by omega⟩
    rw [advance] at h ⊢
    rw [advance]
    cases hattempt : c.attempt with
    | accepted after s => rfl
    | failed after f => rfl
    | rejected after r =>
      simp only [hattempt] at h
      have hlater : after.advance later = after.advance tries := ih h (by omega)
      simp only [hlater]

theorem advance_eq {more : Nat} (h : (c.advance tries).outcome ≠ .exhausted)
    (hmore : (c.advance more).outcome ≠ .exhausted) : c.advance more = c.advance tries := by
  rcases Nat.le_total tries more with hle | hle
  · exact advance_of_le h hle
  · exact (advance_of_le hmore hle).symm

theorem advance_eq_of_step {more : Nat} {s s' : AcceptedStep α}
    (h : (c.advance tries).outcome = .step s) (hmore : (c.advance more).outcome = .step s') :
    c.advance more = c.advance tries :=
  advance_eq (by simp [h]) (by simp [hmore])

theorem moves_advance (c : Controller α) (tries : Nat) : Moves c (c.advance tries).controller := by
  obtain ⟨last, hlast, hended⟩ := c.exists_last tries
  have hmoves := last.moves_attempt
  cases hended with
  | step hattempt hcontroller _ =>
    rw [hattempt] at hmoves
    rw [hcontroller]
    exact hlast.trans hmoves
  | failure hattempt hcontroller _ =>
    rw [hattempt] at hmoves
    rw [hcontroller]
    exact hlast.trans hmoves
  | exhausted hcontroller _ =>
    rw [hcontroller]
    exact hlast

theorem advance_of_step {s : AcceptedStep α} (h : (c.advance tries).outcome = .step s) :
    s.x = (c.advance tries).controller.x := by
  obtain ⟨last, _, hended⟩ := c.exists_last tries
  cases hended with
  | step hattempt hcontroller houtcome =>
    rw [h] at houtcome
    cases houtcome
    rw [hcontroller]
    cases tried_of_eq hattempt with
    | fixed => rfl
    | adapted => rfl
  | failure _ _ houtcome => simp [h] at houtcome
  | exhausted _ houtcome => simp [h] at houtcome

theorem advance_of_fixed {s : AcceptedStep α} (hmode : c.adaptive = false)
    (h : (c.advance tries).outcome = .step s) : ∃ pair, c.nextPair = .ok pair ∧
      (c.advance tries).controller = c.moved c.nextSize.1 c.nextSize.2 pair.fifth ∧
        s.size = c.nextSize.1 := by
  cases tries with
  | zero => cases h
  | succ tries =>
    rw [advance] at h ⊢
    cases hattempt : c.attempt with
    | accepted after s' =>
      rw [hattempt] at h
      cases h
      cases tried_of_eq hattempt with
      | fixed hpair _ => exact ⟨_, hpair, rfl, rfl⟩
      | adapted _ hadaptive => cases hmode.symm.trans hadaptive
    | failed after f => simp [hattempt] at h
    | rejected after r =>
      cases tried_of_eq hattempt with
      | rejected _ hadaptive => cases hmode.symm.trans hadaptive

/-- The accepted steps that lead from one controller to another. None is made from the end of the
range. -/
inductive Taken (tries : Nat) : Controller α → List (AcceptedStep α) → Controller α → Prop
  | refl (c : Controller α) : Taken tries c [] c
  | step {c last : Controller α} {s : AcceptedStep α} {steps : List (AcceptedStep α)}
      (hgo : c.finished = false) (houtcome : (c.advance tries).outcome = .step s)
      (hlater : Taken tries (c.advance tries).controller steps last) : Taken tries c (s :: steps) last

theorem ofStep_of_failed {after : Controller α} {e : SolverError α}
    (h : c.attempt = .failed after (.cause e)) : e.OfStep := by
  cases tried_of_eq h with
  | stopped hpair => exact nextPair_causedBy c e hpair
  | least => exact .convergence _ _ _

theorem advance_of_cause {e : SolverError α} (h : (c.advance tries).outcome = .failure (.cause e)) :
    e.OfStep := by
  obtain ⟨last, _, hended⟩ := c.exists_last tries
  cases hended with
  | step _ _ houtcome => simp [h] at houtcome
  | failure hattempt _ houtcome =>
    rw [h] at houtcome
    cases houtcome
    exact ofStep_of_failed hattempt
  | exhausted _ houtcome => simp [h] at houtcome

end Controller

end Trajectory
