import Trajectory.Proofs.Solver.Exclusion
import Trajectory.Proofs.Solver.Noninterference
import Trajectory.Proofs.Task.Applying

namespace Trajectory

namespace Act

variable {p p' : Protocol} {β γ : Type} {R : World p → World p' → Prop}

/-- The same answer, or the same halt, in worlds that are related. -/
inductive Matched (R : World p → World p' → Prop) : EStateM.Result Halt (World p) β →
    EStateM.Result Halt (World p') β → Prop
  | ok {b : β} {v : World p} {v' : World p'} (h : R v v') : Matched R (.ok b v) (.ok b v')
  | error {halt : Halt} {v : World p} {v' : World p'} (h : R v v') :
      Matched R (.error halt v) (.error halt v')

/-- From related worlds the actions come to the same, in related worlds. -/
def Match (R : World p → World p' → Prop) (act : Act p β) (act' : Act p' β) : Prop :=
  ∀ w w', R w w' → Matched R (act w) (act' w')

variable {act : Act p β} {act' : Act p' β} {f : β → Act p γ} {f' : β → Act p' γ} {w : World p}
  {w' : World p'}

theorem Matched.bind (hact : Matched R (act w) (act' w')) (hf : ∀ b, Match R (f b) (f' b)) :
    Matched R ((act >>= f) w) ((act' >>= f') w') := by
  simp only [Bind.bind, EStateM.bind]
  generalize act w = r at hact
  generalize act' w' = r' at hact
  cases hact with
  | ok hv => exact hf _ _ _ hv
  | error hv => exact .error hv

theorem Matched.bind_of_ok {b b' : β} {v : World p} {v' : World p'} (h : act w = .ok b v)
    (h' : act' w' = .ok b' v') (hf : Matched R (f b v) (f' b' v')) :
    Matched R ((act >>= f) w) ((act' >>= f') w') := by
  rwa [Act.bind_of_ok h, Act.bind_of_ok h']

namespace Match

theorem bind (hact : Match R act act') (hf : ∀ b, Match R (f b) (f' b)) :
    Match R (act >>= f) (act' >>= f') := fun w w' h => (hact w w' h).bind hf

theorem pure (b : β) : Match R (Pure.pure b) (Pure.pure b) := fun _ _ h => .ok h

theorem throw (halt : Halt) : Match R (throw halt : Act p β) (throw halt) := fun _ _ h => .error h

theorem keep {ε : Type} (c : Checked ε β) : Match R (Act.keep c) (Act.keep c) := by
  cases c with
  | ok b => exact .pure _
  | error f =>
    cases f with
    | breach b => exact .throw _
    | cause e => exact .pure _

theorem promised (c : Checked Empty β) : Match R (Act.promised c) (Act.promised c) := by
  cases c with
  | ok b => exact .pure b
  | error f =>
    cases f with
    | breach b => exact .throw _
    | cause e => cases e

end Match

/-- Where both actions have an answer, they have the same one and lead to the same world. -/
def Concur (act act' : Act p β) : Prop :=
  ∀ w b v b' v', act w = .ok b v → act' w = .ok b' v' → b' = b ∧ v' = v

namespace Concur

theorem refl (act : Act p β) : Concur act act := by
  intro w b v b' v' h h'
  cases h.symm.trans h'
  exact ⟨rfl, rfl⟩

theorem bind {act act' : Act p β} {f f' : β → Act p γ} (hact : Concur act act')
    (hf : ∀ b, Concur (f b) (f' b)) : Concur (act >>= f) (act' >>= f') := by
  intro w c v c' v' h h'
  obtain ⟨b, u, hfirst, h⟩ := bind_eq_ok_iff.mp h
  obtain ⟨b', u', hfirst', h'⟩ := bind_eq_ok_iff.mp h'
  obtain ⟨rfl, rfl⟩ := hact w b u b' u' hfirst hfirst'
  exact hf b' u' c v c' v' h h'

end Concur

end Act

namespace Session

open Act (Concur Match Matched)
open Delivery (deliver)

variable {α μ μ' : Type}

/-- Nobody is told of anything in either session, and their solvers differ in nothing but what they
log. -/
structure Twins (w : World (protocol α μ)) (w' : World (protocol α μ')) : Prop where
  deserted : Deserted w
  deserted' : Deserted w'
  solver : w'.state.solver = { w.state.solver with logSettings := w'.state.solver.logSettings }

section Twins

variable {w : World (protocol α μ)} {w' : World (protocol α μ')}

theorem Twins.cancelRequested (h : Twins w w') :
    w'.state.solver.cancelRequested = w.state.solver.cancelRequested := by rw [h.solver]

theorem matched_getSolver {β : Type} {f : Solver α → Action α μ β} {f' : Solver α → Action α μ' β}
    (h : Matched Twins (f w.state.solver w) (f' w'.state.solver w')) :
    Matched Twins ((getSolver >>= f) w) ((getSolver >>= f') w') := h

theorem match_modifySolver {f : Solver α → Solver α}
    (hf : ∀ s logSettings, f { s with logSettings } = { f s with logSettings }) :
    Match Twins (modifySolver f : Action α μ Unit) (modifySolver f : Action α μ' Unit) := by
  refine fun w w' h => .ok ⟨h.deserted, h.deserted', ?_⟩
  have hafter : f w'.state.solver =
      { f w.state.solver with logSettings := w'.state.solver.logSettings } := by
    rw [← hf, ← h.solver]
  change f w'.state.solver =
    { f w.state.solver with logSettings := (f w'.state.solver).logSettings }
  rw [hafter]

theorem match_log (line : LogLine) :
    Match Twins (Act.log line : Action α μ Unit) (Act.log line : Action α μ' Unit) :=
  fun _ _ h => .ok ⟨h.deserted, h.deserted', h.solver⟩

theorem match_logAll (lines : List LogLine) :
    Match Twins (Act.logAll lines : Action α μ Unit) (Act.logAll lines : Action α μ' Unit) :=
  fun _ _ h => .ok ⟨h.deserted, h.deserted', h.solver⟩

theorem matched_releasing {β : Type} {act : Action α μ β} {act' : Action α μ' β}
    (h : Matched Twins (act w) (act' w')) :
    Matched Twins (releasing act w) (releasing act' w') := by
  have hreleased {v : World (protocol α μ)} {v' : World (protocol α μ')} (hv : Twins v v') :
      Twins (released v) (released v') := by
    refine ⟨hv.deserted, hv.deserted', ?_⟩
    change { v'.state.solver with running := false } = ({ v.state.solver with
      running := false, logSettings := v'.state.solver.logSettings } : Solver α)
    rw [hv.solver]
  unfold Session.releasing
  generalize act w = r at h
  generalize act' w' = r' at h
  cases h with
  | ok hv => exact .ok (hreleased hv)
  | error hv => exact .error (hreleased hv)

variable [Scalar α] [Numeral α]

theorem match_deliver (calls calls' d d' : Nat) (c : Solver.Channel) (e : Solver.Payload α c) :
    Match Twins (deliver (answer α μ) calls d c e) (deliver (answer α μ') calls' d' c e) := by
  intro w w' h
  rw [deliver_of_deserted h.deserted, deliver_of_deserted h.deserted']
  exact .ok ⟨h.deserted, h.deserted', h.solver⟩

variable (calls calls' d d' : Nat)

theorem match_stepThrough (tries steps : Nat) (c : Controller α) (points : List (Point α)) :
    Match Twins (stepThrough (deliver (answer α μ) calls d) tries steps c points)
      (stepThrough (deliver (answer α μ') calls' d') tries steps c points) := by
  induction steps generalizing c points with
  | zero => exact .throw _
  | succ steps ih =>
    intro w w' h
    refine matched_getSolver ?_
    dsimp only
    rw [h.cancelRequested]
    split
    · exact .ok h
    · refine (match_logAll _).bind (fun _ => ?_) w w' h
      cases (c.advance tries).outcome with
      | exhausted => exact .throw _
      | failure f =>
        cases f with
        | breach b => exact .throw _
        | cause e => exact .pure _
      | step s => exact .bind (.promised _) fun _ => .bind (match_deliver _ _ _ _ _ _) fun _ => ih _ _

theorem match_conclude (stop : Stop α) :
    Match Twins (conclude (deliver (answer α μ) calls d) stop)
      (conclude (deliver (answer α μ') calls' d') stop) := by
  unfold conclude
  cases stop.error? with
  | some e =>
    exact .bind (match_log _) fun _ => .bind (match_modifySolver fun _ _ => rfl) fun _ => .pure _
  | none =>
    refine .bind (match_log _) fun _ w w' h => ?_
    refine matched_getSolver ?_
    dsimp only
    rw [h.cancelRequested]
    split
    · refine Match.bind (match_log _) (fun _ => ?_) w w' h
      refine .bind (match_modifySolver fun _ _ => rfl) fun _ => ?_
      exact .bind (match_deliver _ _ _ _ _ _) fun _ => .pure _
    · refine Match.bind (match_modifySolver fun _ _ => rfl) (fun _ => ?_) w w' h
      exact .bind (match_deliver _ _ _ _ _ _) fun _ => .pure _

/-- Past the checks of a setup nothing is left of what was stored or requested before. -/
theorem matched_runSetup (hw : Deserted w) (hw' : Deserted w')
    (hsame : SameSettings w.state.solver w'.state.solver) (fuel : Nat) (setup : Setup α)
    (adaptive : Bool) :
    Matched Twins
      (runSetup (deliver (answer α μ) calls d) fuel setup adaptive
        (withSolver w { w.state.solver with cancelRequested := false, running := true }))
      (runSetup (deliver (answer α μ') calls' d') fuel setup adaptive
        (withSolver w' { w'.state.solver with cancelRequested := false, running := true })) := by
  let begun {μ : Type} (w : World (protocol α μ)) : World (protocol α μ) :=
    withSolver w { w.state.solver with
      cancelRequested := false, running := true, status := .running, result := [] }
  have hfirst {μ : Type} (w : World (protocol α μ)) :
      modifySolver (fun s => { s with status := .running, result := [] })
        (withSolver w { w.state.solver with cancelRequested := false, running := true }) =
          .ok () (begun w) := rfl
  have hbegun : Twins (begun w) (begun w') := by
    refine ⟨hw, hw', ?_⟩
    obtain ⟨hsystem, hconditions, hrange, htolerance⟩ := hsame
    simp only [begun, withSolver, hsystem, hconditions, hrange, htolerance]
  refine .bind_of_ok (hfirst w) (hfirst w') (Match.bind (.keep _) (fun started => ?_) _ _ hbegun)
  cases started with
  | error e => exact .bind (match_modifySolver fun _ _ => rfl) fun _ => .pure _
  | ok c =>
    refine .bind (.promised _) fun point => .bind (match_log _) fun _ => ?_
    refine .bind (match_deliver _ _ _ _ _ _) fun _ => ?_
    exact .bind (match_stepThrough _ _ _ _ _ _ _ _) fun stop => match_conclude _ _ _ _ stop

end Twins

section Fuel

variable [Scalar α] [Numeral α] {publish : Publish α μ} {fuel fuel' : Nat}

/-- Once the steps and the tries are enough, more of them change nothing. -/
theorem stepThrough_concur (steps steps' : Nat) (c : Controller α) (points : List (Point α)) :
    Concur (stepThrough publish fuel steps c points) (stepThrough publish fuel' steps' c points) := by
  induction steps generalizing steps' c points with
  | zero =>
    intro w stop v stop' v' h
    cases h
  | succ steps ih =>
    cases steps' with
    | zero =>
      intro w stop v stop' v' _ h'
      cases h'
    | succ steps' =>
      refine .bind (.refl _) fun s => ?_
      split
      · exact .refl _
      by_cases henough : (c.advance fuel).outcome = .exhausted
      · intro w stop v stop' v' h
        simp only [henough] at h
        cases h
      by_cases henough' : (c.advance fuel').outcome = .exhausted
      · intro w stop v stop' v' _ h'
        simp only [henough'] at h'
        cases h'
      rw [Controller.advance_eq henough henough']
      refine .bind (.refl _) fun _ => ?_
      cases (c.advance fuel).outcome with
      | exhausted => exact .refl _
      | failure f => cases f <;> exact .refl _
      | step s => exact .bind (.refl _) fun _ => .bind (.refl _) fun _ => ih _ _ _

theorem runSetup_concur (setup : Setup α) (adaptive : Bool) :
    Concur (runSetup publish fuel setup adaptive) (runSetup publish fuel' setup adaptive) := by
  refine .bind (.refl _) fun _ => .bind (.refl _) fun started => ?_
  cases started with
  | error e => exact .refl _
  | ok c =>
    refine .bind (.refl _) fun point => .bind (.refl _) fun _ => .bind (.refl _) fun _ => ?_
    exact .bind (stepThrough_concur _ _ _ _) fun _ => .refl _

theorem run_concur (adaptive : Bool) :
    Concur (run publish fuel adaptive) (run publish fuel' adaptive) := by
  refine .bind (.refl _) fun s => ?_
  split
  · exact .refl _
  refine .bind (.refl _) fun _ w r v r' v' h h' => ?_
  obtain ⟨u, hact, rfl⟩ := of_releasing h
  obtain ⟨u', hact', rfl⟩ := of_releasing h'
  cases hprepare : s.prepare with
  | error fault =>
    rw [hprepare] at hact hact'
    cases hact
    cases hact'
    exact ⟨rfl, rfl⟩
  | ok setup =>
    rw [hprepare] at hact hact'
    obtain ⟨rfl, rfl⟩ := runSetup_concur setup adaptive _ _ _ _ _ hact hact'
    exact ⟨rfl, rfl⟩

end Fuel

variable [Scalar α] [Numeral α] {w v : World (protocol α μ)} {w' : World (protocol α μ')}
  {calls d fuel : Nat} {adaptive : Bool} {r : Result α (List (Point α))}

omit [Numeral α] in
theorem SameSettings.prepare {s t : Solver α} (h : SameSettings s t) : t.prepare = s.prepare := by
  unfold Solver.prepare Solver.missing
  rw [h.system, h.range, h.tolerance, h.conditions]

theorem matched_run (hidle : w.state.solver.running = false) (hidle' : w'.state.solver.running = false)
    (hw : Deserted w) (hw' : Deserted w') (hsame : SameSettings w.state.solver w'.state.solver)
    (calls calls' d d' fuel : Nat) (adaptive : Bool) :
    (∃ fault v v', run (deliver (answer α μ) calls d) fuel adaptive w =
        .ok (.error (.configuration fault)) v ∧
      run (deliver (answer α μ') calls' d') fuel adaptive w' =
        .ok (.error (.configuration fault)) v') ∨
    Matched Twins (run (deliver (answer α μ) calls d) fuel adaptive w)
      (run (deliver (answer α μ') calls' d') fuel adaptive w') := by
  rw [run_of_idle hidle, run_of_idle hidle', hsame.prepare]
  cases w.state.solver.prepare with
  | error fault => exact .inl ⟨fault, _, _, rfl, rfl⟩
  | ok setup =>
    exact .inr (matched_releasing (matched_runSetup calls calls' d d' hw hw' hsame fuel setup adaptive))

/-- Whatever was run, stored, refused or canceled before, a run over the same settings returns the same
and, if it is not refused for its configuration, leaves the same behind. -/
theorem run_forgets (hidle : w.state.solver.running = false)
    (hidle' : w'.state.solver.running = false) (hw : Deserted w) (hw' : Deserted w')
    (hsame : SameSettings w.state.solver w'.state.solver)
    (hrun : run (deliver (answer α μ) calls d) fuel adaptive w = .ok r v) (calls' d' : Nat) :
    (∃ v', run (deliver (answer α μ') calls' d') fuel adaptive w' = .ok r v') ∧
    ∀ fuel' r' v', run (deliver (answer α μ') calls' d') fuel' adaptive w' = .ok r' v' →
      r' = r ∧ ((∀ fault, r ≠ .error (.configuration fault)) →
        v'.state.solver.status = v.state.solver.status ∧
          v'.state.solver.result = v.state.solver.result) := by
  have hmatched := matched_run hidle hidle' hw hw' hsame calls calls' d d' fuel adaptive
  obtain ⟨u, hrun', hsame⟩ : ∃ u, run (deliver (answer α μ') calls' d') fuel adaptive w' = .ok r u ∧
      ((∀ fault, r ≠ .error (.configuration fault)) → Twins v u) := by
    rcases hmatched with ⟨fault, z, z', hrefused, hrefused'⟩ | hmatched
    · cases hrun.symm.trans hrefused
      exact ⟨z', hrefused', fun hother => absurd rfl (hother fault)⟩
    · rw [hrun] at hmatched
      generalize hother : run (deliver (answer α μ') calls' d') fuel adaptive w' = other at hmatched
      cases hmatched with
      | ok hv => exact ⟨_, rfl, fun _ => hv⟩
  refine ⟨⟨u, hrun'⟩, fun fuel' r' v' hagain => ?_⟩
  obtain ⟨rfl, rfl⟩ := run_concur adaptive w' r u r' v' hrun' hagain
  refine ⟨rfl, fun hother => ?_⟩
  rw [(hsame hother).solver]
  exact ⟨rfl, rfl⟩

/-- The steady session after a run and with a request to cancel. -/
def spentWorld : World (protocol Fraction Unit) :=
  (ask 0 .cancel).after ((ask 20 (.run true)).after steadyWorld)

theorem run_forgets_of_spent : ∃ points v v',
    run (deliver (answer Fraction Unit) 0 0) 20 false steadyWorld = .ok (.ok points) v ∧
      spentWorld.state.solver.cancelRequested = true ∧
        spentWorld.state.solver.status = .finished ∧
          run (deliver (answer Fraction Unit) 0 0) 20 false spentWorld = .ok (.ok points) v' ∧
            points.length = 11 ∧ v'.state.solver.result = v.state.solver.result := by
  have hcomputed : (returned? (run (deliver (answer Fraction Unit) 0 0) 20 false steadyWorld)).any
      (fun r => r.1.length == 11) = true := by decide +kernel
  obtain ⟨points, v, hrun, hlength⟩ := exists_of_returned hcomputed
  have hdeserted : Deserted steadyWorld := fun c =>
    List.isEmpty_iff.mp (by cases c <;> decide +kernel)
  have hdeserted' : Deserted spentWorld := fun c =>
    List.isEmpty_iff.mp (by cases c <;> decide +kernel)
  have hsame : SameSettings steadyWorld.state.solver spentWorld.state.solver :=
    ⟨by decide +kernel, by decide +kernel, by decide +kernel, by decide +kernel⟩
  obtain ⟨⟨v', hrun'⟩, hunique⟩ := run_forgets (by decide +kernel) (by decide +kernel) hdeserted
    hdeserted' hsame hrun 0 0
  obtain ⟨_, hafter⟩ := hunique 20 _ v' hrun'
  exact ⟨points, v, v', hrun, by decide +kernel, by decide +kernel, hrun', eq_of_beq hlength,
    (hafter nofun).2⟩

end Session

end Trajectory
