import Trajectory.Decimal.Binary64
import Trajectory.Proofs.Event.Promises
import Trajectory.Proofs.Solver.Exclusion
import Trajectory.Proofs.Solver.FirstStep
import Trajectory.Proofs.Solver.Ready
import Trajectory.Proofs.Solver.Refusal
import Trajectory.Proofs.Stepper.Promises

namespace Trajectory

namespace Session

open Act (Honors)
open Delivery (deliver)

variable {α μ : Type}

def At (I : Solver α → Prop) (w : World (protocol α μ)) : Prop := I w.state.solver

variable [Scalar α]

theorem Lasting.and {I J : Solver α → Prop} (hI : Lasting I) (hJ : Lasting J) :
    Lasting fun s => I s ∧ J s where
  fresh := ⟨hI.fresh, hJ.fresh⟩
  setting f s c hf hs h := ⟨hI.setting f s c hf hs.1 h, hJ.setting f s c hf hs.2 h⟩
  noted s t h hs := ⟨hI.noted s t h hs.1, hJ.noted s t h hs.2⟩

section Lasting

variable {I : Solver α → Prop} {publish : Publish α μ} {β : Type}

theorem Lasting.kind (hI : Lasting I) : Kind (At (μ := μ) I) where
  recorded _ _ h := h
  aside v w h hv := by
    refine hI.noted v.state.solver w.state.solver ?_ hv
    unfold Noted
    rw [h.solver]

theorem Lasting.honors_of_noted (hI : Lasting I) {act : Action α μ β}
    (h : ∀ w, ∃ b v, act w = .ok b v ∧ Noted w.state.solver v.state.solver) :
    Honors (At I) act := by
  refine .of_ok fun w hw => ?_
  obtain ⟨b, v, hact, hnoted⟩ := h w
  exact ⟨b, v, hact, hI.noted _ _ hnoted hw⟩

theorem Lasting.honors_of_quiet (hI : Lasting I) {act : Action α μ β} (h : Quiet act) :
    Honors (At I) act := by
  refine .of_ok fun w hw => ?_
  obtain ⟨b, v, hact, haside⟩ := h w
  exact ⟨b, v, hact, hI.kind.aside w v haside hw⟩

theorem Lasting.honors_change (hI : Lasting I) (hpublish : ∀ c e, Honors (At I) (publish c e))
    {f : Solver α → Except (SolverError α) (Change α)} (hf : Setting f) :
    Honors (At I) (change publish f) := by
  intro w hw
  cases hchange : f w.state.solver with
  | error e =>
    have hrefused : change publish f w = .ok (.error e) w := change_of_error hchange
    rw [hrefused, Act.after_of_ok hrefused]
    exact ⟨fun _ _ => nofun, hw⟩
  | ok c =>
    have hchanged : At (μ := μ) I (withSolver w c.solver) := hI.setting f _ c hf hw hchange
    have hrest := (hpublish c.event.channel c.event.payload).bind fun _ =>
      .pure (.ok () : Result α Unit)
    unfold Act.after
    rw [change_of_ok hchange]
    exact hrest _ hchanged

theorem Lasting.honors_cancel (hI : Lasting I) (hpublish : ∀ c e, Honors (At I) (publish c e)) :
    Honors (At I) (cancel publish) := by
  refine .bind (hI.honors_of_noted fun w => ⟨_, _, rfl, rfl⟩) fun _ => ?_
  refine .bind (hI.honors_of_noted fun w => ⟨_, _, rfl, rfl⟩) fun _ => ?_
  exact .bind (hpublish _ _) fun _ => .pure ()

theorem Lasting.composed (hI : Lasting I) :
    Composed fun _ (act _ : Action α μ _) => Honors (At I) act where
  bind hact hf := hact.bind hf
  quiet h := hI.honors_of_quiet h

/-- Requests break no promise if runs break none. -/
theorem Lasting.honors_answer [Numeral α] {fuel : Nat} (hI : Lasting I)
    (hpublish : ∀ c e, Honors (At I) (publish c e))
    (hrun : ∀ adaptive, Honors (At I) (run publish fuel adaptive)) (q : Request α μ) :
    Honors (At I) (answer α μ fuel publish q) :=
  hI.composed.answer publish publish (fun _ hf => hI.honors_change hpublish hf) hrun
    (hI.honors_cancel hpublish) q

end Lasting

section Run

variable [Numeral α] {I : Solver α → Prop} {publish : Publish α μ} {fuel : Nat}

theorem Lasting.honors_stepThrough (hI : Lasting I) (hpublish : ∀ c e, Honors (At I) (publish c e))
    (tries steps : Nat) {c : Controller α} (hc : c.Sound) (points : List (Point α)) :
    Honors (At I) (stepThrough publish tries steps c points) := by
  -- The invariant is that the controller is sound, which each step keeps.
  induction steps generalizing c points with
  | zero => exact .exhausted
  | succ steps ih =>
    refine .bind (hI.honors_of_noted fun w => ⟨_, w, rfl, rfl⟩) fun s => ?_
    split
    · exact .pure _
    · refine .bind (hI.honors_of_noted fun w => ⟨_, _, rfl, rfl⟩) fun _ => ?_
      cases houtcome : (c.advance tries).outcome with
      | exhausted => exact .exhausted
      | failure f =>
        cases f with
        | breach b => exact absurd houtcome (hc.outcome_ne b)
        | cause e => exact .pure _
      | step step =>
        have hafter := hc.advance houtcome
        obtain ⟨point, hpoint⟩ := exists_pointAt hafter.size
        dsimp only
        rw [hpoint]
        refine .bind (.pure point) fun _ => .bind (hpublish _ _) fun _ => ?_
        exact ih hafter _

theorem Lasting.honors_conclude (hI : Lasting I) (hpublish : ∀ c e, Honors (At I) (publish c e))
    (stop : Stop α) : Honors (At I) (conclude publish stop) := by
  unfold conclude
  cases stop.error? with
  | some e =>
    refine .bind (hI.honors_of_noted fun w => ⟨_, _, rfl, rfl⟩) fun _ => ?_
    exact .bind (hI.honors_of_noted fun w => ⟨_, _, rfl, rfl⟩) fun _ => .pure _
  | none =>
    refine .bind (hI.honors_of_noted fun w => ⟨_, _, rfl, rfl⟩) fun _ => ?_
    refine .bind (hI.honors_of_noted fun w => ⟨_, w, rfl, rfl⟩) fun s => ?_
    dsimp only
    split
    · refine .bind (hI.honors_of_noted fun w => ⟨_, _, rfl, rfl⟩) fun _ => ?_
      refine .bind (hI.honors_of_noted fun w => ⟨_, _, rfl, rfl⟩) fun _ => ?_
      exact .bind (hpublish _ _) fun _ => .pure _
    · refine .bind (hI.honors_of_noted fun w => ⟨_, _, rfl, rfl⟩) fun _ => ?_
      exact .bind (hpublish _ _) fun _ => .pure _

theorem Lasting.honors_runSetup (hI : Lasting I) (hpublish : ∀ c e, Honors (At I) (publish c e))
    {setup : Setup α} {adaptive : Bool} {c : Controller α} (hc : c.Sound)
    (hstart : Controller.start setup.system setup.range setup.tolerance setup.y adaptive = .ok c) :
    Honors (At I) (runSetup publish fuel setup adaptive) := by
  obtain ⟨point, hpoint⟩ := exists_pointAt hc.size
  refine .bind (hI.honors_of_noted fun w => ⟨_, _, rfl, rfl⟩) fun _ => ?_
  rw [hstart]
  have hkept : (Act.keep (.ok c) : Action α μ (Result α (Controller α))) = pure (.ok c) := rfl
  rw [hkept, pure_bind]
  dsimp only
  rw [hpoint]
  refine .bind (.pure point) fun _ => ?_
  refine .bind (hI.honors_of_noted fun w => ⟨_, _, rfl, rfl⟩) fun _ => ?_
  refine .bind (hpublish _ _) fun _ => ?_
  exact .bind (hI.honors_stepThrough hpublish fuel fuel hc _) fun stop =>
    hI.honors_conclude hpublish stop

omit [Numeral α] in
theorem Lasting.honors_releasing (hI : Lasting I) {β : Type} {act : Action α μ β}
    (hact : Honors (At I) act) : Honors (At I) (releasing act) := by
  intro w hw
  obtain ⟨hkept, hafter⟩ := hact w hw
  refine ⟨fun b v h => ?_, ?_⟩
  · unfold releasing at h
    cases hact : act w with
    | ok c u => simp [hact] at h
    | error halt u =>
      simp only [hact] at h
      cases h
      exact hkept b u hact
  · rw [after_releasing]
    exact hI.noted _ _ rfl hafter

/-- The settings that the computations of a run rest on. -/
def Settled (s : Solver α) : Prop := s.range.Valid ∧ s.tolerance.validate = .ok ()

omit [Numeral α] in
theorem lasting_settled [Scalar.Usual α] : Lasting (Settled (α := α)) :=
  lasting_valid.and lasting_validated

variable [Scalar.Usual α] [Scalar.Comparable α]

theorem honors_run (hpublish : ∀ c e, Honors (At Settled) (publish c e)) (adaptive : Bool) :
    Honors (At Settled) (run publish fuel adaptive) := by
  have hsettled := lasting_settled (α := α)
  intro w hw
  cases hrunning : w.state.solver.running with
  | true =>
    rw [run_of_running hrunning, Act.after_of_ok (run_of_running hrunning)]
    exact ⟨fun _ _ => nofun, hw⟩
  | false =>
    have hlocked : At (μ := μ) Settled (withSolver w
      { w.state.solver with cancelRequested := false, running := true }) := hw
    unfold Act.after
    rw [run_of_idle hrunning]
    refine hsettled.honors_releasing ?_ _ hlocked
    cases hprepare : w.state.solver.prepare with
    | error fault => exact .pure _
    | ok setup =>
      have hprepared := Solver.prepared_of_prepare hprepare
      obtain ⟨c, hstart⟩ : ∃ c : Controller α, Controller.start setup.system setup.range
          setup.tolerance setup.y adaptive = .ok c := by
        rw [hprepared.range, hprepared.tolerance]
        exact Controller.exists_start hprepared.validated hw.1 hprepared.steps hprepared.size adaptive
      have hstarted := Controller.started_of_start hstart
      refine hsettled.honors_runSetup hpublish (hstarted.sound ?_ hprepared.size) hstart
      rw [hprepared.range]
      exact hw.1

theorem honors_deliver (calls d : Nat) (c : Solver.Channel) (e : Solver.Payload α c) :
    Honors (At (μ := μ) Settled) (deliver (answer α μ) calls d c e) := by
  have hsettled := lasting_settled (α := α)
  refine Delivery.honors_deliver hsettled.kind.closed (fun fuel publish hpublish q => ?_) calls d c e
  exact hsettled.honors_answer hpublish (honors_run hpublish) q

/-- Whatever a script and its subscribers request of a new session, no promise is broken: bounds are in
order wherever a number is clamped, and there is a value for every name and every slot. For each
variable of a run there is a condition, and its derivatives are as many as its values. -/
theorem perform_honors (files : FileTree) (memory : μ) (logging : Logging) (calls : Nat)
    (script : Script (protocol α μ)) :
    (∀ b v, perform calls script (newWorld files memory logging) ≠ .error (.breach b) v) ∧
    (∀ (s : Solver α) setup, s.prepare = .ok setup →
      setup.system.names.map s.conditions.get? = setup.y.map some) ∧
    ∀ (s : OdeSystem α) arg x y dydx, s.evaluate arg x y = .ok dydx → dydx.length = y.length := by
  have hsettled := lasting_settled (α := α)
  refine ⟨?_, fun s setup h => (Solver.prepared_of_prepare h).state, fun s arg x y dydx h => ?_⟩
  · have hanswer (q : Request α μ) :
        Honors (At Settled) (answer α μ calls (deliver (answer α μ) calls 0) q) :=
      hsettled.honors_answer (honors_deliver calls 0) (honors_run (honors_deliver calls 0)) q
    have hscript := Delivery.honors_run hsettled.kind.closed hanswer script
    exact (hscript (newWorld files memory logging) hsettled.fresh).1
  · have hevaluable := OdeSystem.evaluable_of_evaluate h
    obtain ⟨dydx', h', hlength⟩ := OdeSystem.exists_evaluate (x := x) hevaluable
    cases h.symm.trans h'
    exact hlength.trans hevaluable.size.symm

end Run

open Scalar (infinity notANumber)

/-- A run between settings that are no numbers, with a subscriber that asks for more of the same. -/
def wildScript (adaptive : Bool) : Script (protocol Float Unit) :=
  .request (.setEquations ["= y'"]) fun _ =>
  .request (.setEquations ["y' = y"]) fun _ =>
  .request (.setConditions (.ofList [("y", infinity)])) fun _ =>
  .request (.setConditions (.ofList [("y", Scalar.one)])) fun _ =>
  .request (.setRange "x" notANumber infinity Scalar.zero) fun _ =>
  .request (.setStepBounds (some infinity) (some notANumber)) fun _ =>
  .request (.setFactorBounds infinity notANumber) fun _ =>
  .subscribe .progress (fun _ => .request (.setTolerance notANumber infinity) fun _ =>
    .request (.run true) fun _ => .done) fun _ =>
  .request (.run adaptive) fun _ => .done

theorem perform_honors_wild :
    (∀ adaptive b v, perform 20 (wildScript adaptive) (newWorld {} ()) ≠ .error (.breach b) v) ∧
      ((perform 20 (wildScript false)).after (newWorld {} ())).state.solver.result.length = 11 :=
  ⟨fun adaptive => (perform_honors {} () .foreign 20 (wildScript adaptive)).1, by decide +kernel⟩

end Session

end Trajectory
