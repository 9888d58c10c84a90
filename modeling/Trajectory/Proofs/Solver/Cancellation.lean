import Trajectory.Proofs.Solver.Nested
import Trajectory.Proofs.Solver.Stages

namespace Trajectory

namespace Session

variable {α μ : Type}

def isCancellation : Occurrence (protocol α μ) → Bool
  | .published _ c _ => c == .canceled
  | _ => false

/-- How often cancellation was told of. Each request is told of at once. -/
def cancellations (w : World (protocol α μ)) : Nat := w.history.countP isCancellation

theorem cancellations_record (w : World (protocol α μ)) (o : Occurrence (protocol α μ)) :
    cancellations (w.record o) = cancellations w + if isCancellation o then 1 else 0 :=
  List.countP_cons

/-- Cancellation was requested between two worlds, by a call of whatever depth. -/
def CanceledDuring (w v : World (protocol α μ)) : Prop := cancellations w < cancellations v

instance (w v : World (protocol α μ)) : Decidable (CanceledDuring w v) :=
  inferInstanceAs (Decidable (_ < _))

/-- While a run is in progress, a cancellation that is told of is requested until the run ends. -/
def Remembers (_depth : Nat) (w v : World (protocol α μ)) : Prop :=
  w.state.solver.running = true → Held w.state.solver v.state.solver ∧
    cancellations w ≤ cancellations v ∧
      (CanceledDuring w v → v.state.solver.cancelRequested = true)

theorem remembers_of_silent {d : Nat} {w v : World (protocol α μ)}
    (hheld : Held w.state.solver v.state.solver) (h : cancellations v = cancellations w) :
    Remembers d w v := fun _ =>
  ⟨hheld, Nat.le_of_eq h.symm, fun hcanceled => absurd h (Nat.ne_of_gt hcanceled)⟩

theorem remembers_frame : Frame (Remembers (α := α) (μ := μ)) where
  trans d u v w huv hvw hrunning := by
    obtain ⟨huv, hle, hfirst⟩ := huv hrunning
    obtain ⟨hvw, hle', hlater⟩ := hvw (huv.running.trans hrunning)
    refine ⟨huv.trans hvw, Nat.le_trans hle hle', fun hcanceled => ?_⟩
    by_cases hearly : CanceledDuring u v
    · exact hvw.canceled (hfirst hearly)
    · unfold CanceledDuring at hcanceled hearly hlater
      exact hlater (by omega)
  mono d v w h := h
  called d w k c id := remembers_of_silent (.refl _) rfl
  returned d w k c id reason? := remembers_of_silent (.refl _) rfl
  aside d v w h hrunning := by
    obtain ⟨hheld, _⟩ := whileRunning_frame.aside d v w h hrunning
    have hsame : cancellations w = cancellations v := by
      unfold cancellations
      rw [h.history]
    exact remembers_of_silent (d := d) hheld hsame hrunning

open Delivery.Frame (Publishes)

section Request

variable {publish : Publish α μ} {d : Nat} {w : World (protocol α μ)}

theorem cancel_requests (hpublish : Publishes Remembers d publish)
    (hrunning : w.state.solver.running = true) :
    Held w.state.solver ((cancel publish).after w).state.solver ∧
      CanceledDuring w ((cancel publish).after w) ∧
        ((cancel publish).after w).state.solver.cancelRequested = true := by
  let requested := (withSolver w { w.state.solver with cancelRequested := true }).addLog
    ⟨.info, "cancellation requested"⟩
  have hsame : (cancel publish).after w = (publish .canceled ()).after requested :=
    Act.after_bind_pure (publish .canceled ()) (fun _ => ()) requested
  obtain ⟨hheld, hle, _⟩ := hpublish .canceled () requested hrunning
  have htold : cancellations (requested.record (.published d .canceled ())) = cancellations w + 1 :=
    cancellations_record _ _
  rw [hsame]
  refine ⟨.trans ⟨rfl, fun _ => rfl⟩ hheld, ?_, hheld.canceled rfl⟩
  unfold CanceledDuring
  omega

theorem cancel_remembers (hpublish : Publishes Remembers d publish) :
    (cancel publish).Keeps (Remembers d) := by
  intro w hrunning
  obtain ⟨hheld, hcanceled, hrequested⟩ := cancel_requests hpublish hrunning
  exact ⟨hheld, Nat.le_of_lt hcanceled, fun _ => hrequested⟩

end Request

variable [Scalar α] [Numeral α]

theorem deliver_remembers (calls d : Nat) :
    Publishes Remembers d (Delivery.deliver (answer α μ) calls d) :=
  deliver_of_running remembers_frame (fun _ _ _ h hrunning => h hrunning hrunning)
    (fun _ _ hpublish => cancel_remembers hpublish) calls d

/-- A cancellation that is requested while an event of a run is delivered is not forgotten. -/
theorem requested_of_canceledDuring {calls d n : Nat} {c : Solver.Channel} {e : Solver.Payload α c}
    {w v : World (protocol α μ)} (hrunning : w.state.solver.running = true) (hc : c ≠ .canceled)
    (h : Delivery.deliver (answer α μ) calls d c e w = .ok n v) (hcanceled : CanceledDuring w v) :
    v.state.solver.cancelRequested = true := by
  have hremembers := deliver_remembers calls d c e w
  rw [Act.after_of_ok h] at hremembers
  obtain ⟨_, _, hrequested⟩ := hremembers hrunning
  refine hrequested ?_
  have hsilent : cancellations (w.record (.published d c e)) = cancellations w := by
    rw [cancellations_record, if_neg (by simpa [isCancellation] using hc), Nat.add_zero]
  unfold CanceledDuring
  rw [hsilent]
  exact hcanceled

theorem run_of_earlier {publish : Publish α μ} {fuel : Nat} {adaptive : Bool}
    {w : World (protocol α μ)} (requested : Bool) (hidle : w.state.solver.running = false) :
    run publish fuel adaptive
        (withSolver w { w.state.solver with cancelRequested := requested }) =
      run publish fuel adaptive w := by
  unfold run
  refine (Act.bind_of_ok rfl).trans (Eq.trans ?_ (Act.bind_of_ok rfl).symm)
  rw [if_neg (by simp [withSolver, hidle]), if_neg (by simp [hidle])]
  refine (Act.bind_of_ok rfl).trans (Eq.trans ?_ (Act.bind_of_ok rfl).symm)
  rfl

/-- How a run that began in one world and was canceled at its `k`-th step has left another. -/
structure EndedCanceled (d k : Nat) (t : Stage α μ) (w v : World (protocol α μ)) : Prop where
  size : t.points.length = k + 1
  status : v.state.solver.status = .canceled
  result : v.state.solver.result = t.points
  idle : v.state.solver.running = false
  steps : t.progress.length = k
  tells : Tells d w v (⟨.runStarted, w.state.solver.range⟩ :: t.progress.map progressEvent ++
    [⟨.canceled, ()⟩])
  uncompleted : ∀ new, v.history = new ++ w.history → ∀ j e, .published j .completed e ∉ new

/-- The points of a stage are those that every run with the same setup begins with, whoever listens
to it: one that gets to that stage, and one that was left alone until it finished. -/
structure Stage.Shared (adaptive : Bool) (k : Nat) (w : World (protocol α μ)) (t : Stage α μ) :
    Prop where
  stages : ∀ (publish : Publish α μ) (fuel : Nat) (w' : World (protocol α μ)) (t' : Stage α μ),
    Noted w.state.solver w'.state.solver → stage? publish fuel adaptive w' k = some t' →
      t'.points = t.points
  runs : ∀ (calls fuel d : Nat) (w' v : World (protocol α μ)) (points : List (Point α)),
    Noted w.state.solver w'.state.solver → w'.state.solver.running = false →
      run (Delivery.deliver (answer α μ) calls d) fuel adaptive w' = .ok (.ok points) v →
        v.state.solver.status ≠ .canceled → t.points = points.take (k + 1)

section Stages

variable {publish : Publish α μ} {calls fuel d k n : Nat} {adaptive : Bool} {t : Stage α μ}
  {w v : World (protocol α μ)}

theorem endedCanceled (hpublish : Publishes WhileRunning d publish)
    (h : stage? publish fuel adaptive w k = some t)
    (hended : publish .canceled () t.closing = .ok n v) :
    EndedCanceled d k t w (released v) := by
  obtain ⟨_, _, _, _, _, _, _, hpoints, _, hlength, hprogress⟩ := way_of_stage h
  obtain ⟨_, hrunning, htold⟩ := tells_of_stage hpublish h
  have hclosing : t.closing.state.solver.running = true := hrunning
  obtain ⟨hheld, hcanceled⟩ := tells_of_publish hpublish hclosing hended ⟨rfl, rfl⟩
  have hsilent : Tells d t.after t.closing [] := .of_same rfl
  have htells : Tells d w (released v)
      (⟨.runStarted, w.state.solver.range⟩ :: t.progress.map progressEvent ++ [⟨.canceled, ()⟩]) :=
    htold.trans (hsilent.trans hcanceled)
  refine ⟨?_, hheld.status, hheld.result, rfl, hprogress, htells, fun new hnew j e hmem => ?_⟩
  · rw [hpoints, List.length_cons, hlength]
  · rcases htells.mem_of_published hnew hmem with hmem | hc
    · simp [progressEvent] at hmem
    · cases hc

/-- A run with an answer that told of anything tells of no step after its last stage. -/
theorem stage_of_run {result : Result α (List (Point α))} (hidle : w.state.solver.running = false)
    (h : run (Delivery.deliver (answer α μ) calls d) fuel adaptive w = .ok result v)
    (htold : v.history ≠ w.history) :
    ∃ m t last, m < fuel ∧
      stage? (Delivery.deliver (answer α μ) calls d) fuel adaptive w m = some t ∧
        Tells d t.after v last ∧ ∀ p, progressEvent p ∉ last := by
  have hpublish : Publishes WhileRunning d (Delivery.deliver (answer α μ) calls d) :=
    deliver_keeps calls d
  obtain ⟨m, t, stop, u, ended, hm, hstage, haside, hconclude, rfl⟩ := last_of_run hidle h htold
  obtain ⟨_, hrunning, _⟩ := tells_of_stage hpublish hstage
  have hsilent : Tells d t.after u [] := .of_same haside.history
  have hrunning' : u.state.solver.running = true := by
    rw [haside.solver]
    exact hrunning
  obtain ⟨last, htells, hlast⟩ : ∃ last, Tells d u ended last ∧ ∀ p, progressEvent p ∉ last := by
    rcases conclude_ends hpublish hrunning' hconclude with
      ⟨_, _, _, htells, _⟩ | ⟨_, _, _, ⟨_, _, htells⟩ | ⟨_, _, htells⟩⟩
    all_goals exact ⟨_, htells, by simp [progressEvent]⟩
  exact ⟨m, t, last, hm, hstage, hsilent.trans htells, hlast⟩

/-- A run that is canceled while it tells of its start or of its `k`-th step ends there, whatever
the subscribers do besides. -/
theorem run_of_cancel (hidle : w.state.solver.running = false) :
    -- A request from before the run has no part in it.
    (∀ requested, run (Delivery.deliver (answer α μ) calls d) fuel adaptive
        (withSolver w { w.state.solver with cancelRequested := requested }) =
      run (Delivery.deliver (answer α μ) calls d) fuel adaptive w) ∧
    -- During a run its subscribers can begin no other.
    (∀ c e u, u.state.solver.running = true →
      Delivery.deliver (answer α μ) calls d c e u =
        Delivery.deliver (refusingRuns α μ) calls d c e u) ∧
    -- Each request for cancellation during a run is counted.
    (∀ tries calls' d' u, u.state.solver.running = true →
      CanceledDuring u
        ((answer α μ tries (Delivery.deliver (answer α μ) calls' d') .cancel).after u)) ∧
    -- A run goes from stage to stage.
    (∀ result v, run (Delivery.deliver (answer α μ) calls d) fuel adaptive w = .ok result v →
      v.history ≠ w.history → ∃ m t last, m < fuel ∧
        stage? (Delivery.deliver (answer α μ) calls d) fuel adaptive w m = some t ∧
          Tells d t.after v last ∧ ∀ p, progressEvent p ∉ last) ∧
    ∀ k t, k < fuel → stage? (Delivery.deliver (answer α μ) calls d) fuel adaptive w k = some t →
      CanceledDuring t.before t.after →
        t.before.state.solver.running = true ∧ t.Shared adaptive k w ∧
          ∀ n ended, Delivery.deliver (answer α μ) calls d .canceled () t.closing = .ok n ended →
            run (Delivery.deliver (answer α μ) calls d) fuel adaptive w =
                .ok (.ok t.points) (released ended) ∧
              EndedCanceled d k t w (released ended) := by
  have hpublish : Publishes WhileRunning d (Delivery.deliver (answer α μ) calls d) :=
    deliver_keeps calls d
  refine ⟨fun requested => run_of_earlier requested hidle, fun c e u hu => deliver_eq_of_running hu,
    fun tries calls' d' u hu => (cancel_requests (deliver_remembers calls' d') hu).2.1,
    fun result v hrun htold => stage_of_run hidle hrun htold, fun k t hfuel hstage hcanceled => ?_⟩
  obtain ⟨hbefore, hafter, _⟩ := tells_of_stage hpublish hstage
  obtain ⟨c, e, m, hc, hdelivered⟩ := delivery_of_stage hstage
  have hrequested : t.after.state.solver.cancelRequested = true :=
    requested_of_canceledDuring hbefore hc hdelivered hcanceled
  have hshared : t.Shared adaptive k w := by
    refine ⟨fun _ _ _ _ hnoted hstage' => points_of_stages hnoted hstage hstage', ?_⟩
    intro calls' fuel' d' w' v points hnoted hidle' hrun hstatus
    exact points_of_run hnoted hstage hidle' hrun hstatus
  refine ⟨hbefore, hshared, fun n ended hended => ⟨?_, endedCanceled hpublish hstage hended⟩⟩
  obtain ⟨steps, hsteps⟩ : ∃ steps, k + (steps + 1) = fuel := ⟨fuel - k - 1, by omega⟩
  rw [run_of_stage hidle hstage hsteps]
  unfold releasing
  rw [Stage.rest_of_requested hrequested hended]
  rfl

end Stages

/-- A session with a subscriber that cancels each run at the end of its range, and then asks for
another one. -/
def lateWorld : World (protocol Fraction Unit) :=
  steadyWorld.setBus .progress ((steadyWorld.hub .progress).subscribe fun p =>
    if Scalar.one ≤ p.x then .request .cancel fun _ => .request (.run false) fun _ => .done
    else .done)

theorem run_of_cancel_late : ∃ t ended,
    stage? (Delivery.deliver (answer Fraction Unit) 3 0) 20 false lateWorld 10 = some t ∧
      t.controller.finished = true ∧ CanceledDuring t.before t.after ∧
        run (Delivery.deliver (answer Fraction Unit) 3 0) 20 false lateWorld =
          .ok (.ok t.points) (released ended) ∧
        t.points.length = 11 ∧ ended.state.solver.status = .canceled := by
  have hidle : lateWorld.state.solver.running = false := by decide +kernel
  have hcomputed : (stage? (Delivery.deliver (answer Fraction Unit) 3 0) 20 false lateWorld 10).any
      (fun t => t.controller.finished && decide (CanceledDuring t.before t.after) &&
        (delivered? (Delivery.deliver (answer Fraction Unit) 3 0) .canceled () t.closing).isSome) =
      true := by decide +kernel
  obtain ⟨t, hstage, hcomputed⟩ := Option.any_eq_true _ _ |>.mp hcomputed
  simp only [Bool.and_eq_true, decide_eq_true_eq] at hcomputed
  obtain ⟨⟨hfinished, hcanceled⟩, hdelivered⟩ := hcomputed
  obtain ⟨ended, hended⟩ := Option.isSome_iff_exists.mp hdelivered
  obtain ⟨n, hended⟩ := delivered?_eq_some_iff.mp hended
  obtain ⟨_, _, _, _, hruns⟩ := @run_of_cancel Fraction Unit _ _ 3 20 0 false lateWorld hidle
  obtain ⟨_, _, hends⟩ := hruns 10 t (by decide) hstage hcanceled
  obtain ⟨hrun, hleft⟩ := hends n ended hended
  exact ⟨t, ended, hstage, hfinished, hcanceled, hrun, hleft.size, hleft.status⟩

end Session

end Trajectory
