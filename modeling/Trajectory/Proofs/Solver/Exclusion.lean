import Trajectory.Proofs.Number.Fraction
import Trajectory.Proofs.Solver.Along
import Trajectory.Proofs.Solver.Nested

namespace Trajectory

namespace Session

open Act (Alike)
open Delivery (deliver)

variable {α μ : Type}

def Result.error? {β : Type} : Result α β → Option (SolverError α)
  | .error e => some e
  | .ok _ => none

/-- The error that a request is answered with, if it is. -/
def error? : (q : Request α μ) → Answer q → Option (SolverError α)
  | .setEquations _, r | .setConditions _, r | .setRange .., r | .setTolerance .., r
  | .setStepBounds .., r | .setFactorBounds .., r | .setSafety _, r | .setNorm _, r
  | .run _, r | .save _, r | .applyTask _, r | .solveTask _, r => Result.error? r
  | _, _ => none

/-- The request is refused and leaves no trace but in what no run reads. -/
def Refused {β : Type} (act : Action α μ (Result α β)) (w : World (protocol α μ)) : Prop :=
  ∃ e v, act w = .ok (.error e) v ∧ Aside w v

theorem Refused.after_quiet {β γ : Type} {act : Action α μ β}
    {f : β → Action α μ (Result α γ)} {w : World (protocol α μ)} (hact : Quiet act)
    (hf : ∀ b v, Aside w v → Refused (f b) v) : Refused (act >>= f) w := by
  obtain ⟨b, u, hfirst, haside⟩ := hact w
  obtain ⟨e, v, hlater, haside'⟩ := hf b u haside
  exact ⟨e, v, (Act.bind_of_ok hfirst).trans hlater, haside.trans haside'⟩

variable [Scalar α] [Numeral α] {publish : Publish α μ} {fuel : Nat} {w : World (protocol α μ)}

omit [Numeral α] in
theorem refused_change {f : Solver α → Except (SolverError α) (Change α)} (hf : Setting f)
    (hw : InProgress w) : Refused (change publish f) w := by
  obtain ⟨e, he⟩ := change_of_inProgress hf hw
  exact ⟨e, w, he publish, rfl, rfl⟩

theorem refused_apply (t : Task α) (hw : InProgress w) : Refused (t.apply publish) w := by
  rw [t.apply_eq publish]
  refine .after_quiet (.forM quiet_changeLogSettings _) fun _ v haside => ?_
  obtain ⟨e, he⟩ := setEquations_of_inProgress t.equations (inProgress_kind.aside w v haside hw)
  exact ⟨e, v, Act.bind_of_ok (he publish), rfl, rfl⟩

theorem refused_solve (t : Task α) (hw : InProgress w) : Refused (t.solve publish fuel) w := by
  obtain ⟨e, v, happly, haside⟩ : Refused (t.apply publish) w := refused_apply t hw
  exact ⟨e, v, Act.bind_of_ok happly, haside⟩

theorem exclusive_of_inProgress (hw : InProgress w) {q : Request α μ} (hq : q.isExclusive = true) :
    ∃ a v e, answer α μ fuel publish q w = .ok a v ∧ error? q a = some e ∧ Aside w v := by
  have hrefused {β : Type} {act : Action α μ (Result α β)} (h : Refused act w) :
      ∃ a v e, act w = .ok a v ∧ Result.error? a = some e ∧ Aside w v := by
    obtain ⟨e, v, he, haside⟩ := h
    exact ⟨.error e, v, e, he, rfl, haside⟩
  have hsetting {f : Solver α → Except (SolverError α) (Change α)} (hf : Setting f) :
      ∃ a v e, change publish f w = .ok a v ∧ Result.error? a = some e ∧ Aside w v :=
    hrefused (refused_change hf hw)
  cases q with
  | setEquations sources =>
    obtain ⟨e, he⟩ := setEquations_of_inProgress sources hw
    exact ⟨.error e, w, e, he publish, rfl, rfl, rfl⟩
  | setConditions conditions => exact hsetting (.conditions conditions)
  | setRange arg start finish firstStep => exact hsetting (.range arg start finish firstStep)
  | setTolerance absolute relative => exact hsetting (.tolerance absolute relative)
  | setStepBounds minStep? maxStep? => exact hsetting (.stepControl _)
  | setFactorBounds minFactor maxFactor => exact hsetting (.stepControl _)
  | setSafety safety => exact hsetting (.stepControl _)
  | setNorm norm => exact hsetting (.stepControl _)
  | run adaptive => exact ⟨.error .busy, w, .busy, run_of_running hw, rfl, rfl, rfl⟩
  | applyTask task => exact hrefused (refused_apply task hw)
  | solveTask task => exact hrefused (refused_solve task hw)
  | _ => cases hq

omit [Numeral α] in
theorem ne_busy_of_change {f : Solver α → Except (SolverError α) (Change α)} (hf : Setting f)
    (hidle : w.state.solver.running = false) {r : Result α Unit} {v : World (protocol α μ)}
    (h : change publish f w = .ok r v) : r.error? ≠ some .busy := by
  cases hchange : f w.state.solver with
  | error e =>
    rw [change_of_error hchange] at h
    cases h
    intro hbusy
    cases hbusy
    exact hf.ne_busy hidle hchange
  | ok c =>
    rw [change_of_ok hchange] at h
    obtain ⟨_, _, _, h⟩ := Act.bind_eq_ok_iff.mp h
    cases h
    exact fun hbusy => by cases hbusy

theorem setting_of_idle (hidle : w.state.solver.running = false) {q : Request α μ}
    (hq : q.isSetting = true) {a : Answer q} {v : World (protocol α μ)}
    (h : answer α μ fuel publish q w = .ok a v) : error? q a ≠ some .busy := by
  cases q with
  | setEquations sources =>
    obtain ⟨_, _, hget, h⟩ := Act.bind_eq_ok_iff.mp h
    cases hget
    rw [if_pos (by simp [hidle])] at h
    obtain ⟨_, _, hlog, h⟩ := Act.bind_eq_ok_iff.mp h
    cases hlog
    exact ne_busy_of_change (.equations sources) (by exact hidle) h
  | setConditions conditions => exact ne_busy_of_change (.conditions conditions) hidle h
  | setRange arg start finish firstStep =>
    exact ne_busy_of_change (.range arg start finish firstStep) hidle h
  | setTolerance absolute relative => exact ne_busy_of_change (.tolerance absolute relative) hidle h
  | setStepBounds minStep? maxStep? => exact ne_busy_of_change (.stepControl _) hidle h
  | setFactorBounds minFactor maxFactor => exact ne_busy_of_change (.stepControl _) hidle h
  | setSafety safety => exact ne_busy_of_change (.stepControl _) hidle h
  | setNorm norm => exact ne_busy_of_change (.stepControl _) hidle h
  | _ => cases hq

/-- The settings that runs work on are the same. -/
structure SameSettings (s t : Solver α) : Prop where
  system : t.system? = s.system?
  conditions : t.conditions = s.conditions
  range : t.range = s.range
  tolerance : t.tolerance = s.tolerance

omit [Scalar α] [Numeral α] in
theorem Noted.sameSettings {s t : Solver α} (h : Noted s t) : SameSettings s t := by
  rw [h]
  exact ⟨rfl, rfl, rfl, rfl⟩

theorem run_alike_inProgress {answer' : Handler (protocol α μ)} (calls fuel d : Nat)
    (adaptive : Bool) (hidle : w.state.solver.running = false)
    (h : Handler.Same InProgress (answer α μ) answer') :
    Alike (fun v => Since w.state.solver v ∧ v.state.solver.running = false) w
      (run (deliver (answer α μ) calls d) fuel adaptive)
      (run (deliver answer' calls d) fuel adaptive) := by
  refine run_alike hidle fun t _ hrunning c e => ?_
  refine holding_agrees (deliver_keeps calls d) hrunning fun u hu => ?_
  exact (deliver_agrees h calls d c e u (hu.running.trans hrunning)).1

/-- A run has the solver to itself, whatever its subscribers request while events reach them. -/
theorem run_excludes (calls fuel d : Nat) (adaptive : Bool) (hidle : w.state.solver.running = false) :
    -- What would be answered while no run is in progress has no part in the run.
    (∀ answer', Handler.Same InProgress (answer α μ) answer' →
      run (deliver answer' calls d) fuel adaptive w =
        run (deliver (answer α μ) calls d) fuel adaptive w) ∧
    (∀ u : World (protocol α μ), InProgress u → ∀ tries publish,
      (∀ mode, answer α μ tries publish (.run mode) u = .ok (.error .busy) u) ∧
        ∀ q, q.isExclusive = true → ∃ a z e,
          answer α μ tries publish q u = .ok a z ∧ error? q a = some e ∧ Aside u z) ∧
    ∀ v, (run (deliver (answer α μ) calls d) fuel adaptive).after w = v →
      SameSettings w.state.solver v.state.solver ∧ v.state.solver.running = false ∧
        ∀ tries publish q a z, q.isSetting = true → answer α μ tries publish q v = .ok a z →
          error? q a ≠ some .busy := by
  refine ⟨fun answer' h => (run_alike_inProgress calls fuel d adaptive hidle h).1.symm,
    fun u hu tries publish => ?_, ?_⟩
  · exact ⟨fun mode => run_of_running hu, fun q hq => exclusive_of_inProgress hu hq⟩
  · rintro v rfl
    have hself : Handler.Same InProgress (answer α μ) (answer α μ) := fun _ _ _ _ _ => rfl
    obtain ⟨_, hafter, hreleased⟩ := run_alike_inProgress calls fuel d adaptive hidle hself
    refine ⟨hafter.noted.sameSettings, hreleased, fun tries publish q a z hq h => ?_⟩
    exact setting_of_idle hreleased hq h

/-- A session with a subscriber that asks for another run at each step of a run, and counts how often
it is refused, and with one that gives up after it has tried to set other equations. -/
def crowdedWorld : World (protocol Fraction Nat) :=
  let counting : Script (protocol Fraction Nat) :=
    .request .recall fun n =>
    .request (.run true) fun ran =>
    .request (.remember (if (Result.error? ran).isSome then n + 1 else n)) fun _ => .done
  let quitting : Script (protocol Fraction Nat) :=
    .request (.setEquations ["z' = 1"]) fun _ => .abort .other
  (perform 0 <|
    .request (.setEquations ["y' = 1"]) fun _ =>
    .request (.setConditions (.ofList [("y", Scalar.one)])) fun _ =>
    .subscribe .progress (fun _ => counting) fun _ =>
    .subscribe .completed (fun _ => quitting) fun _ => .done).after (newWorld {} 0)

theorem run_excludes_crowd : ∃ v,
    (run (deliver (answer Fraction Nat) 1 0) 20 false).after crowdedWorld = v ∧
      v.state.solver.status = .finished ∧ v.state.memory = 10 ∧ v.state.solver.running = false ∧
        SameSettings crowdedWorld.state.solver v.state.solver := by
  have hidle : crowdedWorld.state.solver.running = false := by decide +kernel
  obtain ⟨_, _, hafter⟩ :=
    run_excludes 1 20 0 false hidle
  obtain ⟨hsettings, hreleased, _⟩ := hafter _ rfl
  exact ⟨_, rfl, by decide +kernel, by decide +kernel, hreleased, hsettings⟩

end Session

end Trajectory
