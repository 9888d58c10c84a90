import Mathlib.Data.List.Forall2
import Trajectory.Proofs.Event.Keeps
import Trajectory.Proofs.Solver.Settings
import Trajectory.Solver.Answer

namespace Trajectory

namespace Task

open Session (Setting)

variable {α μ : Type} [Scalar α]

def conditionChanges (t : Task α) : List (Solver α → Except (SolverError α) (Change α)) :=
  if t.conditions.isEmpty then [] else [fun s => s.setConditions t.conditions]

def rangeChanges (r : Range α) : List (Solver α → Except (SolverError α) (Change α)) :=
  [fun s => s.setRange r.arg r.start r.finish r.firstStep]

def toleranceChanges (tol : Tolerance α) : List (Solver α → Except (SolverError α) (Change α)) :=
  [fun s => s.setTolerance tol.absolute tol.relative,
   fun s => s.setFactorBounds tol.minFactor tol.maxFactor,
   fun s => s.setSafety tol.safety,
   fun s => s.setStepBounds tol.minStep? tol.maxStep?,
   fun s => s.setNorm tol.norm]

def settingChanges (t : Task α) : List (Solver α → Except (SolverError α) (Change α)) :=
  t.range?.toList.flatMap rangeChanges ++ t.tolerance?.toList.flatMap toleranceChanges

theorem setting_of_conditionChanges {t : Task α}
    {f : Solver α → Except (SolverError α) (Change α)} (hf : f ∈ t.conditionChanges) :
    Setting f := by
  unfold conditionChanges at hf
  split at hf
  next => cases hf
  next =>
    obtain rfl := List.mem_singleton.mp hf
    exact .conditions t.conditions

theorem setting_of_settingChanges {t : Task α}
    {f : Solver α → Except (SolverError α) (Change α)} (hf : f ∈ t.settingChanges) :
    Setting f := by
  rcases List.mem_append.mp hf with hf | hf
  · obtain ⟨r, _, hf⟩ := List.mem_flatMap.mp hf
    obtain rfl := List.mem_singleton.mp hf
    exact .range r.arg r.start r.finish r.firstStep
  · obtain ⟨tol, _, hf⟩ := List.mem_flatMap.mp hf
    simp only [toleranceChanges, List.mem_cons, List.not_mem_nil, or_false] at hf
    rcases hf with rfl | rfl | rfl | rfl | rfl
    · exact .tolerance tol.absolute tol.relative
    all_goals exact .stepControl _

theorem laterSettings_eq (t : Task α) (publish : Session.Publish α μ) :
    conditionSettings publish t ++ settings publish t =
      (t.conditionChanges ++ t.settingChanges).map (Session.change publish) := by
  have hconditions : conditionSettings publish t = t.conditionChanges.map (Session.change publish) := by
    unfold conditionSettings conditionChanges
    split <;> rfl
  have hsettings : settings publish t = t.settingChanges.map (Session.change publish) := by
    unfold settings settingChanges
    cases t.range? <;> cases t.tolerance? <;> rfl
  rw [hconditions, hsettings, List.map_append]

theorem setting_of_laterChanges {t : Task α} {f : Solver α → Except (SolverError α) (Change α)}
    (hf : f ∈ t.conditionChanges ++ t.settingChanges) : Setting f :=
  (List.mem_append.mp hf).elim setting_of_conditionChanges setting_of_settingChanges

def logChanges (t : Task α) : List (LogSettings → LogSettings) :=
  (t.logLevel?.toList.map fun level settings => { settings with level }) ++
    t.logFile?.toList.map fun file settings => { settings with file? := some file }

/-- A task is applied as its changes, those of the log and the equations first. -/
theorem apply_eq [Numeral α] (t : Task α) (publish : Session.Publish α μ) :
    t.apply publish = (t.logChanges.forM Session.changeLogSettings >>= fun _ =>
      inOrder (Session.setEquations publish t.equations ::
        (t.conditionChanges ++ t.settingChanges).map (Session.change publish))) := by
  rw [← laterSettings_eq, ← List.cons_append]
  unfold apply logChanges Session.setLogLevel Session.setLogFile
  cases t.logLevel? <;> cases t.logFile? <;> simp

end Task

namespace Session

variable {α μ : Type}

def Request.isSetting : Request α μ → Bool
  | .setEquations _ | .setConditions _ | .setRange .. | .setTolerance .. | .setStepBounds ..
  | .setFactorBounds .. | .setSafety _ | .setNorm _ => true
  | _ => false

/-- The requests that change the settings or begin a run. -/
def Request.isExclusive : Request α μ → Bool
  | .run _ | .applyTask _ | .solveTask _ => true
  | q => q.isSetting

def withSolver (w : World (protocol α μ)) (s : Solver α) : World (protocol α μ) :=
  { w with state := { w.state with solver := s } }

def flushed (w : World (protocol α μ)) : World (protocol α μ) :=
  { w with state :=
    { w.state with files := filesIn w, logging := w.state.logging.flushed w.log } }

theorem flushLog_eq (w : World (protocol α μ)) : flushLog w = .ok (filesIn w) (flushed w) := rfl

theorem change_of_error {publish : Publish α μ} {f : Solver α → Except (SolverError α) (Change α)}
    {w : World (protocol α μ)} {e : SolverError α} (h : f w.state.solver = .error e) :
    change publish f w = .ok (.error e) w := by
  refine Act.bind_eq_ok_iff.mpr ⟨w.state.solver, w, rfl, ?_⟩
  rw [h]
  rfl

theorem change_of_ok {publish : Publish α μ} {f : Solver α → Except (SolverError α) (Change α)}
    {w : World (protocol α μ)} {c : Change α} (h : f w.state.solver = .ok c) :
    change publish f w = (publish c.event.channel c.event.payload >>= fun _ =>
      pure (.ok ()) : Action α μ (Result α Unit)) (withSolver w c.solver) := by
  have hget : (getSolver : Action α μ (Solver α)) w = .ok w.state.solver w := rfl
  refine (Act.bind_of_ok hget).trans ?_
  rw [h]
  rfl

/-- The second world differs from the first one at most in what no run reads: logs, files,
complaints, the memory and the subscribers. -/
structure Aside (w v : World (protocol α μ)) : Prop where
  solver : v.state.solver = { w.state.solver with logSettings := v.state.solver.logSettings }
  history : v.history = w.history

theorem Aside.trans {u v w : World (protocol α μ)} (huv : Aside u v) (hvw : Aside v w) :
    Aside u w := by
  refine ⟨?_, hvw.history.trans huv.history⟩
  have hw := hvw.solver
  rw [huv.solver] at hw
  exact hw

/-- The action has an answer and leaves no trace but in what no run reads. -/
def Quiet {β : Type} (act : Action α μ β) : Prop := ∀ w, ∃ b v, act w = .ok b v ∧ Aside w v

section Quiet

variable {β γ : Type}

theorem Quiet.aside {act : Action α μ β} (h : Quiet act) (w : World (protocol α μ)) :
    Aside w (act.after w) := by
  obtain ⟨b, v, hact, haside⟩ := h w
  rw [Act.after_of_ok hact]
  exact haside

theorem Quiet.pure (b : β) : Quiet (Pure.pure b : Action α μ β) := fun w => ⟨b, w, rfl, rfl, rfl⟩

theorem Quiet.bind {act : Action α μ β} {f : β → Action α μ γ} (hact : Quiet act)
    (hf : ∀ b, Quiet (f b)) : Quiet (act >>= f) := by
  intro w
  obtain ⟨b, u, hfirst, haside⟩ := hact w
  obtain ⟨c, v, hlater, haside'⟩ := hf b u
  exact ⟨c, v, (Act.bind_of_ok hfirst).trans hlater, haside.trans haside'⟩

theorem Quiet.forM {δ : Type} {f : δ → Action α μ PUnit} (h : ∀ d, Quiet (f d)) (l : List δ) :
    Quiet (l.forM f) := by
  induction l with
  | nil => exact .pure _
  | cons d l ih => exact .bind (h d) fun _ => ih

theorem quiet_flushLog : Quiet (flushLog : Action α μ FileTree) :=
  fun w => ⟨_, flushed w, flushLog_eq w, rfl, rfl⟩

theorem quiet_createLogFile (settings : LogSettings) :
    Quiet (createLogFile (α := α) (μ := μ) settings) := by
  unfold createLogFile
  split
  next => exact .pure none
  next file _ =>
    refine .bind quiet_flushLog fun files => ?_
    split
    next => exact .bind (fun w => ⟨_, _, rfl, rfl, rfl⟩) fun _ => .pure _
    next => exact .bind (fun w => ⟨_, _, rfl, rfl, rfl⟩) fun _ => .pure none

theorem quiet_changeLogSettings (f : LogSettings → LogSettings) :
    Quiet (changeLogSettings (α := α) (μ := μ) f) := by
  refine .bind (fun w => ⟨_, _, rfl, rfl, rfl⟩) fun _ => ?_
  refine .bind (fun w => ⟨_, w, rfl, rfl, rfl⟩) fun s => ?_
  refine .bind (quiet_createLogFile s.logSettings) fun location? => ?_
  split
  · exact fun w => ⟨_, _, rfl, rfl, rfl⟩
  · split
    · exact fun w => ⟨_, _, rfl, rfl, rfl⟩
    · exact .pure ()

theorem quiet_save [Numeral α] (file : String) : Quiet (save (α := α) (μ := μ) file) := by
  refine .bind quiet_flushLog fun files => ?_
  refine .bind (fun w => ⟨_, w, rfl, rfl, rfl⟩) fun s => ?_
  split
  next => exact .pure _
  next =>
    refine .bind (fun w => ⟨_, _, rfl, rfl, rfl⟩) fun _ => ?_
    exact .bind (fun w => ⟨_, _, rfl, rfl, rfl⟩) fun _ => .pure _

theorem quiet_clearEvents (channels : List Solver.Channel) :
    Quiet (clearEvents (α := α) (μ := μ) channels) := by
  induction channels with
  | nil => exact .pure ()
  | cons c channels ih => exact .bind (fun w => ⟨_, _, rfl, rfl, rfl⟩) fun _ => ih

theorem quiet_answer [Scalar α] [Numeral α] (fuel : Nat) (publish : Publish α μ) {q : Request α μ}
    (hq : q.isExclusive = false) (hcancel : q ≠ .cancel) : Quiet (answer α μ fuel publish q) := by
  cases q with
  | cancel => exact absurd rfl hcancel
  | save file => exact quiet_save file
  | setLogLevel level => exact quiet_changeLogSettings fun settings => { settings with level }
  | setConsoleLogging toConsole =>
    exact quiet_changeLogSettings fun settings => { settings with toConsole }
  | setLogFile file =>
    exact quiet_changeLogSettings fun settings => { settings with file? := some file }
  | clearEvents => exact quiet_clearEvents _
  | setEquations | setConditions | setRange | setTolerance | setStepBounds | setFactorBounds
  | setSafety | setNorm | run | applyTask | solveTask => cases hq
  | _ => exact fun w => ⟨_, _, rfl, rfl, rfl⟩

end Quiet

/-- A relation between actions that goes through sequences, and that takes quiet actions to themselves. -/
structure Composed (Q : (β : Type) → Action α μ β → Action α μ β → Prop) : Prop where
  bind {β γ : Type} {act act' : Action α μ β} {f f' : β → Action α μ γ} :
    Q β act act' → (∀ b, Q γ (f b) (f' b)) → Q γ (act >>= f) (act' >>= f')
  quiet {β : Type} {act : Action α μ β} : Quiet act → Q β act act

namespace Composed

variable {Q : (β : Type) → Action α μ β → Action α μ β → Prop} {fuel : Nat}

theorem pure (hQ : Composed Q) {β : Type} (b : β) : Q β (Pure.pure b) (Pure.pure b) :=
  hQ.quiet (.pure b)

theorem inOrder (hQ : Composed Q) {acts acts' : List (Action α μ (Result α Unit))}
    (h : List.Forall₂ (Q _) acts acts') : Q _ (Task.inOrder acts) (Task.inOrder acts') := by
  induction h with
  | nil => exact hQ.pure _
  | cons hact _ ih =>
    refine hQ.bind hact fun done => ?_
    cases done with
    | error e => exact hQ.pure _
    | ok _ => exact ih

variable [Scalar α] [Numeral α] (publish publish' : Publish α μ)
  (hsetting : ∀ f : Solver α → Except (SolverError α) (Change α), Setting f →
    Q _ (change publish f) (change publish' f))
  (hrun : ∀ adaptive, Q _ (run publish fuel adaptive) (run publish' fuel adaptive))

include hsetting

theorem setEquations (hQ : Composed Q) (sources : List String) :
    Q _ (setEquations publish sources) (setEquations publish' sources) := by
  have hchange := hsetting _ (.equations sources)
  refine hQ.bind (hQ.quiet fun w => ⟨_, w, rfl, rfl, rfl⟩) fun s => ?_
  dsimp only
  split
  · exact hQ.bind (hQ.quiet fun w => ⟨_, _, rfl, rfl, rfl⟩) fun _ => hchange
  · exact hchange

theorem apply (hQ : Composed Q) (t : Task α) : Q _ (t.apply publish) (t.apply publish') := by
  rw [t.apply_eq publish, t.apply_eq publish']
  refine hQ.bind (hQ.quiet (.forM quiet_changeLogSettings _)) fun _ => hQ.inOrder ?_
  refine .cons (hQ.setEquations publish publish' hsetting t.equations) ?_
  refine List.forall₂_map_left_iff.mpr (List.forall₂_map_right_iff.mpr ?_)
  exact List.forall₂_same.mpr fun f hf => hsetting f (Task.setting_of_laterChanges hf)

include hrun

theorem solve (hQ : Composed Q) (t : Task α) :
    Q _ (t.solve publish fuel) (t.solve publish' fuel) := by
  refine hQ.bind (hQ.apply publish publish' hsetting t) fun applied => ?_
  cases applied with
  | error e => exact hQ.pure _
  | ok _ =>
    refine hQ.bind (hrun t.adaptive) fun ran => ?_
    cases ran with
    | error e => exact hQ.pure _
    | ok points =>
      cases t.csv? with
      | none => exact hQ.pure _
      | some file =>
        refine hQ.bind (hQ.quiet (quiet_save file)) fun saved => ?_
        cases saved with
        | error e => exact hQ.pure _
        | ok _ => exact hQ.pure _

theorem answer (hQ : Composed Q) (hcancel : Q _ (cancel publish) (cancel publish'))
    (q : Request α μ) : Q _ (answer α μ fuel publish q) (answer α μ fuel publish' q) := by
  cases q with
  | setEquations sources => exact hQ.setEquations publish publish' hsetting sources
  | setConditions conditions => exact hsetting _ (.conditions conditions)
  | setRange arg start finish firstStep => exact hsetting _ (.range arg start finish firstStep)
  | setTolerance absolute relative => exact hsetting _ (.tolerance absolute relative)
  | setStepBounds minStep? maxStep? => exact hsetting _ (.stepControl _)
  | setFactorBounds minFactor maxFactor => exact hsetting _ (.stepControl _)
  | setSafety safety => exact hsetting _ (.stepControl _)
  | setNorm norm => exact hsetting _ (.stepControl _)
  | run adaptive => exact hrun adaptive
  | cancel => exact hcancel
  | applyTask task => exact hQ.apply publish publish' hsetting task
  | solveTask task => exact hQ.solve publish publish' hsetting hrun task
  | _ => exact hQ.quiet (quiet_answer fuel publish rfl nofun)

end Composed

end Session

end Trajectory
