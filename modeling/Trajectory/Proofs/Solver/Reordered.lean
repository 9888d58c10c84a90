import Trajectory.Proofs.Solver.Noninterference
import Trajectory.Proofs.Solver.Returning
import Trajectory.Proofs.Stepper.Reordered

namespace Trajectory

open OdeSystem (Shared)
open Scalar (Exact Faithful one)

variable {α : Type}

namespace Solver

/-- Solvers with the same settings, apart from the order of their equations. -/
structure Resorted (s s' : OdeSystem α) (t t' : Solver α) : Prop where
  system : t.system? = some s
  system' : t'.system? = some s'
  range : t'.range = t.range
  tolerance : t'.tolerance = t.tolerance
  conditions : ∀ name ∈ s.names, t'.conditions.get? name = t.conditions.get? name
  running : t'.running = t.running

variable {s s' : OdeSystem α} {t t' : Solver α}

theorem Resorted.missing (h : Resorted s s' t t') (hs : s.Reordered s') :
    (t.missing s.names).Perm (t'.missing s'.names) := by
  have hsame : t.missing s.names = t'.missing s.names :=
    List.filter_congr fun name hname => by rw [h.conditions name hname]
  rw [hsame]
  exact hs.names.filter _

variable [Scalar α]

/-- What the first check of a run comes to. -/
inductive Examined (t t' : Solver α) : Prop
  | setup {setup setup' : Setup α} (prepare : t.prepare = .ok setup)
      (prepare' : t'.prepare = .ok setup')
  | fault {fault fault' : ConfigurationFault α} (prepare : t.prepare = .error fault)
      (prepare' : t'.prepare = .error fault')
      (alike : SolverError.Alike (.configuration fault) (.configuration fault'))

/-- The checks of a run that look at no condition. -/
def checkSettings (r : Range α) (t : Tolerance α) (taken : Bool) :
    Except (ConfigurationFault α) Unit := do
  checkFirstStep r
  if taken then throw (.argumentTaken r.arg)
  t.validate.mapError .tolerance
  (Tolerance.checkSteps t.minStep (t.maxStep r)).mapError .tolerance

theorem prepare_eq (h : t.system? = some s) : t.prepare = (do
    checkSettings t.range t.tolerance (s.names.contains t.range.arg)
    if !(t.missing s.names).isEmpty then throw (.missing (t.missing s.names))
    pure ⟨s, t.range, t.tolerance, s.names.filterMap t.conditions.get?⟩) := by
  unfold prepare checkSettings
  rw [h]
  dsimp only
  cases checkFirstStep t.range with
  | error fault => rfl
  | ok =>
    cases s.names.contains t.range.arg with
    | true => rfl
    | false =>
      cases t.tolerance.validate with
      | error fault => rfl
      | ok =>
        cases Tolerance.checkSteps t.tolerance.minStep (t.tolerance.maxStep t.range) with
        | error fault => rfl
        | ok => rfl

theorem Resorted.examined (h : Resorted s s' t t') (hs : s.Reordered s') : Examined t t' := by
  have hprepare := prepare_eq h.system
  have hprepare' := prepare_eq h.system'
  have hmissing := h.missing hs
  rw [h.range, h.tolerance, ← hs.names.contains_eq, ← hmissing.isEmpty_eq] at hprepare'
  cases hchecks : checkSettings t.range t.tolerance (s.names.contains t.range.arg) with
  | error fault =>
    rw [hchecks] at hprepare hprepare'
    exact .fault hprepare hprepare' (.same _)
  | ok =>
    rw [hchecks] at hprepare hprepare'
    cases hnone : (t.missing s.names).isEmpty with
    | true =>
      rw [hnone] at hprepare hprepare'
      exact .setup hprepare hprepare'
    | false =>
      rw [hnone] at hprepare hprepare'
      exact .fault hprepare hprepare' (.missing hmissing)

end Solver

namespace Controller

theorem Mirrors.agree {c c' : Controller α} (h : c.Mirrors c') {p p' : Point α}
    (hpoint : Session.pointAt c = .ok p) (hpoint' : Session.pointAt c' = .ok p') :
    p.Agree c.system.baseNames p' :=
  agree_of_shared h.reordered.subsystem h.place.1 h.argument h.place.2.1 h.shared hpoint hpoint'

end Controller

namespace Session

open Controller (PowerShrinks)
open Delivery (deliver)
open Delivery.Frame (Publishes)

variable {μ μ' : Type}

variable [Scalar α] [Exact α] [Faithful α]

/-- The steps of two runs whose controllers are alike come to the same, if none of them is canceled. -/
theorem Steps.mirror {publish : Publish α μ} {publish' : Publish α μ'} {d d' tries tries' : Nat}
    {c c' last last' : Controller α} {error? error?' : Option (SolverError α)}
    {points points' : List (Point α)} {w v : World (protocol α μ)} {w' v' : World (protocol α μ')}
    (hpublish : Publishes WhileRunning d publish) (hpublish' : Publishes WhileRunning d' publish')
    (hrunning : w.state.solver.running = true) (hrunning' : w'.state.solver.running = true)
    (hc : c.Mirrors c') (h : Steps publish tries c w last error? points v)
    (h' : Steps publish' tries' c' w' last' error?' points' v')
    (hend : error? = none → last.finished = true) (hend' : error?' = none → last'.finished = true) :
    last.Mirrors last' ∧ Option.Rel SolverError.Alike error? error?' ∧
      List.Forall₂ (Point.Agree c.system.baseNames) points points' ∧
        ∃ progress : List (Solver.Progress α), Tells d w v (progress.map progressEvent) ∧
          Tells d' w' v' (progress.map progressEvent) := by
  induction h generalizing c' w' points' with
  | @stop c w hstop =>
    have hfinished : c'.finished = true := hc.finished.trans (hend rfl)
    cases h' with
    | stop => exact ⟨hc, .none, .nil, [], .of_same rfl, .of_same rfl⟩
    | failure hgo => cases hfinished.symm.trans (finished_of_stops hgo)
    | step hgo => cases hfinished.symm.trans (finished_of_stops hgo)
  | @failure c w u e hgo haside houtcome =>
    have hgo' : c'.finished = false := hc.finished.trans (finished_of_stops hgo)
    cases h' with
    | stop => cases hgo'.symm.trans (hend' rfl)
    | failure _ haside' houtcome' =>
      obtain ⟨hlast, _, hf', halike⟩ := hc.failure_of_ends houtcome houtcome' nofun
      cases hf'
      cases halike with
      | cause halike =>
        exact ⟨hlast, .some halike, .nil, [], .of_same haside.history, .of_same haside'.history⟩
    | step _ _ houtcome' =>
      obtain ⟨_, _, hf', _⟩ := hc.failure_of_ends houtcome houtcome' nofun
      cases hf'
  | @step c last w u v z s point n error? points hgo haside houtcome hpoint htell _ ih =>
    have hgo' : c'.finished = false := hc.finished.trans (finished_of_stops hgo)
    cases h' with
    | stop => cases hgo'.symm.trans (hend' rfl)
    | failure _ _ houtcome' =>
      obtain ⟨_, hstep⟩ := hc.step_of_ends houtcome houtcome' nofun
      cases hstep
    | step _ haside' houtcome' hpoint' htell' hlater' =>
      obtain ⟨hnext, hstep⟩ := hc.step_of_ends houtcome houtcome' nofun
      cases hstep
      obtain ⟨hheld, htells⟩ := tells_of_publish hpublish hrunning htell haside
      obtain ⟨hheld', htells'⟩ := tells_of_publish hpublish' hrunning' htell' haside'
      obtain ⟨hlast, herror, hpoints, progress, hprogress, hprogress'⟩ :=
        ih (hheld.running.trans hrunning) (hheld'.running.trans hrunning') hnext hlater' hend
      have hagree := hnext.agree hpoint hpoint'
      rw [(c.moves_advance tries).system] at hagree hpoints
      exact ⟨hlast, herror, .cons hagree hpoints, progressOf s :: progress,
        htells.trans hprogress, htells'.trans hprogress'⟩

variable {s s' : OdeSystem α} {t t' : Solver α}

omit [Faithful α] in
theorem exists_mirrors {setup setup' : Setup α} (h : Solver.Resorted s s' t t') (hs : s.Reordered s')
    (hprepared : Solver.Prepared t setup) (hprepared' : Solver.Prepared t' setup') :
    ∃ c c', Controller.start setup.system setup.range setup.tolerance setup.y true = .ok c ∧
      Controller.start setup'.system setup'.range setup'.tolerance setup'.y true = .ok c' ∧
        c.Mirrors c' ∧ c.system = s := by
  obtain rfl : setup.system = s := Option.some.inj (hprepared.system.symm.trans h.system)
  obtain rfl : setup'.system = s' := Option.some.inj (hprepared'.system.symm.trans h.system')
  have hy : Shared setup.system setup'.system setup.y setup'.y := by
    refine ⟨hprepared.size, hprepared'.size, fun v hv => ?_⟩
    rw [hprepared.slot hv, hprepared'.slot (hs.vars.mem_iff.mp hv),
      h.conditions _ (List.mem_map_of_mem hv)]
  obtain ⟨size, hstart⟩ := Controller.exists_size hprepared.validated hprepared.steps
  rw [hprepared.range, hprepared.tolerance, hprepared'.range, hprepared'.tolerance, h.range,
    h.tolerance]
  exact ⟨_, _, hstart _ _ hprepared.size, hstart _ _ hprepared'.size,
    .intro rfl hs hprepared.argument hy, rfl⟩

variable [Numeral α]

/-- How a run that was not canceled concludes: with the error of its last step, or at the end of its
range. -/
inductive Closed (d : Nat) (stop : Stop α) (stepped v : World (protocol α μ)) :
    Result α (List (Point α)) → Prop
  | failed {e : SolverError α} (error : stop.error? = some e) : Closed d stop stepped v (.error e)
  | finished (error : stop.error? = none) (finished : stop.controller.finished = true)
      (tells : Tells d stepped v [⟨.completed, stop.points⟩]) :
      Closed d stop stepped v (.ok stop.points)

omit [Exact α] [Faithful α] [Numeral α] in
theorem Closed.of_error {d : Nat} {stop : Stop α} {stepped v : World (protocol α μ)}
    {result : Result α (List (Point α))} (h : Closed d stop stepped v result)
    (hnone : stop.error? = none) : stop.controller.finished = true := by
  cases h with
  | failed herror => cases hnone.symm.trans herror
  | finished _ hfinished => exact hfinished

/-- A run past its checks that was not canceled. -/
inductive Course (publish : Publish α μ) (fuel d : Nat) (w v : World (protocol α μ)) (setup : Setup α)
    (c : Controller α) (result : Result α (List (Point α))) : Prop
  | intro {point : Point α} {stop : Stop α} {n : Nat} {told stepped : World (protocol α μ)}
      (place : pointAt c = .ok point)
      (tell : publish .runStarted setup.range (begun w setup true) = .ok n told)
      (through : stepThrough publish fuel fuel c [point] told = .ok stop stepped)
      (closed : Closed d stop stepped v result) : Course publish fuel d w v setup c result

omit [Exact α] [Faithful α] in
theorem course_of_run {calls fuel d : Nat} {w v : World (protocol α μ)} {setup : Setup α}
    {c : Controller α} {result : Result α (List (Point α))} (hidle : w.state.solver.running = false)
    (hprepare : w.state.solver.prepare = .ok setup)
    (hstart : Controller.start setup.system setup.range setup.tolerance setup.y true = .ok c)
    (h : run (deliver (answer α μ) calls d) fuel true w = .ok result v)
    (huncanceled : Uncanceled result v) :
    Course (deliver (answer α μ) calls d) fuel d w v setup c result := by
  have hpublish : Publishes WhileRunning d (deliver (answer α μ) calls d) := deliver_keeps calls d
  rw [run_of_idle hidle, hprepare] at h
  obtain ⟨ended, hsetup, hreleased⟩ := of_releasing h
  obtain ⟨point, stop, n, told, stepped, hpoint, htell, hthrough, hconclude⟩ :=
    opened_of_setup rfl hstart hsetup
  obtain ⟨later, _, hsteps⟩ := steps_of_stepThrough hthrough
  obtain ⟨hheld, _⟩ := tells_of_steps hpublish rfl htell hsteps
  refine .intro hpoint htell hthrough ?_
  rcases conclude_ends hpublish hheld.running hconclude with
    ⟨e, herror, hresult, _⟩ | ⟨hresult, herror, _, ⟨hflag, _, htells⟩ | ⟨_, hstatus, _⟩⟩
  · rw [hresult]
    exact .failed herror
  · rw [herror] at hsteps
    have hend : stop.controller.finished = true := by simpa [stops, hflag] using hsteps.way.2
    rw [hresult, hreleased]
    exact .finished herror hend htells
  · refine absurd ?_ (huncanceled _ hresult)
    rw [hreleased]
    exact hstatus

/-- The controller with which an adaptive run went over points to the end of its range. -/
def Covers (t : Solver α) (points : List (Point α)) (last : Controller α) : Prop :=
  ∃ setup c point later, t.prepare = .ok setup ∧
    Controller.start setup.system setup.range setup.tolerance setup.y true = .ok c ∧
      pointAt c = .ok point ∧ points = point :: later ∧ Way c later last ∧ last.finished = true

/-- Two runs that have come to the same: to points that agree, of which the same was told after as many
accepted and rejected steps, or to errors of one kind. -/
inductive Corresponds (d d' : Nat) (names : List String) (w v : World (protocol α μ))
    (w' v' : World (protocol α μ')) :
    Result α (List (Point α)) → Result α (List (Point α)) → Prop
  | points {points points' : List (Point α)} {progress : List (Solver.Progress α)}
      {last last' : Controller α} (agree : List.Forall₂ (Point.Agree names) points points')
      (tells : Tells d w v (⟨.runStarted, w.state.solver.range⟩ :: progress.map progressEvent ++
        [⟨.completed, points⟩]))
      (tells' : Tells d' w' v' (⟨.runStarted, w'.state.solver.range⟩ :: progress.map progressEvent ++
        [⟨.completed, points'⟩]))
      (covers : Covers w.state.solver points last) (covers' : Covers w'.state.solver points' last')
      (accepted : last'.accepted = last.accepted) (rejected : last'.rejected = last.rejected) :
      Corresponds d d' names w v w' v' (.ok points) (.ok points')
  | error {e e' : SolverError α} (alike : e.Alike e') :
      Corresponds d d' names w v w' v' (.error e) (.error e')

section Courses

variable {calls calls' fuel fuel' d d' : Nat} {w v : World (protocol α μ)}
  {w' v' : World (protocol α μ')} {setup setup' : Setup α} {c c' : Controller α}
  {result result' : Result α (List (Point α))}

theorem Course.mirror (hc : c.Mirrors c') (hprepare : w.state.solver.prepare = .ok setup)
    (hprepare' : w'.state.solver.prepare = .ok setup')
    (hstart : Controller.start setup.system setup.range setup.tolerance setup.y true = .ok c)
    (hstart' : Controller.start setup'.system setup'.range setup'.tolerance setup'.y true = .ok c')
    (h : Course (deliver (answer α μ) calls d) fuel d w v setup c result)
    (h' : Course (deliver (answer α μ') calls' d') fuel' d' w' v' setup' c' result') :
    Corresponds d d' c.system.baseNames w v w' v' result result' := by
  have hpublish : Publishes WhileRunning d (deliver (answer α μ) calls d) := deliver_keeps calls d
  have hpublish' : Publishes WhileRunning d' (deliver (answer α μ') calls' d') :=
    deliver_keeps calls' d'
  obtain ⟨hplace, htell, hthrough, hclosed⟩ := h
  obtain ⟨hplace', htell', hthrough', hclosed'⟩ := h'
  obtain ⟨later, hpoints, hsteps⟩ := steps_of_stepThrough hthrough
  obtain ⟨later', hpoints', hsteps'⟩ := steps_of_stepThrough hthrough'
  obtain ⟨hheld, htold⟩ := tells_of_publish hpublish rfl htell ⟨rfl, rfl⟩
  obtain ⟨hheld', htold'⟩ := tells_of_publish hpublish' rfl htell' ⟨rfl, rfl⟩
  obtain ⟨hlast, herrors, hagree, progress, hprogress, hprogress'⟩ :=
    hsteps.mirror hpublish hpublish' hheld.running hheld'.running hc hsteps' hclosed.of_error
      hclosed'.of_error
  cases hclosed with
  | failed herror =>
    cases hclosed' with
    | failed herror' =>
      rw [herror, herror'] at herrors
      cases herrors with
      | some halike => exact .error halike
    | finished herror' =>
      rw [herror, herror'] at herrors
      cases herrors
  | finished herror hfinished htells =>
    cases hclosed' with
    | failed herror' =>
      rw [herror, herror'] at herrors
      cases herrors
    | finished herror' hfinished' htells' =>
      rw [herror] at hsteps
      rw [herror'] at hsteps'
      have hrange := (Solver.prepared_of_prepare hprepare).range
      have hrange' := (Solver.prepared_of_prepare hprepare').range
      have hall := (htold.trans hprogress).trans htells
      have hall' := (htold'.trans hprogress').trans htells'
      rw [hrange] at hall
      rw [hrange'] at hall'
      refine .points ?_ hall hall' ⟨setup, c, _, later, hprepare, hstart, hplace, hpoints,
        hsteps.way.1, hfinished⟩ ⟨setup', c', _, later', hprepare', hstart', hplace', hpoints',
          hsteps'.way.1, hfinished'⟩ hlast.place.2.2.1 hlast.place.2.2.2
      rw [hpoints, hpoints']
      exact .cons (hc.agree hplace hplace') hagree

theorem returns_of_stepThrough {publish : Publish α μ} {tries steps : Nat} {points : List (Point α)}
    {stop : Stop α} (hc : c.Mirrors c') (h : stepThrough publish tries steps c points w = .ok stop v)
    (hend : stop.error? = none → stop.controller.finished = true) :
    Returns μ' calls' d' tries steps c' := by
  induction steps generalizing c c' points w with
  | zero => cases h
  | succ steps ih =>
    cases onward_of_stepThrough h with
    | stop _ hat =>
      rw [hat] at hend
      exact .of_finished (hc.finished.trans (hend rfl))
    | failure hgo houtcome =>
      obtain ⟨_, f', hf', halike⟩ := hc.of_failure houtcome
      cases halike with
      | cause halike => exact .of_failure (hc.finished.trans (finished_of_stops hgo)) hf'
    | step hgo houtcome _ _ hlater =>
      obtain ⟨hnext, hstep⟩ := hc.of_step houtcome
      exact .of_step (hc.finished.trans (finished_of_stops hgo)) hstep (ih hnext hlater)

end Courses

/-- Sessions whose adaptive runs come to the same, unless one of them is canceled. Where nobody is told
of the second run, it returns if the first one does. -/
structure RunsAlike (names : List String) (w : World (protocol α μ)) (w' : World (protocol α μ')) :
    Prop where
  correspond : ∀ {calls calls' fuel fuel' d d' result result' v v'},
    run (deliver (answer α μ) calls d) fuel true w = .ok result v →
    run (deliver (answer α μ') calls' d') fuel' true w' = .ok result' v' →
    Uncanceled result v → Uncanceled result' v' → Corresponds d d' names w v w' v' result result'
  returns : Deserted w' → ∀ {calls fuel d result v},
    run (deliver (answer α μ) calls d) fuel true w = .ok result v → Uncanceled result v →
    ∀ calls' d', ∃ result' v', run (deliver (answer α μ') calls' d') fuel true w' = .ok result' v' ∧
      Uncanceled result' v'

section Sessions

variable {names : List String} {w : World (protocol α μ)} {w' : World (protocol α μ')}

omit [Exact α] [Faithful α] in
theorem RunsAlike.of_errors {e e' : SolverError α} (halike : e.Alike e')
    (h : ∀ calls fuel d, ∃ v, run (deliver (answer α μ) calls d) fuel true w = .ok (.error e) v)
    (h' : ∀ calls fuel d, ∃ v, run (deliver (answer α μ') calls d) fuel true w' = .ok (.error e') v) :
    RunsAlike names w w' where
  correspond {calls calls' fuel fuel' d d'} _ _ _ _ hrun hrun' _ _ := by
    obtain ⟨v, hv⟩ := h calls fuel d
    obtain ⟨v', hv'⟩ := h' calls' fuel' d'
    cases hv.symm.trans hrun
    cases hv'.symm.trans hrun'
    exact .error halike
  returns _ _ fuel _ _ _ _ _ calls' d' := by
    obtain ⟨v', hv'⟩ := h' calls' fuel d'
    exact ⟨_, v', hv', fun _ hok => by cases hok⟩

variable {setup setup' : Setup α} {c c' : Controller α}

theorem RunsAlike.of_mirrors (hc : c.Mirrors c') (hidle : w.state.solver.running = false)
    (hidle' : w'.state.solver.running = false) (hprepare : w.state.solver.prepare = .ok setup)
    (hprepare' : w'.state.solver.prepare = .ok setup')
    (hstart : Controller.start setup.system setup.range setup.tolerance setup.y true = .ok c)
    (hstart' : Controller.start setup'.system setup'.range setup'.tolerance setup'.y true = .ok c') :
    RunsAlike c.system.baseNames w w' where
  correspond hrun hrun' huncanceled huncanceled' :=
    (course_of_run hidle hprepare hstart hrun huncanceled).mirror hc hprepare hprepare' hstart hstart'
      (course_of_run hidle' hprepare' hstart' hrun' huncanceled')
  returns hdeserted _ _ _ _ _ hrun huncanceled calls' d' := by
    obtain ⟨_, _, hthrough, hclosed⟩ := course_of_run hidle hprepare hstart hrun huncanceled
    exact (returns_of_stepThrough hc hthrough hclosed.of_error).run hdeserted hidle' hprepare' hstart'
      hc.shared.size'

theorem RunsAlike.of_resorted (h : Solver.Resorted s s' w.state.solver w'.state.solver)
    (hs : s.Reordered s') : RunsAlike s.baseNames w w' := by
  cases hrunning : w.state.solver.running with
  | true =>
    have hrunning' : w'.state.solver.running = true := h.running.trans hrunning
    exact .of_errors (.same _) (fun _ _ _ => ⟨w, run_of_running hrunning⟩)
      (fun _ _ _ => ⟨w', run_of_running hrunning'⟩)
  | false =>
    have hidle' : w'.state.solver.running = false := h.running.trans hrunning
    cases h.examined hs with
    | fault hprepare hprepare' halike =>
      exact .of_errors halike (fun _ _ _ => ⟨_, run_of_unprepared hrunning hprepare⟩)
        (fun _ _ _ => ⟨_, run_of_unprepared hidle' hprepare'⟩)
    | setup hprepare hprepare' =>
      obtain ⟨c, c', hstart, hstart', hc, hsystem⟩ := exists_mirrors h hs
        (Solver.prepared_of_prepare hprepare) (Solver.prepared_of_prepare hprepare')
      rw [← hsystem]
      exact .of_mirrors hc hrunning hidle' hprepare hprepare' hstart hstart'

end Sessions

/-- The order of the equations does not show in adaptive runs. In any other order the equations are
refused as well, or two sessions with the same settings otherwise have runs that come to the same. Where
nobody is told of them, both runs do return, unless the first one sticks. -/
theorem adaptive_runs_correspond {sources sources' : List String} (hsources : sources.Perm sources') :
    (∀ fault, OdeSystem.reduce (α := α) sources = .error fault →
      ∃ fault', OdeSystem.reduce (α := α) sources' = .error fault') ∧
    ∀ s : OdeSystem α, OdeSystem.reduce sources = .ok s → ∃ s', OdeSystem.reduce sources' = .ok s' ∧
      ∀ (w : World (protocol α μ)) (w' : World (protocol α μ')),
        Solver.Resorted s s' w.state.solver w'.state.solver →
        RunsAlike s.baseNames w w' ∧
        (PowerShrinks α → w.state.solver.tolerance.minFactor < one →
          w.state.solver.tolerance.safety < one → Deserted w → Deserted w' → ∀ calls calls' d d',
            (∃ fuel result result' v v',
              run (deliver (answer α μ) calls d) fuel true w = .ok result v ∧
              run (deliver (answer α μ') calls' d') fuel true w' = .ok result' v' ∧
              Corresponds d d' s.baseNames w v w' v' result result') ∨
            Sticks w.state.solver) := by
  refine ⟨fun fault hfault => ?_, fun s hreduce => ?_⟩
  · cases hreduce' : OdeSystem.reduce (α := α) sources' with
    | error fault' => exact ⟨fault', rfl⟩
    | ok s' =>
      obtain ⟨s, hreduce, _⟩ := OdeSystem.exists_reordered hsources.symm hreduce'
      cases hfault.symm.trans hreduce
  · obtain ⟨s', hreduce', hs⟩ := OdeSystem.exists_reordered hsources hreduce
    refine ⟨s', hreduce', fun w w' h => ?_⟩
    have halike : RunsAlike s.baseNames w w' := .of_resorted h hs
    refine ⟨halike, fun hpower hmin hsafety hdeserted hdeserted' calls calls' d d' => ?_⟩
    refine (adaptive_run_returns hpower hdeserted hmin hsafety calls d).imp_left ?_
    rintro ⟨fuel, hreturns⟩
    obtain ⟨result, v, hrun, huncanceled⟩ := hreturns fuel le_rfl
    obtain ⟨result', v', hrun', huncanceled'⟩ := halike.returns hdeserted' hrun huncanceled calls' d'
    exact ⟨fuel, result, result', v, v', hrun, hrun',
      halike.correspond hrun hrun' huncanceled huncanceled'⟩

/-- A session with narrow tolerances, in which the size of a step is halved at most. -/
def narrowWorld (sources : List String) : World (protocol Fraction Unit) :=
  let stated := (ask 0 (.setEquations sources)).after (newWorld {} ())
  let placed := (ask 0 (.setConditions (.ofList
    [("z", Scalar.one), ("y", Scalar.one), ("y_1", Scalar.zero)]))).after stated
  let ranged := (ask 0 (.setRange "x" Scalar.zero (Scalar.ofDecimal 3 (-1))
    (Scalar.ofDecimal 1 (-1)))).after placed
  let limited := (ask 0 (.setStepBounds none (some (Scalar.ofDecimal 1 (-1))))).after ranged
  let halved := (ask 0 (.setFactorBounds Scalar.half Scalar.one)).after limited
  let measured := (ask 0 (.setNorm .max)).after halved
  (ask 0 (.setTolerance (Scalar.ofDecimal 1 (-9)) (Scalar.ofDecimal 1 (-9)))).after measured

theorem adaptive_runs_correspond_towed : ∃ points v points' v',
    run (deliver (answer Fraction Unit) 0 0) 20 true (narrowWorld ["z' = y_1 + z", "y'' = x - y"]) =
      .ok (.ok points) v ∧
    run (deliver (answer Fraction Unit) 0 0) 20 true (narrowWorld ["y'' = x - y", "z' = y_1 + z"]) =
      .ok (.ok points') v' ∧
    points.length = 7 ∧ Corresponds 0 0 ["z", "y"] (narrowWorld ["z' = y_1 + z", "y'' = x - y"]) v
      (narrowWorld ["y'' = x - y", "z' = y_1 + z"]) v' (.ok points) (.ok points') := by
  have hcomputed : (returned? (run (deliver (answer Fraction Unit) 0 0) 20 true
      (narrowWorld ["z' = y_1 + z", "y'' = x - y"]))).any (fun r =>
        r.2.state.solver.status == .finished && r.1.length == 7) = true := by decide +kernel
  obtain ⟨points, v, hrun, hcomputed⟩ := exists_of_returned hcomputed
  rw [Bool.and_eq_true, beq_iff_eq, beq_iff_eq] at hcomputed
  obtain ⟨hstatus, hlength⟩ := hcomputed
  have huncanceled : Uncanceled (.ok points) v := fun _ _ => by
    rw [hstatus]
    decide
  have hreduce : OdeSystem.reduce ["z' = y_1 + z", "y'' = x - y"] = .ok towed := by decide +kernel
  obtain ⟨s', hreduce', hsessions⟩ := (adaptive_runs_correspond (List.Perm.swap _ _ _)).2 towed hreduce
  have hsystem' : (narrowWorld ["y'' = x - y", "z' = y_1 + z"]).state.solver.system? = some s' := by
    have hturned : OdeSystem.reduce ["y'' = x - y", "z' = y_1 + z"] =
        .ok ⟨towed.equations.reverse⟩ := by decide +kernel
    cases hturned.symm.trans hreduce'
    decide +kernel
  obtain ⟨halike, _⟩ := hsessions (narrowWorld ["z' = y_1 + z", "y'' = x - y"])
    (narrowWorld ["y'' = x - y", "z' = y_1 + z"]) ⟨by decide +kernel, hsystem', by decide +kernel,
      by decide +kernel, by decide +kernel, by decide +kernel⟩
  have hdeserted : Deserted (narrowWorld ["y'' = x - y", "z' = y_1 + z"]) := fun c =>
    List.isEmpty_iff.mp (by cases c <;> decide +kernel)
  obtain ⟨result', v', hrun', huncanceled'⟩ := halike.returns hdeserted hrun huncanceled 0 0
  have hcorrespond : Corresponds 0 0 towed.baseNames _ v _ v' (.ok points) result' :=
    halike.correspond hrun hrun' huncanceled huncanceled'
  cases result' with
  | error e => cases hcorrespond
  | ok points' => exact ⟨points, v, points', v', hrun, hrun', hlength, hcorrespond⟩

end Session

end Trajectory
