import Trajectory.Proofs.Number.Fraction
import Trajectory.Proofs.Solver.Running
import Trajectory.Proofs.Solver.Steps
import Trajectory.Proofs.Stepper.Advance

namespace Trajectory

namespace Session

open Delivery.Frame (Publishes)

variable {α μ : Type}

def eventAt? (d : Nat) : Occurrence (protocol α μ) → Option (Solver.Event α)
  | .published k c e => if k = d then some ⟨c, e⟩ else none
  | _ => none

/-- The events that were published at a depth, the oldest first. -/
def eventsAt (d : Nat) (history : List (Occurrence (protocol α μ))) : List (Solver.Event α) :=
  (history.filterMap (eventAt? d)).reverse

theorem eventsAt_append (d : Nat) (later earlier : List (Occurrence (protocol α μ))) :
    eventsAt d (later ++ earlier) = eventsAt d earlier ++ eventsAt d later := by
  simp [eventsAt]

theorem eventsAt_of_deeper {d : Nat} {new : List (Occurrence (protocol α μ))}
    (h : ∀ k c e, .published k c e ∈ new → d + 1 ≤ k) : eventsAt d new = [] := by
  have hnone : new.filterMap (eventAt? d) = [] := by
    refine List.filterMap_eq_nil_iff.mpr fun o ho => ?_
    cases o with
    | published k c e =>
      have hne : k ≠ d := Nat.ne_of_gt (h k c e ho)
      simp [eventAt?, hne]
    | called => rfl
    | returned => rfl
  simp [eventsAt, hnone]

/-- Between two worlds these events were published at a depth, and at greater depths nothing but that
cancellation was requested. -/
def Tells (d : Nat) (w v : World (protocol α μ)) (events : List (Solver.Event α)) : Prop :=
  ∃ new, v.history = new ++ w.history ∧ eventsAt d new = events ∧
    ∀ k c e, .published k c e ∈ new → k = d ∨ (d < k ∧ c = .canceled)

namespace Tells

variable {d : Nat} {u v w : World (protocol α μ)} {first later : List (Solver.Event α)}

theorem of_same (h : v.history = w.history) : Tells d w v [] :=
  ⟨[], h, rfl, fun _ _ _ hmem => by cases hmem⟩

theorem trans (huv : Tells d u v first) (hvw : Tells d v w later) : Tells d u w (first ++ later) := by
  obtain ⟨new, hnew, hfirst, honly⟩ := huv
  obtain ⟨new', hnew', hlater, honly'⟩ := hvw
  refine ⟨new' ++ new, by rw [hnew', hnew, List.append_assoc], ?_, ?_⟩
  · rw [eventsAt_append, hfirst, hlater]
  · intro k c e hmem
    rcases List.mem_append.mp hmem with hmem | hmem
    · exact honly' k c e hmem
    · exact honly k c e hmem

theorem exists_new (h : Tells d w v first) : ∃ new, v.history = new ++ w.history := by
  obtain ⟨new, hnew, _⟩ := h
  exact ⟨new, hnew⟩

/-- What was published since was told, but for requested cancellations. -/
theorem mem_of_published (h : Tells d w v first) {new : List (Occurrence (protocol α μ))}
    (hnew : v.history = new ++ w.history) {k : Nat} {c : Solver.Channel} {e : Solver.Payload α c}
    (hmem : .published k c e ∈ new) : ⟨c, e⟩ ∈ first ∨ c = .canceled := by
  obtain ⟨new', hnew', hevents, honly⟩ := h
  have hsame : new = new' := (List.append_left_inj w.history).mp (hnew.symm.trans hnew')
  rw [hsame] at hmem
  rcases honly k c e hmem with rfl | ⟨_, hcanceled⟩
  · refine .inl ?_
    rw [← hevents]
    have hat : eventAt? k (.published k c e : Occurrence (protocol α μ)) = some ⟨c, e⟩ := if_pos rfl
    exact List.mem_reverse.mpr (List.mem_filterMap.mpr ⟨_, hmem, hat⟩)
  · exact .inr hcanceled

end Tells

section Publish

variable {publish : Publish α μ} {d : Nat} {u v w : World (protocol α μ)}

theorem tells_of_publish (hpublish : Publishes WhileRunning d publish)
    (hrunning : w.state.solver.running = true) {c : Solver.Channel} {e : Solver.Payload α c}
    {n : Nat} (h : publish c e u = .ok n v) (haside : Aside w u) :
    Held w.state.solver v.state.solver ∧ Tells d w v [⟨c, e⟩] := by
  obtain ⟨hbefore, _⟩ := whileRunning_frame.aside d w u haside hrunning
  have hafter := hpublish c e u
  rw [Act.after_of_ok h] at hafter
  obtain ⟨hheld, new, hnew, honly⟩ := hafter (hbefore.running.trans hrunning)
  have hhistory : v.history = (new ++ [.published d c e]) ++ w.history := by
    rw [hnew, World.record, haside.history, List.append_assoc]
    rfl
  refine ⟨hbefore.trans hheld, new ++ [.published d c e], hhistory, ?_, ?_⟩
  · rw [eventsAt_append, eventsAt_of_deeper fun k c' e' hmem => (honly k c' e' hmem).1]
    simp [eventsAt, eventAt?]
  · intro k c' e' hmem
    rcases List.mem_append.mp hmem with hmem | hmem
    · exact .inr (honly k c' e' hmem)
    · cases List.mem_singleton.mp hmem
      exact .inl rfl

/-- The result of a run is stored before it is told. -/
theorem tells_of_stored (hpublish : Publishes WhileRunning d publish)
    (hrunning : w.state.solver.running = true) (haside : Aside w u) {status : RunStatus}
    {points : List (Point α)} {z : World (protocol α μ)} {b : Unit}
    (hmodify : modifySolver (fun s => { s with status, result := points }) u = .ok b z)
    {c : Solver.Channel} {e : Solver.Payload α c} {n : Nat} (htell : publish c e z = .ok n v) :
    v.state.solver.status = status ∧ v.state.solver.result = points ∧ Tells d w v [⟨c, e⟩] := by
  obtain ⟨hsolver, hhistory⟩ := of_modifySolver hmodify
  have hrunning' : z.state.solver.running = true := by
    rw [hsolver, haside.solver]
    exact hrunning
  obtain ⟨hheld, htells⟩ := tells_of_publish hpublish hrunning' htell ⟨rfl, rfl⟩
  have hsame : Tells d w z [] := .of_same (hhistory.trans haside.history)
  refine ⟨?_, ?_, hsame.trans htells⟩
  · rw [hheld.status, hsolver]
  · rw [hheld.result, hsolver]

end Publish

def progressEvent (p : Solver.Progress α) : Solver.Event α := ⟨.progress, p⟩

/-- What is told of an accepted step. -/
def progressOf (s : AcceptedStep α) : Solver.Progress α := ⟨s.x, s.size, s.errorNorm⟩

variable [Scalar α]

theorem Steps.taken {publish : Publish α μ} {tries d : Nat} {c last : Controller α}
    {error? : Option (SolverError α)} {points : List (Point α)} {w v : World (protocol α μ)}
    (hpublish : Publishes WhileRunning d publish) (hrunning : w.state.solver.running = true)
    (h : Steps publish tries c w last error? points v) :
    Held w.state.solver v.state.solver ∧ (∀ e, error? = some e → e.OfStep) ∧
      ∃ (steps : List (AcceptedStep α)) (reached : Controller α),
        Controller.Taken tries c steps reached ∧
          (error? = none → reached = last ∧ stops last v = true) ∧
            points.map Point.x? = steps.map (some ·.x) ∧
              Tells d w v ((steps.map progressOf).map progressEvent) := by
  induction h with
  | stop hstop =>
    exact ⟨.refl _, (fun e he => by cases he), [], _, .refl _, fun _ => ⟨rfl, hstop⟩, rfl,
      .of_same rfl⟩
  | failure _ haside houtcome =>
    obtain ⟨hheld, _⟩ := whileRunning_frame.aside d _ _ haside hrunning
    refine ⟨hheld, fun e he => ?_, [], _, .refl _, (fun h => by cases h), rfl,
      .of_same haside.history⟩
    cases he
    exact Controller.advance_of_cause houtcome
  | @step c last w u v z s point n error? points hstop haside houtcome hpoint htell _ ih =>
    obtain ⟨hheld, htells⟩ : Held w.state.solver v.state.solver ∧ Tells d w v [_] :=
      tells_of_publish hpublish hrunning htell haside
    obtain ⟨hlast, herror, steps, reached, htaken, hreached, hx, hprogress⟩ :=
      ih (hheld.running.trans hrunning)
    refine ⟨hheld.trans hlast, herror, s :: steps, reached,
      .step (finished_of_stops hstop) houtcome htaken, hreached, ?_, htells.trans hprogress⟩
    rw [List.map_cons, List.map_cons, hx, eq_of_pointAt hpoint, Controller.advance_of_step houtcome]

theorem tells_of_steps {publish : Publish α μ} {tries n d : Nat} {range : Range α}
    {c last : Controller α} {error? : Option (SolverError α)} {points : List (Point α)}
    {before told stepped : World (protocol α μ)} (hpublish : Publishes WhileRunning d publish)
    (hrunning : before.state.solver.running = true)
    (htell : publish .runStarted range before = .ok n told)
    (hsteps : Steps publish tries c told last error? points stepped) :
    Held before.state.solver stepped.state.solver ∧ (∀ e, error? = some e → e.OfStep) ∧
      ∃ progress : List (Solver.Progress α),
        points.map Point.x? = progress.map (some ·.x) ∧
          Tells d before stepped (⟨.runStarted, range⟩ :: progress.map progressEvent) := by
  obtain ⟨hheld, htells⟩ := tells_of_publish hpublish hrunning htell ⟨rfl, rfl⟩
  obtain ⟨hheld', herror, steps, _, _, _, hx, htells'⟩ :=
    hsteps.taken hpublish (hheld.running.trans hrunning)
  refine ⟨hheld.trans hheld', herror, steps.map progressOf, ?_, htells.trans htells'⟩
  rw [hx, List.map_map]
  rfl

/-- The first point shows the start of the range and the initial condition of each base variable. -/
def BeginsAtStart (s : Solver α) (points : List (Point α)) : Prop :=
  ∃ system values, s.system? = some system ∧
    system.baseNames.map s.conditions.get? = values.map some ∧
      points.head? = some ⟨s.range.arg :: system.baseNames, s.range.start :: values⟩

theorem beginsAtStart {s : Solver α} {setup : Setup α} {c : Controller α} {adaptive : Bool}
    {point : Point α} {points later : List (Point α)} (hprepared : Solver.Prepared s setup)
    (hstart : Controller.start setup.system setup.range setup.tolerance setup.y adaptive = .ok c)
    (hpoint : pointAt c = .ok point) (hpoints : points = point :: later) : BeginsAtStart s points := by
  obtain ⟨values, hselect, hvalues⟩ := of_pointAt hpoint
  have hfields := (Controller.started_of_start hstart).fields
  have hsystem : c.system = setup.system := congrArg Controller.system hfields
  have hhead : point = ⟨s.range.arg :: setup.system.baseNames, s.range.start :: values⟩ := by
    rw [hvalues, pointNames, hsystem, congrArg Controller.arg hfields,
      congrArg Controller.x hfields, hprepared.range]
  rw [hsystem, congrArg Controller.y hfields] at hselect
  have hbase := OdeSystem.select_baseIndices hprepared.state hselect
  refine ⟨setup.system, values, hprepared.system, hbase, ?_⟩
  rw [hpoints, hhead]
  rfl

/-- The ways in which a run of a solver `s` ends that has an answer, between the worlds before and
after it. -/
inductive Ending (d : Nat) (s : Solver α) (w v : World (protocol α μ)) :
    Result α (List (Point α)) → Prop
  | refused {fault : ConfigurationFault α} (silent : v.history = w.history) :
      Ending d s w v (.error (.configuration fault))
  | failed {e : SolverError α} {progress : List (Solver.Progress α)} (cause : e.OfStep)
      (tells : Tells d w v (⟨.runStarted, s.range⟩ :: progress.map progressEvent))
      (status : v.state.solver.status = .failed) (result : v.state.solver.result = []) :
      Ending d s w v (.error e)
  | finished {points : List (Point α)} {progress : List (Solver.Progress α)}
      (start : BeginsAtStart s points)
      (steps : points.tail.map Point.x? = progress.map (some ·.x))
      (tells : Tells d w v (⟨.runStarted, s.range⟩ :: progress.map progressEvent ++
        [⟨.completed, points⟩]))
      (status : v.state.solver.status = .finished) (result : v.state.solver.result = points) :
      Ending d s w v (.ok points)
  | canceled {points : List (Point α)} {progress : List (Solver.Progress α)}
      (start : BeginsAtStart s points)
      (steps : points.tail.map Point.x? = progress.map (some ·.x))
      (tells : Tells d w v (⟨.runStarted, s.range⟩ :: progress.map progressEvent ++
        [⟨.canceled, ()⟩]))
      (status : v.state.solver.status = .canceled) (result : v.state.solver.result = points) :
      Ending d s w v (.ok points)

omit [Scalar α] in
theorem Ending.of_same {d : Nat} {s : Solver α} {w w' v v' : World (protocol α μ)}
    {result : Result α (List (Point α))} (h : Ending d s w v result) (hw : w'.history = w.history)
    (hv : v'.history = v.history) (hstatus : v'.state.solver.status = v.state.solver.status)
    (hresult : v'.state.solver.result = v.state.solver.result) : Ending d s w' v' result := by
  have htells {events : List (Solver.Event α)} (htold : Tells d w v events) :
      Tells d w' v' events := by
    rwa [Tells, hw, hv]
  cases h with
  | refused silent => exact .refused (by rw [hv, hw, silent])
  | failed cause tells status result =>
    exact .failed cause (htells tells) (hstatus.trans status) (hresult.trans result)
  | finished start steps tells status result =>
    exact .finished start steps (htells tells) (hstatus.trans status) (hresult.trans result)
  | canceled start steps tells status result =>
    exact .canceled start steps (htells tells) (hstatus.trans status) (hresult.trans result)

variable [Numeral α]

omit [Scalar α] in
theorem conclude_ends {publish : Publish α μ} {d : Nat} {stop : Stop α}
    {result : Result α (List (Point α))} {w v : World (protocol α μ)}
    (hpublish : Publishes WhileRunning d publish) (hrunning : w.state.solver.running = true)
    (h : conclude publish stop w = .ok result v) :
    (∃ e, stop.error? = some e ∧ result = .error e ∧ Tells d w v [] ∧
        v.state.solver.status = .failed ∧ v.state.solver.result = w.state.solver.result) ∨
      result = .ok stop.points ∧ stop.error? = none ∧ v.state.solver.result = stop.points ∧
        (w.state.solver.cancelRequested = false ∧ v.state.solver.status = .finished ∧
            Tells d w v [⟨.completed, stop.points⟩] ∨
          w.state.solver.cancelRequested = true ∧ v.state.solver.status = .canceled ∧
            Tells d w v [⟨.canceled, ()⟩]) := by
  unfold conclude at h
  cases herror : stop.error? with
  | some e =>
    simp only [herror] at h
    cases h
    exact .inl ⟨e, rfl, rfl, .of_same rfl, rfl, rfl⟩
  | none =>
    simp only [herror] at h
    obtain ⟨_, u, hlog, h⟩ := Act.bind_eq_ok_iff.mp h
    have haside := aside_of_log hlog
    have hflag : w.state.solver.cancelRequested = u.state.solver.cancelRequested := by
      rw [haside.solver]
    obtain ⟨s, _, hget, h⟩ := Act.bind_eq_ok_iff.mp h
    cases hget
    refine .inr ?_
    rw [hflag]
    cases hcanceled : u.state.solver.cancelRequested with
    | true =>
      simp only [hcanceled, if_true] at h
      obtain ⟨_, u', hlog', h⟩ := Act.bind_eq_ok_iff.mp h
      obtain ⟨_, z, hmodify, h⟩ := Act.bind_eq_ok_iff.mp h
      obtain ⟨n, z', htell, h⟩ := Act.bind_eq_ok_iff.mp h
      cases h
      obtain ⟨hstatus, hresult, htells⟩ :=
        tells_of_stored hpublish hrunning (haside.trans (aside_of_log hlog')) hmodify htell
      exact ⟨rfl, rfl, hresult, .inr ⟨rfl, hstatus, htells⟩⟩
    | false =>
      simp only [hcanceled, Bool.false_eq_true, if_false] at h
      obtain ⟨_, z, hmodify, h⟩ := Act.bind_eq_ok_iff.mp h
      obtain ⟨n, z', htell, h⟩ := Act.bind_eq_ok_iff.mp h
      cases h
      obtain ⟨hstatus, hresult, htells⟩ :=
        tells_of_stored hpublish hrunning haside hmodify htell
      exact ⟨rfl, rfl, hresult, .inl ⟨rfl, hstatus, htells⟩⟩

/-- Each run that returns ends in one of these ways, whatever its subscribers do meanwhile. -/
theorem run_ends {calls fuel d : Nat} {adaptive : Bool} {result : Result α (List (Point α))}
    {w v : World (protocol α μ)} (hidle : w.state.solver.running = false)
    (h : run (Delivery.deliver (answer α μ) calls d) fuel adaptive w = .ok result v) :
    Ending d w.state.solver w v result := by
  have hpublish : Publishes WhileRunning d (Delivery.deliver (answer α μ) calls d) :=
    deliver_keeps calls d
  cases ran_of_run hidle h with
  | refused hsilent => exact .refused hsilent
  | @through setup c point later stop n _ before told stepped ended hprepared hstart hpoint hbefore
      hhistory htell hsteps hpoints hconclude hreleased =>
    have hrunning : before.state.solver.running = true := by rw [hbefore]
    obtain ⟨hheld, herror, progress, hx, htells⟩ :=
      tells_of_steps hpublish hrunning htell hsteps
    have hstarted : Tells d w stepped (⟨.runStarted, w.state.solver.range⟩ ::
        progress.map progressEvent) := by
      have hstored : Tells d w before [] := .of_same hhistory
      rw [← hprepared.range]
      exact hstored.trans htells
    have hempty : stepped.state.solver.result = [] := by rw [hheld.result, hbefore]
    have hends : Ending d w.state.solver w ended result := by
      have hfirst := beginsAtStart hprepared hstart hpoint hpoints
      have htail : stop.points.tail.map Point.x? = progress.map (some ·.x) := by rwa [hpoints]
      rcases conclude_ends hpublish (hheld.running.trans hrunning) hconclude with
        ⟨e, he, rfl, hlast, hstatus, hresult⟩ |
          ⟨rfl, _, hresult, ⟨_, hstatus, hlast⟩ | ⟨_, hstatus, hlast⟩⟩
      · have htold := hstarted.trans hlast
        rw [List.append_nil] at htold
        exact .failed (herror e he) htold hstatus (hresult.trans hempty)
      · exact .finished hfirst htail (hstarted.trans hlast) hstatus hresult
      · exact .canceled hfirst htail (hstarted.trans hlast) hstatus hresult
    rw [hreleased]
    exact hends.of_same rfl rfl rfl rfl

/-- The points of a run that has some, with the world after it. -/
def returned? : EStateM.Result Halt (World (protocol α μ)) (Result α (List (Point α))) →
    Option (List (Point α) × World (protocol α μ))
  | .ok (.ok points) v => some (points, v)
  | _ => none

omit [Scalar α] [Numeral α] in
theorem eq_ok_of_returned {r : EStateM.Result Halt (World (protocol α μ)) (Result α (List (Point α)))}
    {points : List (Point α)} {v : World (protocol α μ)} (h : returned? r = some (points, v)) :
    r = .ok (.ok points) v := by
  unfold returned? at h
  split at h
  next =>
    cases h
    rfl
  next => cases h

omit [Scalar α] [Numeral α] in
theorem exists_of_returned
    {r : EStateM.Result Halt (World (protocol α μ)) (Result α (List (Point α)))}
    {f : List (Point α) × World (protocol α μ) → Bool} (h : (returned? r).any f = true) :
    ∃ points v, r = .ok (.ok points) v ∧ f (points, v) = true := by
  obtain ⟨⟨points, v⟩, hreturned, hf⟩ := (Option.any_eq_true _ _).mp h
  exact ⟨points, v, eq_ok_of_returned hreturned, hf⟩

/-- A session with an equation and its condition. -/
def steadyWorld : World (protocol Fraction Unit) :=
  let stated := (ask 0 (.setEquations ["y' = 1"])).after (newWorld {} ())
  (ask 0 (.setConditions (.ofList [("y", Scalar.one)]))).after stated

/-- The same session with a subscriber that cancels each run after its first step. -/
def hastyWorld : World (protocol Fraction Unit) :=
  steadyWorld.setBus .progress ((steadyWorld.hub .progress).subscribe fun _ =>
    .request .cancel fun _ => .done)

theorem run_ends_of_hasty : ∃ points v,
    run (Delivery.deliver (answer Fraction Unit) 2 0) 20 false hastyWorld = .ok (.ok points) v ∧
      v.state.solver.status = .canceled ∧
        Ending 0 hastyWorld.state.solver hastyWorld v (.ok points) := by
  have hidle : hastyWorld.state.solver.running = false := by decide +kernel
  have hcomputed : (returned? (run (Delivery.deliver (answer Fraction Unit) 2 0) 20 false
      hastyWorld)).any (fun r => r.2.state.solver.status == .canceled) = true := by decide +kernel
  obtain ⟨⟨points, v⟩, hreturned, hstatus⟩ := Option.any_eq_true _ _ |>.mp hcomputed
  have hrun := eq_ok_of_returned hreturned
  exact ⟨points, v, hrun, eq_of_beq hstatus, run_ends hidle hrun⟩

end Session

end Trajectory
