import Trajectory.Proofs.Solver.FirstPoint
import Trajectory.Proofs.Solver.Frame
import Trajectory.Proofs.Stepper.Start

namespace Trajectory

namespace Session

variable {α μ : Type}

section Parts

variable {w v : World (protocol α μ)} {b : Unit}

theorem aside_of_log {line : LogLine} (h : Act.log line w = .ok b v) : Aside w v := by
  cases h
  exact ⟨rfl, rfl⟩

theorem of_modifySolver {f : Solver α → Solver α} (h : modifySolver f w = .ok b v) :
    v.state.solver = f w.state.solver ∧ v.history = w.history := by
  cases h
  exact ⟨rfl, rfl⟩

theorem ok_of_promised {p : Protocol} {β : Type} {c : Checked Empty β} {b : β} {w v : World p}
    (h : Act.promised c w = .ok b v) : c = .ok b ∧ v = w := by
  unfold Act.promised at h
  split at h
  next =>
    cases h
    exact ⟨rfl, rfl⟩
  next => cases h

def released (w : World (protocol α μ)) : World (protocol α μ) :=
  { w with state := { w.state with solver := { w.state.solver with running := false } } }

theorem of_releasing {β : Type} {act : Action α μ β} {b : β}
    (h : releasing act w = .ok b v) : ∃ u, act w = .ok b u ∧ v = released u := by
  unfold releasing at h
  cases hact : act w with
  | ok c u =>
    simp only [hact] at h
    cases h
    exact ⟨u, rfl, rfl⟩
  | error halt u =>
    simp only [hact] at h
    cases h

theorem releasing_eq {β : Type} {act act' : Action α μ β} (h : act w = act' v) :
    releasing act w = releasing act' v := by
  unfold releasing
  rw [h]

theorem after_releasing {β : Type} (act : Action α μ β) (w : World (protocol α μ)) :
    (releasing act).after w = released (act.after w) := by
  unfold Act.after releasing
  cases act w with
  | ok b v => rfl
  | error halt v => rfl

end Parts

theorem of_pointAt {c : Controller α} {point : Point α} (h : pointAt c = .ok point) :
    ∃ values, Point.select (ε := Empty) c.system.baseIndices c.y = .ok values ∧
      point = ⟨pointNames c, c.x :: values⟩ :=
  Point.of_project h

theorem eq_of_pointAt {c : Controller α} {point : Point α} (h : pointAt c = .ok point) :
    point.x? = some c.x := by
  obtain ⟨values, _, hpoint⟩ := of_pointAt h
  rw [hpoint]
  rfl

variable [Scalar α]

/-- Whether a run ends before its next step. -/
def stops (c : Controller α) (w : World (protocol α μ)) : Bool :=
  c.finished || w.state.solver.cancelRequested

theorem finished_of_stops {c : Controller α} {w : World (protocol α μ)} (h : stops c w = false) :
    c.finished = false := (Bool.or_eq_false_iff.mp h).1

/-- The steps of a run from a controller and a world: the controller they lead to, the error that ends
them if there is one, the points that they add and the world after them. -/
inductive Steps (publish : Publish α μ) (tries : Nat) : Controller α → World (protocol α μ) →
    Controller α → Option (SolverError α) → List (Point α) → World (protocol α μ) → Prop
  | stop {c : Controller α} {w : World (protocol α μ)} (hstop : stops c w = true) :
      Steps publish tries c w c none [] w
  | failure {c : Controller α} {w u : World (protocol α μ)} {e : SolverError α}
      (hstop : stops c w = false) (haside : Aside w u)
      (houtcome : (c.advance tries).outcome = .failure (.cause e)) :
      Steps publish tries c w (c.advance tries).controller (some e) [] u
  | step {c last : Controller α} {w u v z : World (protocol α μ)} {s : AcceptedStep α}
      {point : Point α} {n : Nat} {error? : Option (SolverError α)} {points : List (Point α)}
      (hstop : stops c w = false) (haside : Aside w u)
      (houtcome : (c.advance tries).outcome = .step s)
      (hpoint : pointAt (c.advance tries).controller = .ok point)
      (htell : publish .progress ⟨s.x, s.size, s.errorNorm⟩ u = .ok n v)
      (hlater : Steps publish tries (c.advance tries).controller v last error? points z) :
      Steps publish tries c w last error? (point :: points) z

variable [Numeral α]

def tried (tries : Nat) (c : Controller α) (w : World (protocol α μ)) : World (protocol α μ) :=
  { w with log := w.log.addAll ((c.advance tries).rejections.map Rejection.line) }

theorem aside_tried (tries : Nat) (c : Controller α) (w : World (protocol α μ)) :
    Aside w (tried tries c w) := ⟨rfl, rfl⟩

/-- What a run that comes to a stop does first of its steps. One that has no steps left, is out of
tries or meets a breach does not come to a stop. -/
inductive Onward (publish : Publish α μ) (tries : Nat) (c : Controller α) (points : List (Point α))
    (w : World (protocol α μ)) (stop : Stop α) (v : World (protocol α μ)) : Nat → Prop
  | stop {steps : Nat} (hstop : stops c w = true) (hat : stop = ⟨c, points.reverse, none⟩)
      (hsame : v = w) : Onward publish tries c points w stop v (steps + 1)
  | failure {steps : Nat} {e : SolverError α} (hstop : stops c w = false)
      (houtcome : (c.advance tries).outcome = .failure (.cause e))
      (hat : stop = ⟨(c.advance tries).controller, points.reverse, some e⟩)
      (hafter : v = tried tries c w) : Onward publish tries c points w stop v (steps + 1)
  | step {steps n : Nat} {s : AcceptedStep α} {point : Point α} {u : World (protocol α μ)}
      (hstop : stops c w = false) (houtcome : (c.advance tries).outcome = .step s)
      (hpoint : pointAt (c.advance tries).controller = .ok point)
      (htell : publish .progress ⟨s.x, s.size, s.errorNorm⟩ (tried tries c w) = .ok n u)
      (hlater : stepThrough publish tries steps (c.advance tries).controller (point :: points) u =
        .ok stop v) : Onward publish tries c points w stop v (steps + 1)

theorem onward_of_stepThrough {publish : Publish α μ} {tries steps : Nat} {c : Controller α}
    {points : List (Point α)} {stop : Stop α} {w v : World (protocol α μ)}
    (h : stepThrough publish tries steps c points w = .ok stop v) :
    Onward publish tries c points w stop v steps := by
  cases steps with
  | zero => cases h
  | succ steps =>
    obtain ⟨s, u, hget, h⟩ := Act.bind_eq_ok_iff.mp h
    cases hget
    split at h
    next hstop =>
      cases h
      exact .stop hstop rfl rfl
    next hstop =>
      have hgo : stops c w = false := by simpa [stops] using hstop
      obtain ⟨_, u, hlog, h⟩ := Act.bind_eq_ok_iff.mp h
      cases hlog
      cases houtcome : (c.advance tries).outcome with
      | exhausted =>
        simp only [houtcome] at h
        cases h
      | failure f =>
        simp only [houtcome] at h
        cases f with
        | breach b => cases h
        | cause e =>
          cases h
          exact .failure hgo houtcome rfl rfl
      | step step =>
        simp only [houtcome] at h
        obtain ⟨point, u, hpoint, h⟩ := Act.bind_eq_ok_iff.mp h
        obtain ⟨hpromise, hsame⟩ := ok_of_promised hpoint
        rw [hsame] at h
        obtain ⟨n, z, htell, h⟩ := Act.bind_eq_ok_iff.mp h
        exact .step hgo houtcome hpromise htell h

theorem steps_of_stepThrough {publish : Publish α μ} {tries steps : Nat} {c : Controller α}
    {points : List (Point α)} {stop : Stop α} {w v : World (protocol α μ)}
    (h : stepThrough publish tries steps c points w = .ok stop v) :
    ∃ later, stop.points = points.reverse ++ later ∧
      Steps publish tries c w stop.controller stop.error? later v := by
  induction steps generalizing c points w with
  | zero => cases h
  | succ steps ih =>
    cases onward_of_stepThrough h with
    | stop hstop hat hsame =>
      rw [hat, hsame]
      exact ⟨[], (List.append_nil _).symm, .stop hstop⟩
    | failure hstop houtcome hat hafter =>
      rw [hat, hafter]
      exact ⟨[], (List.append_nil _).symm, .failure hstop (aside_tried _ _ _) houtcome⟩
    | step hstop houtcome hpoint htell hlater =>
      obtain ⟨later, hpoints, hsteps⟩ := ih hlater
      refine ⟨_ :: later, ?_, .step hstop (aside_tried _ _ _) houtcome hpoint htell hsteps⟩
      rw [hpoints, List.reverse_cons, List.append_assoc]
      rfl

def begun (w : World (protocol α μ)) (setup : Setup α) (adaptive : Bool) : World (protocol α μ) :=
  (withSolver w { w.state.solver with
    cancelRequested := false, running := true, status := .running, result := [] }).addLog
      (startLine setup.range adaptive)

/-- A run that was refused, or one that told of its start, made its steps and concluded. -/
inductive Opened (publish : Publish α μ) (fuel : Nat) (adaptive : Bool) (w v : World (protocol α μ))
    (result : Result α (List (Point α))) : Prop
  | refused {fault : ConfigurationFault α} (herror : result = .error (.configuration fault))
      (hsilent : v.history = w.history)
  | begun {setup : Setup α} {c : Controller α} {point : Point α} {stop : Stop α} {n : Nat}
      {told stepped ended : World (protocol α μ)} (hprepare : w.state.solver.prepare = .ok setup)
      (hstart : Controller.start setup.system setup.range setup.tolerance setup.y adaptive = .ok c)
      (hpoint : pointAt c = .ok point)
      (htell : publish .runStarted setup.range (begun w setup adaptive) = .ok n told)
      (hthrough : stepThrough publish fuel fuel c [point] told = .ok stop stepped)
      (hconclude : conclude publish stop stepped = .ok result ended)
      (hreleased : v = released ended)

section Opening

variable {publish : Publish α μ} {fuel : Nat} {adaptive : Bool} {w v : World (protocol α μ)}
  {result : Result α (List (Point α))} {setup : Setup α} {c : Controller α}

/-- Past both of its checks a run tells of its start, makes its steps and concludes. -/
theorem opened_of_setup {locked u : World (protocol α μ)}
    (hlocked : locked = withSolver w { w.state.solver with cancelRequested := false, running := true })
    (hstart : Controller.start setup.system setup.range setup.tolerance setup.y adaptive = .ok c)
    (h : runSetup publish fuel setup adaptive locked = .ok result u) :
    ∃ point stop n told stepped, pointAt c = .ok point ∧
      publish .runStarted setup.range (begun w setup adaptive) = .ok n told ∧
        stepThrough publish fuel fuel c [point] told = .ok stop stepped ∧
          conclude publish stop stepped = .ok result u := by
  subst hlocked
  obtain ⟨_, _, hmodify, h⟩ := Act.bind_eq_ok_iff.mp h
  cases hmodify
  rw [hstart] at h
  obtain ⟨_, _, hkeep, h⟩ := Act.bind_eq_ok_iff.mp h
  cases hkeep
  dsimp only at h
  obtain ⟨point, _, hpoint, h⟩ := Act.bind_eq_ok_iff.mp h
  obtain ⟨hpromise, hsame⟩ := ok_of_promised hpoint
  rw [hsame] at h
  obtain ⟨_, _, hlog, h⟩ := Act.bind_eq_ok_iff.mp h
  cases hlog
  obtain ⟨n, told, htell, h⟩ := Act.bind_eq_ok_iff.mp h
  obtain ⟨stop, stepped, hthrough, hconclude⟩ := Act.bind_eq_ok_iff.mp h
  exact ⟨point, stop, n, told, stepped, hpromise, htell, hthrough, hconclude⟩

theorem run_of_idle (hidle : w.state.solver.running = false) :
    run publish fuel adaptive w = (releasing do
      match w.state.solver.prepare with
      | .error fault => pure (.error (.configuration fault))
      | .ok setup => runSetup publish fuel setup adaptive : Action α μ _)
        (withSolver w { w.state.solver with cancelRequested := false, running := true }) := by
  have hget : (getSolver : Action α μ (Solver α)) w = .ok w.state.solver w := rfl
  refine (Act.bind_of_ok hget).trans ?_
  rw [if_neg (by simp [hidle])]
  exact Act.bind_of_ok rfl

theorem opened_of_run (hidle : w.state.solver.running = false)
    (h : run publish fuel adaptive w = .ok result v) : Opened publish fuel adaptive w v result := by
  rw [run_of_idle hidle] at h
  obtain ⟨u, hact, hreleased⟩ := of_releasing h
  cases hprepare : w.state.solver.prepare with
  | error fault =>
    rw [hprepare] at hact
    cases hact
    rw [hreleased]
    exact .refused rfl rfl
  | ok setup =>
    rw [hprepare] at hact
    cases hstart : Controller.start setup.system setup.range setup.tolerance setup.y adaptive with
    | error f =>
      obtain ⟨_, _, hmodify, hact⟩ := Act.bind_eq_ok_iff.mp hact
      cases hmodify
      rw [hstart] at hact
      cases f with
      | breach b => cases hact
      | cause e =>
        obtain ⟨fault, rfl⟩ := Controller.start_causedBy e hstart
        cases hact
        rw [hreleased]
        exact .refused rfl rfl
    | ok c =>
      obtain ⟨point, stop, n, told, stepped, hpoint, htell, hthrough, hconclude⟩ :=
        opened_of_setup rfl hstart hact
      exact .begun hprepare hstart hpoint htell hthrough hconclude hreleased

end Opening

/-- A run that was refused, or one with a setup that began at the start of its range. -/
inductive Ran (publish : Publish α μ) (fuel : Nat) (adaptive : Bool) (w v : World (protocol α μ)) :
    Result α (List (Point α)) → Prop
  | refused {fault : ConfigurationFault α} (hsilent : v.history = w.history) :
      Ran publish fuel adaptive w v (.error (.configuration fault))
  | through {setup : Setup α} {c : Controller α} {point : Point α} {later : List (Point α)}
      {stop : Stop α} {n : Nat} {result : Result α (List (Point α))}
      {before told stepped ended : World (protocol α μ)}
      (hprepared : Solver.Prepared w.state.solver setup)
      (hstart : Controller.start setup.system setup.range setup.tolerance setup.y adaptive = .ok c)
      (hpoint : pointAt c = .ok point)
      (hbefore : before.state.solver = { w.state.solver with
        cancelRequested := false, running := true, status := .running, result := [] })
      (hhistory : before.history = w.history)
      (htell : publish .runStarted setup.range before = .ok n told)
      (hsteps : Steps publish fuel c told stop.controller stop.error? later stepped)
      (hpoints : stop.points = point :: later)
      (hconclude : conclude publish stop stepped = .ok result ended)
      (hreleased : v = released ended) : Ran publish fuel adaptive w v result

theorem ran_of_run {publish : Publish α μ} {fuel : Nat} {adaptive : Bool}
    {result : Result α (List (Point α))} {w v : World (protocol α μ)}
    (hidle : w.state.solver.running = false) (h : run publish fuel adaptive w = .ok result v) :
    Ran publish fuel adaptive w v result := by
  cases opened_of_run hidle h with
  | refused herror hsilent =>
    rw [herror]
    exact .refused hsilent
  | @begun setup _ _ _ _ _ _ _ hprepare hstart hpoint htell hthrough hconclude hreleased =>
    have hbefore : (begun w setup adaptive).state.solver = { w.state.solver with
        cancelRequested := false, running := true, status := .running, result := [] } := rfl
    obtain ⟨later, hpoints, hsteps⟩ := steps_of_stepThrough hthrough
    exact .through (Solver.prepared_of_prepare hprepare) hstart hpoint hbefore rfl htell hsteps
      hpoints hconclude hreleased

end Session

end Trajectory
