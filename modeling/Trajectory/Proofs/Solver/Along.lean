import Trajectory.Proofs.Solver.Kinds
import Trajectory.Proofs.Solver.Reachable
import Trajectory.Proofs.Solver.Running
import Trajectory.Proofs.Solver.Steps
import Trajectory.Proofs.Stepper.Advance

namespace Trajectory

variable {α μ : Type}

namespace Point

/-- The point has a value for each of these names. -/
def Shows (p : Point α) (names : List String) : Prop :=
  p.names = names ∧ p.values.length = names.length

theorem shows_of_project {ε : Type} {names : List String} {indices : List Nat} {x : α} {y : List α}
    {p : Point α} (h : project (ε := ε) names indices x y = .ok p) : p.Shows names := by
  obtain ⟨values, _, h⟩ := bind_eq_ok.mp h
  obtain ⟨_, hsize, h⟩ := bind_eq_ok.mp h
  cases h
  unfold Checked.sameSize at hsize
  split at hsize
  next hlength => exact ⟨rfl, hlength.symm⟩
  next => cases hsize

end Point

/-- The points of the result are those of a run with the solver's system. -/
def Solver.Shown (s : Solver α) : Prop :=
  ∃ system arg, s.system? = some system ∧ ∀ p ∈ s.result, p.Shows (arg :: system.baseNames)

namespace Session

open Act (Agree Alike)

/-- A solver that a run has taken to another one and has cleared of its points. -/
structure Underway (s t : Solver α) : Prop where
  noted : Noted s t
  running : t.running = true
  result : t.result = []

/-- What a run can take a solver to: it leaves what was there, or it has stored nothing, or points of
its own. -/
structure Along (s t : Solver α) : Prop where
  noted : Noted s t
  result : t.status = s.status ∧ t.result = s.result ∨ t.result = [] ∨
    (t.status = .finished ∨ t.status = .canceled) ∧ t.Shown

theorem Noted.trans {s t u : Solver α} (hst : Noted s t) (htu : Noted t u) : Noted s u := by
  unfold Noted at hst htu ⊢
  rw [hst] at htu
  exact htu

theorem Held.noted {s t : Solver α} (h : Held s t) : Noted s t := by
  unfold Noted
  rw [h.solver]

theorem Underway.along {s t : Solver α} (h : Underway s t) : Along s t :=
  ⟨h.noted, .inr (.inl h.result)⟩

theorem Underway.held {s t u : Solver α} (h : Underway s t) (hheld : Held t u) : Underway s u :=
  ⟨h.noted.trans hheld.noted, hheld.running.trans h.running, hheld.result.trans h.result⟩

theorem Along.of_same {s t u : Solver α} (h : Along s t) (hnoted : Noted t u)
    (hstatus : u.status = t.status) (hresult : u.result = t.result) : Along s u := by
  refine ⟨h.noted.trans hnoted, ?_⟩
  rw [hstatus, hresult]
  refine h.result.imp_right (Or.imp_right (And.imp_right ?_))
  rintro ⟨system, arg, hsystem, hshows⟩
  refine ⟨system, arg, ?_, ?_⟩
  · rw [hnoted]
    exact hsystem
  · rw [hresult]
    exact hshows

theorem Along.held {s t u : Solver α} (h : Along s t) (hheld : Held t u) : Along s u :=
  h.of_same hheld.noted hheld.status hheld.result

/-- The solver of the world is this one, at most told to cancel and to log elsewhere. -/
def Holding (s : Solver α) (w : World (protocol α μ)) : Prop := Held s w.state.solver

theorem holding_kind (s : Solver α) : Kind (Holding (μ := μ) s) where
  recorded _ _ h := h
  aside v w h hv := by
    refine hv.trans ⟨?_, fun hcanceled => ?_⟩
    · rw [h.solver]
    · rw [h.solver]
      exact hcanceled

/-- The solver of the world is one that a run can take this one to. -/
def Since (s : Solver α) (w : World (protocol α μ)) : Prop := Along s w.state.solver

variable {publish publish' : Publish α μ} {s t : Solver α}

theorem shows_of_pointAt {c : Controller α} {p : Point α} (h : pointAt c = .ok p) :
    p.Shows (pointNames c) := Point.shows_of_project h

theorem pointNames_of_moves {c d : Controller α} (h : c.Moves d) : pointNames d = pointNames c := by
  unfold pointNames
  rw [h]

theorem holding_agrees {d : Nat} {c : Solver.Channel} {e : Solver.Payload α c}
    (hpublish : Delivery.Frame.Publishes WhileRunning d publish) (hrunning : t.running = true)
    (hsame : ∀ w, Holding t w → publish c e w = publish' c e w) :
    Agree (Holding t) (publish c e) (publish' c e) := by
  intro w hw
  obtain ⟨hheld, _⟩ := hpublish c e w (hw.running.trans hrunning)
  exact ⟨hsame w hw, hw.trans hheld⟩

variable [Scalar α]

theorem Steps.moves {tries : Nat} {c last : Controller α} {error? : Option (SolverError α)}
    {points : List (Point α)} {w v : World (protocol α μ)}
    (h : Steps publish tries c w last error? points v) : c.Moves last := by
  induction h with
  | stop _ => exact .refl _
  | @failure c w u e _ _ _ => exact c.moves_advance tries
  | @step c last w u v z s point n error? points _ _ _ _ _ _ ih =>
    exact (c.moves_advance tries).trans ih

theorem Steps.shows {tries : Nat} {c last : Controller α} {error? : Option (SolverError α)}
    {points : List (Point α)} {w v : World (protocol α μ)}
    (h : Steps publish tries c w last error? points v) : ∀ p ∈ points, p.Shows (pointNames c) := by
  induction h with
  | stop _ => exact fun p hp => by cases hp
  | failure _ _ _ => exact fun p hp => by cases hp
  | @step c last w u v z s point n error? points _ _ _ hpoint _ _ ih =>
    have hnames := pointNames_of_moves (c.moves_advance tries)
    rw [hnames] at ih
    intro p hp
    rcases List.mem_cons.mp hp with rfl | hp
    · rw [← hnames]
      exact shows_of_pointAt hpoint
    · exact ih p hp

variable [Numeral α]

theorem stepThrough_agrees (h : ∀ c e, Agree (Holding s) (publish c e) (publish' c e))
    (tries steps : Nat) (c : Controller α) (points : List (Point α)) :
    Agree (Holding s) (stepThrough publish tries steps c points)
      (stepThrough publish' tries steps c points) := by
  induction steps generalizing c points with
  | zero => exact .throw _
  | succ steps ih =>
    refine .bind (.refl fun w hw => hw) fun solver => ?_
    split
    · exact .pure _
    · refine .bind ((holding_kind s).agree_of_aside fun w => ⟨rfl, rfl⟩) fun _ => ?_
      cases (c.advance tries).outcome with
      | exhausted => exact .throw _
      | failure f =>
        cases f with
        | breach b => exact .throw _
        | cause e => exact .pure _
      | step step =>
        have hpromised : Agree (Holding s)
            (Act.promised (pointAt (c.advance tries).controller) : Action α μ (Point α)) _ :=
          .refl ((holding_kind s).frame.promised (d := 0) _)
        refine .bind hpromised fun point => ?_
        exact .bind (h .progress _) fun _ => ih _ _

omit [Scalar α] in
/-- What is stored of the points that a run ends with, and when. -/
theorem conclude_alike {stop : Stop α} {w : World (protocol α μ)}
    (hpublish : ∀ t, Along s t → t.running = true → ∀ c e,
      Agree (Holding t) (publish c e) (publish' c e))
    (hw : Underway s w.state.solver) (hsystem : s.system? = some stop.controller.system)
    (hshows : ∀ p ∈ stop.points, p.Shows (pointNames stop.controller)) :
    Alike (Since s) w (conclude publish stop) (conclude publish' stop) := by
  have hstored {status : RunStatus} (hstatus : status = .finished ∨ status = .canceled) :
      Along s { w.state.solver with status, result := stop.points } := by
    have hnoted : Noted w.state.solver { w.state.solver with status, result := stop.points } := rfl
    refine ⟨hw.noted.trans hnoted, .inr (.inr ⟨hstatus, _, _, ?_, hshows⟩)⟩
    rw [hw.noted]
    exact hsystem
  have htold {status : RunStatus} (hstatus : status = .finished ∨ status = .canceled)
      {u : World (protocol α μ)} (c : Solver.Channel) (e : Solver.Payload α c)
      (hu : u.state.solver = { w.state.solver with status, result := stop.points }) :
      Alike (Since s) u
        (publish c e >>= fun _ => pure (.ok stop.points) : Action α μ (Result α (List (Point α))))
        (publish' c e >>= fun _ => pure (.ok stop.points)) := by
    have hstored := hstored hstatus
    rw [← hu] at hstored
    have hrunning : u.state.solver.running = true := by
      rw [hu]
      exact hw.running
    refine .bind (hpublish _ hstored hrunning c e) (.refl _) (fun v hv => hstored.held hv) ?_
    exact fun _ v _ hv => .refl (hstored.held hv)
  unfold conclude
  cases stop.error? with
  | some e =>
    refine .refl ⟨hw.noted.trans ?_, .inr (.inl hw.result)⟩
    rfl
  | none =>
    refine .bind_of_ok rfl (.bind_of_ok rfl ?_)
    dsimp only
    split
    next => exact .bind_of_ok rfl (.bind_of_ok rfl (htold (.inr rfl) .canceled () rfl))
    next => exact .bind_of_ok rfl (htold (.inl rfl) .completed stop.points rfl)

theorem shows_of_stepThrough {tries steps : Nat} {c : Controller α} {point : Point α} {stop : Stop α}
    {w v : World (protocol α μ)} (hpoint : pointAt c = .ok point)
    (h : stepThrough publish tries steps c [point] w = .ok stop v) :
    stop.controller.system = c.system ∧
      ∀ p ∈ stop.points, p.Shows (pointNames stop.controller) := by
  obtain ⟨later, hpoints, hsteps⟩ := steps_of_stepThrough h
  have hmoves := hsteps.moves
  refine ⟨by rw [hmoves], fun p hp => ?_⟩
  rw [pointNames_of_moves hmoves]
  rw [hpoints] at hp
  rcases List.mem_cons.mp hp with rfl | hp
  · exact shows_of_pointAt hpoint
  · exact hsteps.shows p hp

theorem runSetup_alike {fuel : Nat} {setup : Setup α} {adaptive : Bool} {w : World (protocol α μ)}
    (hpublish : ∀ t, Along s t → t.running = true → ∀ c e,
      Agree (Holding t) (publish c e) (publish' c e))
    (hw : Noted s w.state.solver) (hrunning : w.state.solver.running = true)
    (hsystem : s.system? = some setup.system) :
    Alike (Since s) w (runSetup publish fuel setup adaptive)
      (runSetup publish' fuel setup adaptive) := by
  have hunderway (status : RunStatus) : Underway s { w.state.solver with status, result := [] } :=
    ⟨hw.trans rfl, hrunning, rfl⟩
  refine .bind_of_ok rfl ?_
  cases hstart : Controller.start setup.system setup.range setup.tolerance setup.y adaptive with
  | error f =>
    cases f with
    | breach b => exact .refl (hunderway .running).along
    | cause e => exact .refl (hunderway .failed).along
  | ok c =>
    refine .bind_of_ok rfl ?_
    dsimp only
    cases hpoint : pointAt c with
    | error f =>
      cases f with
      | breach b => exact .refl (hunderway .running).along
      | cause e => cases e
    | ok point =>
      refine .bind_of_ok rfl (.bind_of_ok rfl ?_)
      have htell := hpublish _ (hunderway .running).along hrunning
      refine .bind (htell .runStarted setup.range) (.refl _)
        (fun v hv => (hunderway .running).along.held hv) fun _ told _ htold => ?_
      refine .bind (stepThrough_agrees htell fuel fuel c [point]) htold
        (fun v hv => (hunderway .running).along.held hv) fun stop stepped hthrough hstepped => ?_
      obtain ⟨hsame, hshows⟩ := shows_of_stepThrough hpoint hthrough
      have hstarted := (Controller.started_of_start hstart).fields
      refine conclude_alike hpublish ((hunderway .running).held hstepped) ?_ hshows
      rw [hsame, hstarted]
      exact hsystem

/-- A run is the same for all who are told of its events and leave its solver alone. -/
theorem run_alike {fuel : Nat} {adaptive : Bool} {w : World (protocol α μ)}
    (hidle : w.state.solver.running = false)
    (hpublish : ∀ t, Along w.state.solver t → t.running = true → ∀ c e,
      Agree (Holding t) (publish c e) (publish' c e)) :
    Alike (fun v => Since w.state.solver v ∧ v.state.solver.running = false) w
      (run publish fuel adaptive) (run publish' fuel adaptive) := by
  refine .bind_of_ok rfl ?_
  rw [if_neg (by simp [hidle]), if_neg (by simp [hidle])]
  refine .bind_of_ok rfl ?_
  cases hprepare : w.state.solver.prepare with
  | error fault =>
    refine .refl ⟨⟨rfl, .inl ⟨rfl, rfl⟩⟩, rfl⟩
  | ok setup =>
    have hsystem := (Solver.prepared_of_prepare hprepare).system
    let locked := withSolver w { w.state.solver with cancelRequested := false, running := true }
    obtain ⟨hsame, hafter⟩ :
        Alike (Since w.state.solver) locked
          (runSetup publish fuel setup adaptive) (runSetup publish' fuel setup adaptive) :=
      runSetup_alike hpublish rfl rfl hsystem
    refine ⟨releasing_eq hsame, ?_⟩
    rw [after_releasing]
    exact ⟨hafter.of_same rfl rfl rfl, rfl⟩

end Session

end Trajectory
