import Trajectory.Proofs.Solver.Protocol
import Trajectory.Proofs.Solver.Way

namespace Trajectory

namespace Session

open Delivery.Frame (Publishes)

variable {α μ : Type}

/-- A run once the event of its start or of a step has reached everyone. -/
structure Stage (α μ : Type) where
  controller : Controller α
  points : List (Point α)
  /-- What was told of the steps so far. -/
  progress : List (Solver.Progress α)
  /-- When the event was about to be published. -/
  before : World (protocol α μ)
  after : World (protocol α μ)

/-- The world once an event has reached everyone, if it does. -/
def delivered? (publish : Publish α μ) (c : Solver.Channel) (e : Solver.Payload α c)
    (w : World (protocol α μ)) : Option (World (protocol α μ)) :=
  match publish c e w with
  | .ok _ v => some v
  | .error _ _ => none

theorem delivered?_eq_some_iff {publish : Publish α μ} {c : Solver.Channel}
    {e : Solver.Payload α c} {w v : World (protocol α μ)} :
    delivered? publish c e w = some v ↔ ∃ n, publish c e w = .ok n v := by
  unfold delivered?
  cases publish c e w with
  | ok n u => simp
  | error halt u => simp

section Stages

variable [Scalar α] [Numeral α]

def Stage.first? (publish : Publish α μ) (adaptive : Bool) (w : World (protocol α μ)) :
    Option (Stage α μ) := do
  let setup ← w.state.solver.prepare.toOption
  let c ← (Controller.start setup.system setup.range setup.tolerance setup.y adaptive).toOption
  let point ← (pointAt c).toOption
  let before := begun w setup adaptive
  let after ← delivered? publish .runStarted setup.range before
  pure ⟨c, [point], [], before, after⟩

def Stage.next? (publish : Publish α μ) (tries : Nat) (t : Stage α μ) : Option (Stage α μ) :=
  if stops t.controller t.after then none
  else
    let a := t.controller.advance tries
    match a.outcome with
    | .step s => do
      let point ← (pointAt a.controller).toOption
      let told : Solver.Progress α := ⟨s.x, s.size, s.errorNorm⟩
      let before := tried tries t.controller t.after
      let after ← delivered? publish .progress told before
      pure ⟨a.controller, t.points ++ [point], t.progress ++ [told], before, after⟩
    | _ => none

/-- The stage of a run after a number of steps, if the run gets there. -/
def stage? (publish : Publish α μ) (fuel : Nat) (adaptive : Bool) (w : World (protocol α μ)) :
    Nat → Option (Stage α μ)
  | 0 => Stage.first? publish adaptive w
  | k + 1 => do
    let t ← stage? publish fuel adaptive w k
    t.next? publish fuel

def Stage.rest (publish : Publish α μ) (tries steps : Nat) (t : Stage α μ) :
    Action α μ (Result α (List (Point α))) := do
  let stop ← stepThrough publish tries steps t.controller t.points.reverse
  conclude publish stop

end Stages

variable [Scalar α] [Numeral α] {publish : Publish α μ} {fuel tries k d : Nat} {adaptive : Bool}
  {w v : World (protocol α μ)} {t t' : Stage α μ}

theorem toOption_eq_some {ε β : Type} {c : Except ε β} {b : β} (h : c.toOption = some b) :
    c = .ok b := by
  cases c with
  | error e => cases h
  | ok a =>
    cases h
    rfl

/-- What a run has been through at its first stage. -/
structure Stage.Begun (publish : Publish α μ) (adaptive : Bool) (w : World (protocol α μ))
    (setup : Setup α) (point : Point α) (t : Stage α μ) : Prop where
  prepare : w.state.solver.prepare = .ok setup
  start : Controller.start setup.system setup.range setup.tolerance setup.y adaptive =
    .ok t.controller
  place : pointAt t.controller = .ok point
  points : t.points = [point]
  progress : t.progress = []
  before : t.before = begun w setup adaptive
  told : ∃ n, publish .runStarted setup.range t.before = .ok n t.after

theorem begun_of_first? (h : Stage.first? publish adaptive w = some t) :
    ∃ setup point, t.Begun publish adaptive w setup point := by
  obtain ⟨setup, hprepare, h⟩ := Option.bind_eq_some_iff.mp h
  obtain ⟨c, hstart, h⟩ := Option.bind_eq_some_iff.mp h
  obtain ⟨point, hpoint, h⟩ := Option.bind_eq_some_iff.mp h
  obtain ⟨after, hafter, h⟩ := Option.bind_eq_some_iff.mp h
  cases h
  exact ⟨setup, point, toOption_eq_some hprepare, toOption_eq_some hstart, toOption_eq_some hpoint,
    rfl, rfl, rfl, delivered?_eq_some_iff.mp hafter⟩

structure Stage.Next (publish : Publish α μ) (tries : Nat) (t : Stage α μ) (s : AcceptedStep α)
    (point : Point α) (t' : Stage α μ) : Prop where
  goes : stops t.controller t.after = false
  outcome : (t.controller.advance tries).outcome = .step s
  controller : t'.controller = (t.controller.advance tries).controller
  place : pointAt t'.controller = .ok point
  points : t'.points = t.points ++ [point]
  progress : t'.progress = t.progress ++ [⟨s.x, s.size, s.errorNorm⟩]
  before : t'.before = tried tries t.controller t.after
  told : ∃ n, publish .progress ⟨s.x, s.size, s.errorNorm⟩ t'.before = .ok n t'.after

theorem next_of_next? (h : t.next? publish tries = some t') :
    ∃ s point, t.Next publish tries s point t' := by
  unfold Stage.next? at h
  split at h
  next => cases h
  next hgo =>
    dsimp only at h
    split at h
    next s houtcome =>
      obtain ⟨point, hpoint, h⟩ := Option.bind_eq_some_iff.mp h
      obtain ⟨after, hafter, h⟩ := Option.bind_eq_some_iff.mp h
      cases h
      exact ⟨s, point, by simpa using hgo, houtcome, rfl, toOption_eq_some hpoint, rfl, rfl, rfl,
        delivered?_eq_some_iff.mp hafter⟩
    next => cases h

theorem Stage.Begun.run_eq {setup : Setup α} {point : Point α}
    (h : t.Begun publish adaptive w setup point) (hidle : w.state.solver.running = false) :
    run publish fuel adaptive w = releasing (t.rest publish fuel fuel) t.after := by
  let locked := withSolver w { w.state.solver with cancelRequested := false, running := true }
  have hlocked : run publish fuel adaptive w =
      releasing (runSetup publish fuel setup adaptive) locked := by
    rw [run_of_idle hidle, h.prepare]
  have hsetup : runSetup publish fuel setup adaptive locked = t.rest publish fuel fuel t.after := by
    -- Up to the event the parts touch nothing but the solver and the log.
    obtain ⟨n, htold⟩ := h.told
    rw [h.before] at htold
    unfold runSetup
    refine (Act.bind_of_ok rfl).trans ?_
    rw [h.start]
    refine (Act.bind_of_ok rfl).trans ?_
    dsimp only
    rw [h.place]
    refine (Act.bind_of_ok rfl).trans ?_
    refine (Act.bind_of_ok rfl).trans ?_
    refine (Act.bind_of_ok htold).trans ?_
    rw [Stage.rest, h.points]
    rfl
  rw [hlocked]
  exact releasing_eq hsetup

theorem Stage.Next.rest_eq {s : AcceptedStep α} {point : Point α} {steps : Nat}
    (h : t.Next publish tries s point t') :
    t.rest publish tries (steps + 1) t.after = t'.rest publish tries steps t'.after := by
  have hstep : stepThrough publish tries (steps + 1) t.controller t.points.reverse t.after =
      stepThrough publish tries steps t'.controller t'.points.reverse t'.after := by
    obtain ⟨n, htold⟩ := h.told
    have hplace := h.place
    rw [h.before] at htold
    rw [h.controller] at hplace
    rw [stepThrough]
    refine (Act.bind_of_ok rfl).trans ?_
    have hgoes := h.goes
    unfold stops at hgoes
    rw [if_neg (by simp [hgoes])]
    refine (Act.bind_of_ok rfl).trans ?_
    rw [h.outcome]
    refine (Act.bind_of_ok (by rw [hplace]; rfl)).trans ?_
    refine (Act.bind_of_ok htold).trans ?_
    rw [h.controller, h.points, List.reverse_append]
    rfl
  simp only [Stage.rest, bind, EStateM.bind, hstep]

/-- A run goes from stage to stage. -/
theorem run_of_stage {steps : Nat} (hidle : w.state.solver.running = false)
    (h : stage? publish fuel adaptive w k = some t) (hfuel : k + steps = fuel) :
    run publish fuel adaptive w = releasing (t.rest publish fuel steps) t.after := by
  -- Each step that leads to a stage takes one of the steps that are left.
  induction k generalizing steps t with
  | zero =>
    obtain ⟨setup, point, hbegun⟩ := begun_of_first? h
    rw [hbegun.run_eq hidle, ← hfuel, Nat.zero_add]
  | succ k ih =>
    obtain ⟨u, hu, h⟩ := Option.bind_eq_some_iff.mp h
    obtain ⟨s, point, hnext⟩ := next_of_next? h
    have hrun : run publish fuel adaptive w = releasing (u.rest publish fuel (steps + 1)) u.after :=
      ih hu (by omega)
    rw [hrun]
    exact releasing_eq hnext.rest_eq

/-- The world in which a run that is canceled at a stage is about to tell that it was. -/
def Stage.closing (t : Stage α μ) : World (protocol α μ) :=
  let logged := (t.after.addLog (stepsLine t.controller)).addLog (canceledLine t.controller)
  withSolver logged { logged.state.solver with status := .canceled, result := t.points }

theorem Stage.rest_of_stops {steps : Nat} (hstops : stops t.controller t.after = true) :
    t.rest publish tries (steps + 1) t.after =
      conclude publish ⟨t.controller, t.points, none⟩ t.after := by
  have hstop : stepThrough publish tries (steps + 1) t.controller t.points.reverse t.after =
      .ok ⟨t.controller, t.points, none⟩ t.after := by
    unfold stops at hstops
    rw [stepThrough]
    refine (Act.bind_of_ok rfl).trans ?_
    rw [if_pos (by simpa using hstops), List.reverse_reverse]
    rfl
  exact Act.bind_of_ok hstop

theorem Stage.rest_of_requested {steps n : Nat} {ended : World (protocol α μ)}
    (hrequested : t.after.state.solver.cancelRequested = true)
    (hended : publish .canceled () t.closing = .ok n ended) :
    t.rest publish tries (steps + 1) t.after = .ok (.ok t.points) ended := by
  rw [Stage.rest_of_stops (by simp [stops, hrequested])]
  unfold conclude
  dsimp only
  refine (Act.bind_of_ok rfl).trans ?_
  refine (Act.bind_of_ok rfl).trans ?_
  rw [if_pos hrequested]
  refine (Act.bind_of_ok rfl).trans ?_
  refine (Act.bind_of_ok rfl).trans ?_
  exact Act.bind_of_ok hended

theorem Stage.rest_of_failure {steps : Nat} {e : SolverError α}
    (hgoes : stops t.controller t.after = false)
    (houtcome : (t.controller.advance tries).outcome = .failure (.cause e)) :
    ∃ u, t.rest publish tries (steps + 1) t.after = .ok (.error e) u := by
  have hstop : stepThrough publish tries (steps + 1) t.controller t.points.reverse t.after =
      .ok ⟨(t.controller.advance tries).controller, t.points, some e⟩
        (tried tries t.controller t.after) := by
    unfold stops at hgoes
    rw [stepThrough]
    refine (Act.bind_of_ok rfl).trans ?_
    rw [if_neg (by simp [hgoes])]
    refine (Act.bind_of_ok rfl).trans ?_
    rw [houtcome, List.reverse_reverse]
    rfl
  exact ⟨_, (Act.bind_of_ok hstop).trans rfl⟩

theorem begun_of_run {result : Result α (List (Point α))} (hidle : w.state.solver.running = false)
    (h : run publish fuel adaptive w = .ok result v) :
    v.history = w.history ∨ ∃ t, Stage.first? publish adaptive w = some t := by
  cases opened_of_run hidle h with
  | refused _ hsilent => exact .inl hsilent
  | @begun setup c point _ n told _ _ hprepare hstart hpoint htell =>
    have hdelivered : delivered? publish .runStarted setup.range (begun w setup adaptive) =
        some told := delivered?_eq_some_iff.mpr ⟨n, htell⟩
    refine .inr ⟨⟨c, [point], [], begun w setup adaptive, told⟩, ?_⟩
    simp [Stage.first?, hprepare, hstart, hpoint, hdelivered, Except.toOption]

/-- From a stage a run with an answer concludes or gets to the next stage. -/
theorem Stage.rest_cases {steps : Nat} {result : Result α (List (Point α))}
    (h : t.rest publish tries steps t.after = .ok result v) :
    0 < steps ∧ ((∃ stop u, Aside t.after u ∧ conclude publish stop u = .ok result v) ∨
      ∃ t', t.next? publish tries = some t') := by
  obtain ⟨stop, u, hthrough, hconclude⟩ := Act.bind_eq_ok_iff.mp h
  cases onward_of_stepThrough hthrough with
  | stop _ _ hsame =>
    rw [hsame] at hconclude
    exact ⟨Nat.succ_pos _, .inl ⟨stop, t.after, ⟨rfl, rfl⟩, hconclude⟩⟩
  | failure _ _ _ hafter =>
    rw [hafter] at hconclude
    exact ⟨Nat.succ_pos _, .inl ⟨stop, _, aside_tried tries t.controller t.after, hconclude⟩⟩
  | @step _ n s point told hgoes houtcome hpoint htell =>
    have hdelivered : delivered? publish .progress ⟨s.x, s.size, s.errorNorm⟩
        (tried tries t.controller t.after) = some told := delivered?_eq_some_iff.mpr ⟨n, htell⟩
    refine ⟨Nat.succ_pos _, .inr ⟨⟨(t.controller.advance tries).controller, t.points ++ [point],
      t.progress ++ [⟨s.x, s.size, s.errorNorm⟩], tried tries t.controller t.after, told⟩, ?_⟩⟩
    simp [Stage.next?, hgoes, houtcome, hpoint, hdelivered, Except.toOption]

theorem last_of_rest {steps : Nat} {result : Result α (List (Point α))} (hfuel : k + steps = fuel)
    (hstage : stage? publish fuel adaptive w k = some t)
    (h : t.rest publish fuel steps t.after = .ok result v) :
    ∃ m t stop u, m < fuel ∧ stage? publish fuel adaptive w m = some t ∧ Aside t.after u ∧
      conclude publish stop u = .ok result v := by
  induction steps generalizing k t with
  | zero => exact absurd (Stage.rest_cases h).1 (Nat.lt_irrefl 0)
  | succ steps ih =>
    rcases (Stage.rest_cases h).2 with ⟨stop, u, haside, hconclude⟩ | ⟨t', hnext⟩
    · exact ⟨k, t, stop, u, by omega, hstage, haside, hconclude⟩
    · have hstage' : stage? publish fuel adaptive w (k + 1) = some t' :=
        Option.bind_eq_some_iff.mpr ⟨t, hstage, hnext⟩
      obtain ⟨s, point, hmade⟩ := next_of_next? hnext
      rw [hmade.rest_eq] at h
      exact ih (by omega) hstage' h

theorem last_of_run {result : Result α (List (Point α))}
    (hidle : w.state.solver.running = false) (h : run publish fuel adaptive w = .ok result v)
    (htold : v.history ≠ w.history) :
    ∃ m t stop u ended, m < fuel ∧ stage? publish fuel adaptive w m = some t ∧ Aside t.after u ∧
      conclude publish stop u = .ok result ended ∧ v = released ended := by
  obtain ⟨t, hfirst⟩ := (begun_of_run hidle h).resolve_left htold
  have hstage : stage? publish fuel adaptive w 0 = some t := hfirst
  have hrun := run_of_stage hidle hstage (Nat.zero_add fuel)
  rw [h] at hrun
  obtain ⟨ended, hrest, hreleased⟩ := of_releasing hrun.symm
  obtain ⟨m, t, stop, u, hm, hstage, haside, hconclude⟩ :=
    last_of_rest (Nat.zero_add fuel) hstage hrest
  exact ⟨m, t, stop, u, ended, hm, hstage, haside, hconclude, hreleased⟩

theorem way_of_stage (h : stage? publish fuel adaptive w k = some t) :
    ∃ setup c point later, w.state.solver.prepare = .ok setup ∧
      Controller.start setup.system setup.range setup.tolerance setup.y adaptive = .ok c ∧
        pointAt c = .ok point ∧ t.points = point :: later ∧ Way c later t.controller ∧
          later.length = k ∧ t.progress.length = k := by
  induction k generalizing t with
  | zero =>
    obtain ⟨setup, point, hbegun⟩ := begun_of_first? h
    exact ⟨setup, t.controller, point, [], hbegun.prepare, hbegun.start, hbegun.place,
      hbegun.points, .refl _, rfl, by rw [hbegun.progress]; rfl⟩
  | succ k ih =>
    obtain ⟨u, hu, h⟩ := Option.bind_eq_some_iff.mp h
    obtain ⟨s, point', hnext⟩ := next_of_next? h
    obtain ⟨setup, c, point, later, hprepare, hstart, hpoint, hpoints, hway, hlater, hprogress⟩ :=
      ih hu
    refine ⟨setup, c, point, later ++ [point'], hprepare, hstart, hpoint, ?_, ?_, ?_, ?_⟩
    · rw [hnext.points, hpoints, List.cons_append]
    · have hplace := hnext.place
      rw [hnext.controller] at hplace ⊢
      exact hway.trans (.step (finished_of_stops hnext.goes) hnext.outcome hplace (.refl _))
    · rw [List.length_append, hlater, List.length_singleton]
    · rw [hnext.progress, List.length_append, hprogress, List.length_singleton]

theorem delivery_of_stage (h : stage? publish fuel adaptive w k = some t) :
    ∃ (c : Solver.Channel) (e : Solver.Payload α c) (n : Nat), c ≠ .canceled ∧
      publish c e t.before = .ok n t.after := by
  cases k with
  | zero =>
    obtain ⟨setup, point, hbegun⟩ := begun_of_first? h
    obtain ⟨n, htold⟩ := hbegun.told
    exact ⟨.runStarted, setup.range, n, by decide, htold⟩
  | succ k =>
    obtain ⟨u, hu, h⟩ := Option.bind_eq_some_iff.mp h
    obtain ⟨s, point, hnext⟩ := next_of_next? h
    obtain ⟨n, htold⟩ := hnext.told
    exact ⟨.progress, _, n, by decide, htold⟩

/-- What a run has told when it has reached a stage. It is in progress all the while. -/
theorem tells_of_stage (hpublish : Publishes WhileRunning d publish)
    (h : stage? publish fuel adaptive w k = some t) :
    t.before.state.solver.running = true ∧ t.after.state.solver.running = true ∧
      Tells d w t.after (⟨.runStarted, w.state.solver.range⟩ :: t.progress.map progressEvent) := by
  induction k generalizing t with
  | zero =>
    obtain ⟨setup, point, hbegun⟩ := begun_of_first? h
    obtain ⟨n, htold⟩ := hbegun.told
    have hrunning : t.before.state.solver.running = true := by
      rw [hbegun.before]
      rfl
    obtain ⟨hheld, htells⟩ := tells_of_publish hpublish hrunning htold ⟨rfl, rfl⟩
    have hsilent : Tells d w t.before [] := by
      rw [hbegun.before]
      exact .of_same rfl
    have hrange : setup.range = w.state.solver.range :=
      (Solver.prepared_of_prepare hbegun.prepare).range
    refine ⟨hrunning, hheld.running.trans hrunning, ?_⟩
    rw [hbegun.progress, ← hrange]
    exact hsilent.trans htells
  | succ k ih =>
    obtain ⟨u, hu, h⟩ := Option.bind_eq_some_iff.mp h
    obtain ⟨s, point, hnext⟩ := next_of_next? h
    obtain ⟨n, htold⟩ := hnext.told
    obtain ⟨_, hafter, hearlier⟩ := ih hu
    have haside : Aside u.after t.before := by
      rw [hnext.before]
      exact aside_tried _ _ _
    have hrunning : t.before.state.solver.running = true := by
      rw [hnext.before]
      exact hafter
    obtain ⟨hheld, htells⟩ := tells_of_publish hpublish hafter htold haside
    refine ⟨hrunning, hheld.running.trans hafter, ?_⟩
    have hall := hearlier.trans htells
    rw [hnext.progress, List.map_append]
    exact hall

theorem completed_of_run {calls : Nat} {points : List (Point α)}
    (hidle : w.state.solver.running = false)
    (h : run (Delivery.deliver (answer α μ) calls d) fuel adaptive w = .ok (.ok points) v)
    (hstatus : v.state.solver.status ≠ .canceled) :
    ∃ setup c point later last, w.state.solver.prepare = .ok setup ∧
      Controller.start setup.system setup.range setup.tolerance setup.y adaptive = .ok c ∧
        pointAt c = .ok point ∧ points = point :: later ∧ Way c later last ∧
          last.finished = true := by
  have hpublish : Publishes WhileRunning d (Delivery.deliver (answer α μ) calls d) :=
    deliver_keeps calls d
  cases opened_of_run hidle h with
  | refused herror => cases herror
  | @begun setup c point stop n told stepped ended hprepare hstart hpoint htell hthrough hconclude
      hreleased =>
    obtain ⟨later, hpoints, hsteps⟩ := steps_of_stepThrough hthrough
    obtain ⟨hheld, _⟩ := tells_of_steps hpublish rfl htell hsteps
    rcases conclude_ends hpublish hheld.running hconclude with
      ⟨_, _, herror, _⟩ | ⟨hresult, hdone, _, ⟨hflag, _, _⟩ | ⟨_, hcanceled, _⟩⟩
    · cases herror
    · cases hresult
      rw [hdone] at hsteps
      obtain ⟨hway, hstops⟩ := hsteps.way
      have hend : stop.controller.finished = true := by simpa [stops, hflag] using hstops
      exact ⟨setup, c, point, later, stop.controller, hprepare, hstart, hpoint, hpoints, hway, hend⟩
    · rw [hreleased] at hstatus
      exact absurd hcanceled hstatus

section Comparison

variable {s s' : Solver α} {setup setup' : Setup α} {c c' : Controller α} {point point' : Point α}

omit [Numeral α] in
theorem start_unique (hnoted : Noted s s') (h : Solver.Prepared s setup)
    (h' : Solver.Prepared s' setup')
    (hstart : Controller.start setup.system setup.range setup.tolerance setup.y adaptive = .ok c)
    (hstart' : Controller.start setup'.system setup'.range setup'.tolerance setup'.y adaptive =
      .ok c')
    (hpoint : pointAt c = .ok point) (hpoint' : pointAt c' = .ok point') :
    c' = c ∧ point' = point := by
  obtain rfl := h.unique hnoted h'
  rw [hstart] at hstart'
  cases hstart'
  rw [hpoint] at hpoint'
  cases hpoint'
  exact ⟨rfl, rfl⟩

/-- Two runs with one setup have been over the same points at the same stage, whoever listens. -/
theorem points_of_stages {publish' : Publish α μ} {fuel' : Nat} {w' : World (protocol α μ)}
    (hnoted : Noted w.state.solver w'.state.solver)
    (h : stage? publish fuel adaptive w k = some t)
    (h' : stage? publish' fuel' adaptive w' k = some t') : t'.points = t.points := by
  obtain ⟨setup, c, point, later, hprepare, hstart, hpoint, hpoints, hway, hlength, _⟩ :=
    way_of_stage h
  obtain ⟨setup', c', point', later', hprepare', hstart', hpoint', hpoints', hway', hlength', _⟩ :=
    way_of_stage h'
  obtain ⟨rfl, rfl⟩ := start_unique hnoted (Solver.prepared_of_prepare hprepare)
    (Solver.prepared_of_prepare hprepare') hstart hstart' hpoint hpoint'
  have hlater : later' = later := hway.eq_of_length_eq hway' (hlength.trans hlength'.symm)
  rw [hpoints, hpoints', hlater]

theorem points_of_run {calls fuel' d' : Nat} {w' v : World (protocol α μ)} {points : List (Point α)}
    (hnoted : Noted w.state.solver w'.state.solver)
    (h : stage? publish fuel adaptive w k = some t) (hidle : w'.state.solver.running = false)
    (hrun : run (Delivery.deliver (answer α μ) calls d') fuel' adaptive w' = .ok (.ok points) v)
    (hstatus : v.state.solver.status ≠ .canceled) : t.points = points.take (k + 1) := by
  obtain ⟨setup, c, point, later, hprepare, hstart, hpoint, hpoints, hway, hlength, _⟩ :=
    way_of_stage h
  obtain ⟨setup', c', point', later', last, hprepare', hstart', hpoint', hpoints', hway', hend⟩ :=
    completed_of_run hidle hrun hstatus
  obtain ⟨rfl, rfl⟩ := start_unique hnoted (Solver.prepared_of_prepare hprepare)
    (Solver.prepared_of_prepare hprepare') hstart hstart' hpoint hpoint'
  have htake : later = later'.take later.length := hway.eq_take_of_finished hway' hend
  rw [hpoints, hpoints', List.take_succ_cons, ← hlength, ← htake]

end Comparison

end Session

end Trajectory
