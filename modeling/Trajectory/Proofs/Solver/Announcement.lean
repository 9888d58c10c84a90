import Trajectory.Proofs.Settings.Standard
import Trajectory.Proofs.Solver.Exclusion
import Trajectory.Proofs.Solver.Protocol
import Trajectory.Proofs.Solver.Reachable

namespace Trajectory

namespace Session

open Delivery (deliver)

variable {α μ : Type}

/-- Everything published since was published at this depth or a greater one. -/
def Deeper (d : Nat) (w v : World (protocol α μ)) : Prop :=
  ∃ new, v.history = new ++ w.history ∧ ∀ k c e, .published k c e ∈ new → d ≤ k

theorem Deeper.of_same {d : Nat} {w v : World (protocol α μ)} (h : v.history = w.history) :
    Deeper d w v := ⟨[], h, fun _ _ _ hmem => by cases hmem⟩

theorem Deeper.of_record {d : Nat} {w : World (protocol α μ)} {o : Occurrence (protocol α μ)}
    (ho : ∀ k c e, o = .published k c e → d ≤ k) : Deeper d w (w.record o) :=
  ⟨[o], rfl, fun k c e hmem => ho k c e (List.mem_singleton.mp hmem).symm⟩

theorem deeper_pervasive [Scalar α] : Pervasive (Deeper (α := α) (μ := μ)) where
  trans d u v w huv hvw := by
    obtain ⟨first, hfirst, hdeep⟩ := huv
    obtain ⟨later, hlater, hdeep'⟩ := hvw
    refine ⟨later ++ first, by rw [hlater, hfirst, List.append_assoc], fun k c e hmem => ?_⟩
    exact (List.mem_append.mp hmem).elim (hdeep' k c e) (hdeep k c e)
  mono d v w h := by
    obtain ⟨new, hnew, hdeep⟩ := h
    exact ⟨new, hnew, fun k c e hmem => Nat.le_of_succ_le (hdeep k c e hmem)⟩
  called d w k c id := .of_record fun _ _ _ h => by cases h
  returned d w k c id reason? := .of_record fun _ _ _ h => by cases h
  aside d v w h := .of_same h.history
  noted d v w _ h := .of_same h
  changed d w f c _ _ := .of_same rfl
  published d w c e := .of_record fun k c' e' h => by
    cases h
    exact Nat.le_refl d

/-- The second world differs from the first one at most in its log. -/
structure LogsMore (w u : World (protocol α μ)) : Prop where
  state : u.state = w.state
  hub : u.hub = w.hub
  history : u.history = w.history

theorem LogsMore.refl (w : World (protocol α μ)) : LogsMore w w := ⟨rfl, rfl, rfl⟩

theorem LogsMore.withSolver {w u : World (protocol α μ)} (h : LogsMore w u) (s : Solver α) :
    LogsMore (withSolver w s) (withSolver u s) := by
  refine ⟨?_, h.hub, h.history⟩
  unfold Session.withSolver
  rw [h.state]

/-- What is told of a setting, read off the solver that has it. -/
def announcement? (s : Solver α) : Request α μ → Option (Solver.Event α)
  | .setEquations _ => some ⟨.equationsUpdated, s.names⟩
  | .setConditions _ => some ⟨.initialConditionsChanged, s.conditions⟩
  | .setRange .. => some ⟨.rangeChanged, s.range⟩
  | .setTolerance .. => some ⟨.toleranceChanged, s.tolerance.absolute, s.tolerance.relative⟩
  | .setStepBounds .. | .setFactorBounds .. | .setSafety _ | .setNorm _ =>
    some ⟨.stepControlChanged, s.tolerance⟩
  | _ => none

/-- A change of the whole solver, which is to its settings alone and only to those that are asked
for. With its equations a solver gives up its conditions and its result. -/
inductive Sets [Scalar α] (s : Solver α) : Request α μ → Solver α → Prop
  | equations {sources : List String} {system : OdeSystem α}
      (hreduce : OdeSystem.reduce sources = .ok system) :
      Sets s (.setEquations sources) { s with system? := some system, conditions := .empty, result := [] }
  | conditions (conditions : Conditions α) : Sets s (.setConditions conditions) { s with conditions }
  | range (arg : String) (start finish firstStep : α) :
      Sets s (.setRange arg start finish firstStep)
        { s with range := ⟨Text.trimmed arg, start, finish, firstStep⟩ }
  | tolerance (absolute relative : α) :
      Sets s (.setTolerance absolute relative)
        { s with tolerance := { s.tolerance with absolute, relative } }
  | stepBounds (minStep? maxStep? : Option α) :
      Sets s (.setStepBounds minStep? maxStep?)
        { s with tolerance := { s.tolerance with minStep?, maxStep? } }
  | factorBounds (minFactor maxFactor : α) :
      Sets s (.setFactorBounds minFactor maxFactor)
        { s with tolerance := { s.tolerance with minFactor, maxFactor } }
  | safety (safety : α) :
      Sets s (.setSafety safety) { s with tolerance := { s.tolerance with safety } }
  | norm (norm : ErrorNorm) : Sets s (.setNorm norm) { s with tolerance := { s.tolerance with norm } }

variable [Scalar α] {publish : Publish α μ} {d : Nat} {w v : World (protocol α μ)}

/-- A setter of what a request asks for, with its announcement. -/
def Meets (q : Request α μ) (f : Solver α → Except (SolverError α) (Change α)) : Prop :=
  ∀ s c, f s = .ok c → Sets s q c.solver ∧ announcement? c.solver q = some c.event

theorem meets_stepControl {q : Request α μ} {change : Tolerance α → Tolerance α}
    (hsets : ∀ s, Sets s q { s with tolerance := change s.tolerance })
    (hevent : ∀ s, announcement? s q = some ⟨.stepControlChanged, s.tolerance⟩) :
    Meets q fun s => s.setStepControl change := by
  intro s c h
  obtain ⟨_, _, h⟩ := bind_eq_ok.mp h
  obtain ⟨_, _, h⟩ := bind_eq_ok.mp h
  cases h
  exact ⟨hsets s, hevent _⟩

theorem meets_setEquations (sources : List String) :
    Meets (.setEquations sources : Request α μ) fun s => s.setEquations sources := by
  intro s c h
  obtain ⟨_, _, h⟩ := bind_eq_ok.mp h
  obtain ⟨system, hreduce, h⟩ := bind_eq_ok.mp h
  cases h
  exact ⟨.equations (mapError_eq_ok.mp hreduce), rfl⟩

theorem meets_setConditions (conditions : Conditions α) :
    Meets (.setConditions conditions : Request α μ) fun s => s.setConditions conditions := by
  intro s c h
  obtain ⟨_, _, h⟩ := bind_eq_ok.mp h
  obtain ⟨_, _, h⟩ := bind_eq_ok.mp h
  cases h
  exact ⟨.conditions conditions, rfl⟩

theorem meets_setRange (arg : String) (start finish firstStep : α) :
    Meets (.setRange arg start finish firstStep : Request α μ)
      fun s => s.setRange arg start finish firstStep := by
  intro s c h
  obtain ⟨range, hmake, h⟩ := bind_eq_ok.mp h
  obtain ⟨_, _, h⟩ := bind_eq_ok.mp h
  cases h
  obtain ⟨rfl, _⟩ := Range.eq_of_make (mapError_eq_ok.mp hmake)
  exact ⟨.range arg start finish firstStep, rfl⟩

theorem meets_setTolerance (absolute relative : α) :
    Meets (.setTolerance absolute relative : Request α μ)
      fun s => s.setTolerance absolute relative := by
  intro s c h
  obtain ⟨_, _, h⟩ := bind_eq_ok.mp h
  obtain ⟨_, _, h⟩ := bind_eq_ok.mp h
  obtain ⟨_, _, h⟩ := bind_eq_ok.mp h
  cases h
  exact ⟨.tolerance absolute relative, rfl⟩

variable [Numeral α] {fuel : Nat}

/-- Each setting is a change that is carried out once its reduction is logged, if it has one. -/
theorem exists_change_of_setting {q : Request α μ} (hq : q.isSetting = true) {a : Answer q}
    (h : answer α μ fuel publish q w = .ok a v) :
    ∃ f u r, Meets q f ∧ LogsMore w u ∧ change publish f u = .ok r v ∧ error? q a = r.error? := by
  cases q with
  | setEquations sources =>
    obtain ⟨s, _, hget, h⟩ := Act.bind_eq_ok_iff.mp h
    cases hget
    dsimp only at h
    split at h
    next =>
      obtain ⟨_, u, hlog, h⟩ := Act.bind_eq_ok_iff.mp h
      have hlogs : LogsMore w u := by
        cases hlog
        exact ⟨rfl, rfl, rfl⟩
      exact ⟨_, u, a, meets_setEquations sources, hlogs, h, rfl⟩
    next => exact ⟨_, w, a, meets_setEquations sources, .refl w, h, rfl⟩
  | setConditions conditions => exact ⟨_, w, a, meets_setConditions conditions, .refl w, h, rfl⟩
  | setRange arg start finish firstStep =>
    exact ⟨_, w, a, meets_setRange arg start finish firstStep, .refl w, h, rfl⟩
  | setTolerance absolute relative =>
    exact ⟨_, w, a, meets_setTolerance absolute relative, .refl w, h, rfl⟩
  | setStepBounds minStep? maxStep? =>
    exact ⟨_, w, a, meets_stepControl (fun s => .stepBounds minStep? maxStep?) fun _ => rfl,
      .refl w, h, rfl⟩
  | setFactorBounds minFactor maxFactor =>
    exact ⟨_, w, a, meets_stepControl (fun s => .factorBounds minFactor maxFactor) fun _ => rfl,
      .refl w, h, rfl⟩
  | setSafety safety =>
    exact ⟨_, w, a, meets_stepControl (fun s => .safety safety) fun _ => rfl, .refl w, h, rfl⟩
  | setNorm norm =>
    exact ⟨_, w, a, meets_stepControl (fun s => .norm norm) fun _ => rfl, .refl w, h, rfl⟩
  | _ => cases hq

/-- One event was published at a depth between two worlds, in a world that begins as the first one
with another solver, and everything else inside its delivery. -/
structure Announced (calls d : Nat) (w : World (protocol α μ)) (s : Solver α)
    (event : Solver.Event α) (v : World (protocol α μ)) : Prop where
  delivered : ∃ u n, LogsMore (withSolver w s) u ∧
    deliver (answer α μ) calls d event.channel event.payload u = .ok n v
  published : ∃ new, v.history = new ++ w.history ∧ eventsAt d new = [event] ∧
    ∀ k c e, .published k c e ∈ new → d ≤ k

theorem announced_of_deliver {calls n : Nat} {s : Solver α} {event : Solver.Event α}
    {u : World (protocol α μ)} (hu : LogsMore (withSolver w s) u)
    (h : deliver (answer α μ) calls d event.channel event.payload u = .ok n v) :
    Announced calls d w s event v := by
  have hdeeper := deeper_pervasive.deliver_keeps (α := α) (μ := μ) calls d event.channel event.payload u
  rw [Act.after_of_ok h] at hdeeper
  obtain ⟨new, hnew, hdeep⟩ := hdeeper
  refine ⟨⟨u, n, hu, h⟩, new ++ [.published d event.channel event.payload], ?_, ?_, ?_⟩
  · rw [hnew, World.record, hu.history, List.append_assoc]
    rfl
  · rw [eventsAt_append, eventsAt_of_deeper hdeep]
    simp [eventsAt, eventAt?]
  · intro k c e hmem
    rcases List.mem_append.mp hmem with hmem | hmem
    · exact Nat.le_of_succ_le (hdeep k c e hmem)
    · cases List.mem_singleton.mp hmem
      exact Nat.le_refl d

/-- A setting that is refused leaves the session as it was, and nothing is published. One that is
made has changed what it is about, and then published one event, which carries what is set. -/
theorem setting_announces {calls : Nat} {q : Request α μ} (hq : q.isSetting = true) {a : Answer q}
    (h : answer α μ fuel (deliver (answer α μ) calls d) q w = .ok a v) :
    (∀ e, error? q a = some e → LogsMore w v) ∧
      (error? q a = none → ∃ s event, Sets w.state.solver q s ∧
        announcement? s q = some event ∧ Announced calls d w s event v) := by
  obtain ⟨f, u, r, hmeets, hlogs, hchange, herror⟩ := exists_change_of_setting hq h
  rw [herror]
  cases hf : f u.state.solver with
  | error e =>
    rw [change_of_error hf] at hchange
    cases hchange
    exact ⟨fun _ _ => hlogs, fun hnone => by cases hnone⟩
  | ok c =>
    rw [change_of_ok hf] at hchange
    obtain ⟨n, _, htell, hdone⟩ := Act.bind_eq_ok_iff.mp hchange
    cases hdone
    refine ⟨(fun e he => by cases he), fun _ => ?_⟩
    obtain ⟨hsets, hevent⟩ := hmeets _ c hf
    rw [hlogs.state] at hsets
    exact ⟨c.solver, c.event, hsets, hevent, announced_of_deliver (hlogs.withSolver c.solver) htell⟩

/-- A fresh session with a subscriber that tightens the tolerance whenever the range is changed. -/
def tighteningWorld : World (protocol Fraction Unit) :=
  let w : World (protocol Fraction Unit) := newWorld {} ()
  w.setBus .rangeChanged ((w.hub .rangeChanged).subscribe fun _ =>
    .request (.setTolerance (Scalar.ofDecimal 1 (-8)) (Scalar.ofDecimal 1 (-8))) fun _ => .done)

def longerRange : Request Fraction Unit :=
  .setRange " t " Scalar.zero (Scalar.ofNat 2) (Scalar.ofDecimal 1 (-1))

theorem setting_announces_tightening : ∃ v,
    answer Fraction Unit 0 (deliver (answer Fraction Unit) 1 0) longerRange tighteningWorld =
        .ok (.ok ()) v ∧
      v.history.length = 4 ∧
        ∃ s event, Sets tighteningWorld.state.solver longerRange s ∧
          announcement? s longerRange = some event ∧ Announced 1 0 tighteningWorld s event v := by
  have hcomputed : (match answer Fraction Unit 0 (deliver (answer Fraction Unit) 1 0) longerRange
      tighteningWorld with
    | .ok (.ok ()) v => v.history.length == 4
    | .ok (.error _) _ => false
    | .error _ _ => false) = true := by decide +kernel
  split at hcomputed
  next v h =>
    obtain ⟨_, hannounced⟩ := setting_announces (q := longerRange) rfl h
    exact ⟨v, h, eq_of_beq hcomputed, hannounced rfl⟩
  next => cases hcomputed
  next => cases hcomputed

end Session

end Trajectory
