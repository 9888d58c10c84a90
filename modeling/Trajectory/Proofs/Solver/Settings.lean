import Trajectory.Outcome
import Trajectory.Solver.Basic

namespace Trajectory

namespace Session

variable {α : Type}

theorem idle_of_check {s : Solver α} {u : Unit} (h : s.checkIdle = .ok u) : s.running = false := by
  unfold Solver.checkIdle at h
  split at h
  next => cases h
  next hidle => simpa using hidle

variable [Scalar α]

/-- The settings of a solver. The bounds of steps and of their factors, the safety and the norm are
all set through the step control. -/
inductive Setting : (Solver α → Except (SolverError α) (Change α)) → Prop
  | equations (sources : List String) : Setting fun s => s.setEquations sources
  | conditions (conditions : Conditions α) : Setting fun s => s.setConditions conditions
  | range (arg : String) (start finish firstStep : α) :
      Setting fun s => s.setRange arg start finish firstStep
  | tolerance (absolute relative : α) : Setting fun s => s.setTolerance absolute relative
  | stepControl (change : Tolerance α → Tolerance α) : Setting fun s => s.setStepControl change

/-- The changes that settings make to a solver, with what they have checked. -/
inductive Changed (s : Solver α) : Change α → Prop
  | equations {sources : List String} {system : OdeSystem α}
      (hreduce : OdeSystem.reduce sources = .ok system) :
      Changed s ⟨{ s with system? := some system, conditions := .empty, result := [] },
        .equationsUpdated, system.names⟩
  | conditions {conditions : Conditions α}
      (hcheck : Solver.checkConditions s.names conditions.entries = .ok ()) :
      Changed s ⟨{ s with conditions }, .initialConditionsChanged, conditions⟩
  | range {arg : String} {start finish firstStep : α} {range : Range α}
      (hmake : Range.make arg start finish firstStep = .ok range) :
      Changed s ⟨{ s with range }, .rangeChanged, range⟩
  | tolerance {absolute relative : α}
      (habsolute : Tolerance.checkPositive "atol" absolute = .ok ())
      (hrelative : Tolerance.checkPositive "rtol" relative = .ok ()) :
      Changed s ⟨{ s with tolerance := { s.tolerance with absolute, relative } },
        .toleranceChanged, absolute, relative⟩
  | stepControl {tolerance : Tolerance α} (hvalid : tolerance.validate = .ok ()) :
      Changed s ⟨{ s with tolerance }, .stepControlChanged, tolerance⟩

theorem Setting.changed {f : Solver α → Except (SolverError α) (Change α)} {s : Solver α}
    {c : Change α} (hf : Setting f) (h : f s = .ok c) : s.running = false ∧ Changed s c := by
  cases hf with
  | equations sources =>
    obtain ⟨_, hidle, h⟩ := bind_eq_ok.mp h
    obtain ⟨system, hreduce, h⟩ := bind_eq_ok.mp h
    cases h
    exact ⟨idle_of_check hidle, .equations (mapError_eq_ok.mp hreduce)⟩
  | conditions conditions =>
    obtain ⟨_, hidle, h⟩ := bind_eq_ok.mp h
    obtain ⟨_, hcheck, h⟩ := bind_eq_ok.mp h
    cases h
    exact ⟨idle_of_check hidle, .conditions hcheck⟩
  | range arg start finish firstStep =>
    obtain ⟨range, hmake, h⟩ := bind_eq_ok.mp h
    obtain ⟨_, hidle, h⟩ := bind_eq_ok.mp h
    cases h
    exact ⟨idle_of_check hidle, .range (mapError_eq_ok.mp hmake)⟩
  | tolerance absolute relative =>
    obtain ⟨_, habsolute, h⟩ := bind_eq_ok.mp h
    obtain ⟨_, hrelative, h⟩ := bind_eq_ok.mp h
    obtain ⟨_, hidle, h⟩ := bind_eq_ok.mp h
    cases h
    exact ⟨idle_of_check hidle, .tolerance (mapError_eq_ok.mp habsolute) (mapError_eq_ok.mp hrelative)⟩
  | stepControl change =>
    obtain ⟨_, hidle, h⟩ := bind_eq_ok.mp h
    obtain ⟨_, hvalid, h⟩ := bind_eq_ok.mp h
    cases h
    exact ⟨idle_of_check hidle, .stepControl (mapError_eq_ok.mp hvalid)⟩

theorem ne_busy_of_checkConditions {names : List String} {entries : List (String × α)} :
    Solver.checkConditions names entries ≠ .error .busy := by
  induction entries with
  | nil => exact fun h => by cases h
  | cons entry entries ih =>
    obtain ⟨name, value⟩ := entry
    rw [Solver.checkConditions]
    split
    next => exact fun h => by cases h
    next =>
      dsimp only
      split
      next => exact fun h => by cases h
      next => exact ih

theorem Setting.ne_busy {f : Solver α → Except (SolverError α) (Change α)} (hf : Setting f)
    {s : Solver α} (hidle : s.running = false) : f s ≠ .error .busy := by
  have hcheck : s.checkIdle ≠ .error .busy := by
    unfold Solver.checkIdle
    rw [if_neg (by simp [hidle])]
    exact fun h => by cases h
  have hmapped {ε β : Type} {g : ε → SolverError α} {c : Except ε β} (hg : ∀ e, g e ≠ .busy) :
      c.mapError g ≠ .error .busy := mapError_ne_error hg
  have hdone (c : Change α) : (pure c : Except (SolverError α) _) ≠ .error .busy :=
    fun h => by cases h
  cases hf with
  | equations sources =>
    refine bind_ne_error hcheck fun _ => ?_
    exact bind_ne_error (hmapped fun _ h => by cases h) fun _ => hdone _
  | conditions conditions =>
    refine bind_ne_error hcheck fun _ => ?_
    exact bind_ne_error ne_busy_of_checkConditions fun _ => hdone _
  | range arg start finish firstStep =>
    refine bind_ne_error (hmapped fun _ h => by cases h) fun _ => ?_
    exact bind_ne_error hcheck fun _ => hdone _
  | tolerance absolute relative =>
    refine bind_ne_error (hmapped fun _ h => by cases h) fun _ => ?_
    refine bind_ne_error (hmapped fun _ h => by cases h) fun _ => ?_
    exact bind_ne_error hcheck fun _ => hdone _
  | stepControl change =>
    refine bind_ne_error hcheck fun _ => ?_
    exact bind_ne_error (hmapped fun _ h => by cases h) fun _ => hdone _

theorem Setting.refused {f : Solver α → Except (SolverError α) (Change α)} (hf : Setting f)
    {s : Solver α} (h : s.running = true) : ∃ e, f s = .error e := by
  cases hchange : f s with
  | error e => exact ⟨e, rfl⟩
  | ok c =>
    obtain ⟨hidle, _⟩ := hf.changed hchange
    rw [h] at hidle
    cases hidle

end Session

end Trajectory
