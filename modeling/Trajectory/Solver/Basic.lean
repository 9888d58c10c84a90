import Trajectory.OdeSystem.Reduction
import Trajectory.Solver.Channel
import Trajectory.Solver.Error

namespace Trajectory

inductive RunStatus where
  | idle
  | running
  | finished
  | canceled
  | failed
deriving Repr, DecidableEq

namespace RunStatus

def text : RunStatus → String
  | idle => "Idle"
  | running => "Running"
  | finished => "Finished"
  | canceled => "Canceled"
  | failed => "Failed"

def ofText? (s : String) : Option RunStatus :=
  [idle, running, finished, canceled, failed].find? fun status => status.text == s

end RunStatus

structure LogSettings where
  level : LevelFilter := .info
  toConsole : Bool := true
  file? : Option String := none
deriving Repr, DecidableEq

structure Solver (α : Type) where
  system? : Option (OdeSystem α) := none
  conditions : Conditions α := .empty
  range : Range α
  tolerance : Tolerance α
  status : RunStatus := .idle
  /-- The points of the last run that finished or was canceled. -/
  result : List (Point α) := []
  running : Bool := false
  cancelRequested : Bool := false
  logSettings : LogSettings := {}

structure Change (α : Type) where
  solver : Solver α
  event : Solver.Event α

namespace Solver

variable {α : Type}

/-- The variables of the system, none before there are equations. -/
def names (s : Solver α) : List String := (s.system?.map OdeSystem.names).getD []

def baseNames (s : Solver α) : List String := (s.system?.map OdeSystem.baseNames).getD []

def sources (s : Solver α) : List String := (s.system?.map OdeSystem.sources).getD []

def checkIdle (s : Solver α) : Except (SolverError α) Unit :=
  if s.running then .error .busy else .ok ()

variable [Scalar α]

def fresh : Solver α := { range := Range.standard, tolerance := Tolerance.standard }

def toleranceError (f : ToleranceFault α) : SolverError α := .configuration (.tolerance f)

/-- Takes over equations. Conditions and the result belong to the old ones and are dropped. -/
def setEquations (s : Solver α) (sources : List String) :
    Except (SolverError α) (Change α) := do
  s.checkIdle
  let system ← (OdeSystem.reduce sources).mapError .equationSyntax
  pure ⟨{ s with system? := some system, conditions := .empty, result := [] },
    .equationsUpdated, system.names⟩

/-- Each condition is for a variable and is finite. -/
def checkConditions (names : List String) :
    List (String × α) → Except (SolverError α) Unit
  | [] => .ok ()
  | (name, value) :: entries => do
    if !names.contains name then throw (.unknownVariable name)
    if !Scalar.isFinite value then throw (.configuration (.notFinite name value))
    checkConditions names entries

def setConditions (s : Solver α) (conditions : Conditions α) :
    Except (SolverError α) (Change α) := do
  s.checkIdle
  checkConditions s.names conditions.entries
  pure ⟨{ s with conditions }, .initialConditionsChanged, conditions⟩

def setRange (s : Solver α) (arg : String) (start finish firstStep : α) :
    Except (SolverError α) (Change α) := do
  let range ← (Range.make arg start finish firstStep).mapError .invalidRange
  s.checkIdle
  pure ⟨{ s with range }, .rangeChanged, range⟩

def setTolerance (s : Solver α) (absolute relative : α) :
    Except (SolverError α) (Change α) := do
  (Tolerance.checkPositive "atol" absolute).mapError toleranceError
  (Tolerance.checkPositive "rtol" relative).mapError toleranceError
  s.checkIdle
  pure ⟨{ s with tolerance := { s.tolerance with absolute, relative } },
    .toleranceChanged, absolute, relative⟩

/-- Takes over a changed tolerance if it is valid as a whole. -/
def setStepControl (s : Solver α) (change : Tolerance α → Tolerance α) :
    Except (SolverError α) (Change α) := do
  s.checkIdle
  let tolerance := change s.tolerance
  tolerance.validate.mapError toleranceError
  pure ⟨{ s with tolerance }, .stepControlChanged, tolerance⟩

/-- Bounds for the step size; one that is left open is the usual one. -/
def setStepBounds (s : Solver α) (minStep? maxStep? : Option α) :
    Except (SolverError α) (Change α) :=
  s.setStepControl fun t => { t with minStep?, maxStep? }

def setFactorBounds (s : Solver α) (minFactor maxFactor : α) :
    Except (SolverError α) (Change α) :=
  s.setStepControl fun t => { t with minFactor, maxFactor }

def setSafety (s : Solver α) (safety : α) :
    Except (SolverError α) (Change α) :=
  s.setStepControl fun t => { t with safety }

def setNorm (s : Solver α) (norm : ErrorNorm) :
    Except (SolverError α) (Change α) :=
  s.setStepControl fun t => { t with norm }

end Solver

end Trajectory
