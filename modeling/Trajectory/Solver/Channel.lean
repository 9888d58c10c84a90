import Trajectory.Settings.Tolerance
import Trajectory.Solver.Conditions
import Trajectory.Solver.Point

namespace Trajectory

namespace Solver

inductive Channel where
  | equationsUpdated
  | initialConditionsChanged
  | rangeChanged
  | toleranceChanged
  | stepControlChanged
  | runStarted
  | progress
  /-- Published when cancellation is requested, and again when a run stops because of it. -/
  | canceled
  | completed
deriving Repr, DecidableEq

def Channel.all : List Channel :=
  [equationsUpdated, initialConditionsChanged, rangeChanged, toleranceChanged, stepControlChanged,
    runStarted, progress, canceled, completed]

structure Tolerances (α : Type) where
  absolute : α
  relative : α
deriving Repr

/-- What is told of each accepted step. -/
structure Progress (α : Type) where
  x : α
  stepSize : α
  errorNorm : α
deriving Repr

@[reducible]
def Payload (α : Type) : Channel → Type
  | .equationsUpdated => List String
  | .initialConditionsChanged => Conditions α
  | .rangeChanged => Range α
  | .toleranceChanged => Tolerances α
  | .stepControlChanged => Tolerance α
  | .runStarted => Range α
  | .progress => Progress α
  | .canceled => Unit
  | .completed => List (Point α)

structure Event (α : Type) where
  channel : Channel
  payload : Payload α channel

end Solver

end Trajectory
