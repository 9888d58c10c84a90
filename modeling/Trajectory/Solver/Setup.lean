import Trajectory.Solver.Basic
import Trajectory.Stepper.ErrorEstimate

namespace Trajectory

/-- A system with a range, a tolerance and a state at the start. -/
structure Setup (α : Type) where
  system : OdeSystem α
  range : Range α
  tolerance : Tolerance α
  y : List α

namespace Solver

variable {α : Type} [Scalar α]

/-- The first step is shorter than the range, and long enough to move the argument. -/
def checkFirstStep (r : Range α) : Except (ConfigurationFault α) Unit :=
  if r.finish ≤ r.start + r.firstStep then .error (.stepTooLong r)
  else if Stepper.tooSmall r.start r.firstStep then .error (.stepLost r)
  else .ok ()

def missing (s : Solver α) (names : List String) : List String :=
  names.filter fun name => (s.conditions.get? name).isNone

/-- The setup of a run, or what the configuration lacks. -/
def prepare (s : Solver α) : Except (ConfigurationFault α) (Setup α) := do
  let some system := s.system? | throw .noEquations
  checkFirstStep s.range
  if system.names.contains s.range.arg then throw (.argumentTaken s.range.arg)
  s.tolerance.validate.mapError .tolerance
  (Tolerance.checkSteps s.tolerance.minStep (s.tolerance.maxStep s.range)).mapError .tolerance
  let missing := s.missing system.names
  if !missing.isEmpty then throw (.missing missing)
  pure ⟨system, s.range, s.tolerance, system.names.filterMap s.conditions.get?⟩

end Solver

end Trajectory
