import Trajectory.Solver.Basic

namespace Trajectory

structure Task (α : Type) where
  equations : List String := []
  conditions : Conditions α := .empty
  range? : Option (Range α) := none
  tolerance? : Option (Tolerance α) := none
  adaptive : Bool := true
  logLevel? : Option LevelFilter := none
  logFile? : Option String := none
  csv? : Option String := none
deriving Repr

end Trajectory
