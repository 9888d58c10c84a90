import Trajectory.Solver.Logging
import Trajectory.Solver.Run
import Trajectory.Solver.Saving
import Trajectory.Task.Reading

namespace Trajectory

namespace Task

open Session (Action Publish Result)

variable {α μ : Type} [Scalar α] [Numeral α]

/-- Carries out settings up to the first that is refused. -/
def inOrder : List (Action α μ (Result α Unit)) → Action α μ (Result α Unit)
  | [] => pure (.ok ())
  | act :: later => do
    let done ← act
    match done with
    | .error e => pure (.error e)
    | .ok _ => inOrder later

/-- The settings for the range and the tolerance of a task. -/
def settings (publish : Publish α μ) (t : Task α) : List (Action α μ (Result α Unit)) :=
  let change := Session.change publish
  let range := t.range?.toList.map fun r =>
    change fun s => s.setRange r.arg r.start r.finish r.firstStep
  let tolerance := t.tolerance?.toList.flatMap fun tol =>
    [change fun s => s.setTolerance tol.absolute tol.relative,
     change fun s => s.setFactorBounds tol.minFactor tol.maxFactor,
     change fun s => s.setSafety tol.safety,
     change fun s => s.setStepBounds tol.minStep? tol.maxStep?,
     change fun s => s.setNorm tol.norm]
  range ++ tolerance

def conditionSettings (publish : Publish α μ) (t : Task α) :
    List (Action α μ (Result α Unit)) :=
  if t.conditions.isEmpty then []
  else [Session.change publish fun s => s.setConditions t.conditions]

/-- Passes every part of a task on to the solver. -/
def apply (publish : Publish α μ) (t : Task α) : Action α μ (Result α Unit) := do
  if let some level := t.logLevel? then Session.setLogLevel level
  if let some file := t.logFile? then Session.setLogFile file
  inOrder (Session.setEquations publish t.equations ::
    conditionSettings publish t ++ settings publish t)

/-- Applies a task, runs it and saves its points if it names a file for them. -/
def solve (publish : Publish α μ) (fuel : Nat) (t : Task α) :
    Action α μ (Result α (List (Point α))) := do
  let applied ← t.apply publish
  match applied with
  | .error e => pure (.error e)
  | .ok _ => do
    let ran ← Session.run publish fuel t.adaptive
    match ran, t.csv? with
    | .ok points, some file => do
      let saved ← Session.save file
      match saved with
      | .error e => pure (.error e)
      | .ok _ => pure (.ok points)
    | _, _ => pure ran

/-- Reads a task from the content of a file, if that could be read. -/
def load (path : String) (content : Except FileFault String) :
    Action α μ (Result α (Task α)) := do
  match content with
  | .error fault => pure (.error (.file fault))
  | .ok s => do
    Act.log ⟨.info, s!"task loaded from {path}"⟩
    pure (ofText s)

end Task

end Trajectory
