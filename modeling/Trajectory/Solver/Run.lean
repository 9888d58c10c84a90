import Trajectory.Solver.Session
import Trajectory.Stepper.Controller

namespace Trajectory

namespace Session

/-- Where a run stopped: at the end, canceled, or at a step that could not be made. -/
structure Stop (α : Type) where
  controller : Controller α
  points : List (Point α)
  error? : Option (SolverError α)

variable {α μ : Type} [Scalar α] [Numeral α]

def startLine (r : Range α) (adaptive : Bool) : LogLine :=
  ⟨.info, s!"Dormand-Prince run over {r.arg} in [{text r.start}, {text r.finish}] started, " ++
    s!"adaptive step: {adaptive}"⟩

def stepsLine (c : Controller α) : LogLine :=
  ⟨.info, s!"{c.accepted} accepted and {c.rejected} rejected steps"⟩

def canceledLine (c : Controller α) : LogLine :=
  ⟨.info, s!"run canceled at {c.arg} = {text c.x}"⟩

def failedLine (c : Controller α) (e : SolverError α) : LogLine :=
  ⟨.error, s!"run failed at {c.arg} = {text c.x}: {e.message}"⟩

/-- The names of a point: the argument and the base variables. -/
def pointNames (c : Controller α) : List String := c.arg :: c.system.baseNames

def pointAt (c : Controller α) : Checked Empty (Point α) :=
  Point.project (pointNames c) c.system.baseIndices c.x c.y

/-- Makes at most `steps` steps. The points so far are held in reverse. -/
def stepThrough (publish : Publish α μ) (tries : Nat) :
    Nat → Controller α → List (Point α) → Action α μ (Stop α)
  | 0, _, _ => throw .exhausted
  | steps + 1, c, points => do
    let s ← getSolver
    if c.finished || s.cancelRequested then pure ⟨c, points.reverse, none⟩
    else
      let a := c.advance tries
      Act.logAll (a.rejections.map Rejection.line)
      match a.outcome with
      | .exhausted => throw .exhausted
      | .failure (.breach b) => throw (.breach b)
      | .failure (.cause e) => pure ⟨a.controller, points.reverse, some e⟩
      | .step step => do
        let point ← Act.promised (pointAt a.controller)
        let _ ← publish .progress ⟨step.x, step.size, step.errorNorm⟩
        stepThrough publish tries steps a.controller (point :: points)

def conclude (publish : Publish α μ) (stop : Stop α) :
    Action α μ (Result α (List (Point α))) := do
  match stop.error? with
  | some e =>
    Act.log (failedLine stop.controller e)
    modifySolver fun s => { s with status := .failed }
    pure (.error e)
  | none => do
    Act.log (stepsLine stop.controller)
    let s ← getSolver
    if s.cancelRequested then
      Act.log (canceledLine stop.controller)
      modifySolver fun s => { s with status := .canceled, result := stop.points }
      let _ ← publish .canceled ()
    else
      modifySolver fun s => { s with status := .finished, result := stop.points }
      let _ ← publish .completed stop.points
    pure (.ok stop.points)

/-- Runs over a setup that has passed its checks, whatever becomes of the settings meanwhile. -/
def runSetup (publish : Publish α μ) (fuel : Nat) (setup : Setup α) (adaptive : Bool) :
    Action α μ (Result α (List (Point α))) := do
  modifySolver fun s => { s with status := .running, result := [] }
  let started ← Act.keep
    (Controller.start setup.system setup.range setup.tolerance setup.y adaptive)
  match started with
  | .error e =>
    modifySolver fun s => { s with status := .failed }
    pure (.error e)
  | .ok c => do
    let point ← Act.promised (pointAt c)
    Act.log (startLine setup.range adaptive)
    let _ ← publish .runStarted setup.range
    let stop ← stepThrough publish fuel fuel c [point]
    conclude publish stop

/-- No run is in progress after the action, however it ends. -/
def releasing {β : Type} (act : Action α μ β) : Action α μ β := fun w =>
  let release (w : World (protocol α μ)) : World (protocol α μ) :=
    { w with state := { w.state with solver := { w.state.solver with running := false } } }
  match act w with
  | .ok b after => .ok b (release after)
  | .error halt after => .error halt (release after)

/-- Integrates the system over the range and gives every accepted point, the initial one first. -/
def run (publish : Publish α μ) (fuel : Nat) (adaptive : Bool) :
    Action α μ (Result α (List (Point α))) := do
  let s ← getSolver
  if s.running then pure (.error .busy)
  else
    modifySolver fun s => { s with cancelRequested := false, running := true }
    releasing do
      match s.prepare with
      | .error fault => pure (.error (.configuration fault))
      | .ok setup => runSetup publish fuel setup adaptive

end Session

end Trajectory
