import Trajectory.Event.Delivery
import Trajectory.Solver.Logger
import Trajectory.Solver.Setup
import Trajectory.Task.Basic

namespace Trajectory

/-- A solver with the files it writes, what it complains of, and a memory in which its subscribers keep what
they like. -/
structure Session (α μ : Type) where
  solver : Solver α
  /-- The files, up to what is logged since the session last used them. -/
  files : FileTree := {}
  /-- Complaints about log files, in order. -/
  complaints : List String := []
  logging : Logging := .foreign
  memory : μ

/-- What can be seen of a session at any time. -/
structure Snapshot (α : Type) where
  solver : Solver α
  files : FileTree
  ceiling : LevelFilter

namespace Session

inductive Request (α μ : Type) where
  | setEquations (sources : List String)
  | setConditions (conditions : Conditions α)
  | setRange (arg : String) (start finish firstStep : α)
  | setTolerance (absolute relative : α)
  | setStepBounds (minStep? maxStep? : Option α)
  | setFactorBounds (minFactor maxFactor : α)
  | setSafety (safety : α)
  | setNorm (norm : ErrorNorm)
  | run (adaptive : Bool)
  | cancel
  | save (file : String)
  | applyTask (task : Task α)
  | solveTask (task : Task α)
  | setLogLevel (level : LevelFilter)
  | setConsoleLogging (enabled : Bool)
  | setLogFile (file : String)
  | unsubscribe (c : Solver.Channel) (id : SubscriptionId)
  | clearEvents
  | inspect
  | recall
  | remember (memory : μ)

abbrev Result (α β : Type) := Except (SolverError α) β

@[reducible]
def Answer {α μ : Type} : Request α μ → Type
  | .run _ => Result α (List (Point α))
  | .solveTask _ => Result α (List (Point α))
  | .cancel => Unit
  | .setLogLevel _ => Unit
  | .setConsoleLogging _ => Unit
  | .setLogFile _ => Unit
  | .unsubscribe _ _ => Bool
  | .clearEvents => Unit
  | .inspect => Snapshot α
  | .recall => μ
  | .remember _ => Unit
  | _ => Result α Unit

abbrev protocol (α μ : Type) : Protocol where
  Channel := Solver.Channel
  decideChannel := inferInstance
  Payload := Solver.Payload α
  Request := Request α μ
  Answer := Answer
  State := Session α μ

abbrev Action (α μ : Type) := Act (protocol α μ)

abbrev Publish (α μ : Type) := Publisher (protocol α μ)

variable {α μ : Type}

def getSolver : Action α μ (Solver α) := do
  let s : Session α μ ← Act.getState
  pure s.solver

def modifySolver (f : Solver α → Solver α) : Action α μ Unit :=
  Act.modifyState fun s : Session α μ => { s with solver := f s.solver }

/-- The files of a session, with all that is logged. -/
def filesIn (w : World (protocol α μ)) : FileTree := w.state.logging.flush w.log w.state.files

/-- Writes out the log before the session uses its files. -/
def flushLog : Action α μ FileTree := do
  let w ← get
  let files := filesIn w
  Act.modifyState fun s : Session α μ => { s with files, logging := s.logging.flushed w.log }
  pure files

/-- Carries out a setting: the change first, then the event that tells of it. -/
def change (publish : Publish α μ) (f : Solver α → Except (SolverError α) (Change α)) :
    Action α μ (Result α Unit) := do
  let s ← getSolver
  match f s with
  | .error e => pure (.error e)
  | .ok c => do
    modifySolver fun _ => c.solver
    let _ ← publish c.event.channel c.event.payload
    pure (.ok ())

/-- Takes over equations and logs how they are reduced. -/
def setEquations [Scalar α] [Numeral α] (publish : Publish α μ) (sources : List String) :
    Action α μ (Result α Unit) := do
  let s ← getSolver
  if !s.running then
    Act.logAll ((OdeSystem.reductionNotices (α := α) sources).map OdeSystem.Notice.line)
  change publish fun s => s.setEquations sources

/-- Requests cancellation, and tells of the request at once. -/
def cancel (publish : Publish α μ) : Action α μ Unit := do
  modifySolver fun s => { s with cancelRequested := true }
  Act.log ⟨.info, "cancellation requested"⟩
  let _ ← publish .canceled ()
  pure ()

end Session

end Trajectory
