import Trajectory.Task.Solving

namespace Trajectory

namespace Session

variable {α μ : Type} [Scalar α] [Numeral α]

def inspect : Action α μ (Snapshot α) := do
  let w ← get
  pure ⟨w.state.solver, filesIn w, w.log.ceiling⟩

def clearEvents : List Solver.Channel → Action α μ Unit
  | [] => pure ()
  | c :: channels => do
    Act.clear (p := protocol α μ) c
    clearEvents channels

def answer (α μ : Type) [Scalar α] [Numeral α] : Handler (protocol α μ) := fun fuel publish q =>
  match q with
  | .setEquations sources => setEquations publish sources
  | .setConditions conditions => change publish fun s => s.setConditions conditions
  | .setRange arg start finish firstStep =>
    change publish fun s => s.setRange arg start finish firstStep
  | .setTolerance absolute relative => change publish fun s => s.setTolerance absolute relative
  | .setStepBounds minStep? maxStep? => change publish fun s => s.setStepBounds minStep? maxStep?
  | .setFactorBounds minFactor maxFactor =>
    change publish fun s => s.setFactorBounds minFactor maxFactor
  | .setSafety safety => change publish fun s => s.setSafety safety
  | .setNorm norm => change publish fun s => s.setNorm norm
  | .run adaptive => run publish fuel adaptive
  | .cancel => cancel publish
  | .save file => save file
  | .applyTask task => task.apply publish
  | .solveTask task => task.solve publish fuel
  | .setLogLevel level => setLogLevel level
  | .setConsoleLogging enabled => setConsoleLogging enabled
  | .setLogFile file => setLogFile file
  | .unsubscribe c id => Act.unsubscribe (p := protocol α μ) c id
  | .clearEvents => clearEvents Solver.Channel.all
  | .inspect => inspect
  | .recall => do
    let s : Session α μ ← Act.getState
    pure s.memory
  | .remember memory => Act.modifyState fun s : Session α μ => { s with memory }

/-- Makes a request from outside all subscribers. -/
def ask (fuel : Nat) (q : Request α μ) : Action α μ (Answer q) :=
  Delivery.ask (p := protocol α μ) (answer α μ) fuel q

/-- Does what a script says, from outside all subscribers. -/
def perform (fuel : Nat) (s : Script (protocol α μ)) : Action α μ Unit :=
  Delivery.perform (answer α μ) fuel s

/-- The world of a new session among files. If nothing else is said, a logger was there before it. -/
def newWorld (files : FileTree) (memory : μ) (logging : Logging := .foreign) :
    World (protocol α μ) :=
  let session : Session α μ := { solver := Solver.fresh, files, logging, memory }
  { World.quiet (p := protocol α μ) session with log := { ceiling := logging.ceiling } }

end Session

end Trajectory
