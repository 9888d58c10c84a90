import Trajectory.Document.Fault
import Trajectory.Record
import Trajectory.Settings.Tolerance
import Trajectory.OdeSystem.Equation

namespace Trajectory

inductive TaskFault where
  | document (fault : DocumentFault)
  | valueCount (title key : String) (given : Nat)
  | notNumber (title key value : String)
  | notFlag (title key value : String)
  | unknownKey (title key : String)
  | unknownSection (title : String)
  | unknownNorm (name : String)
  | unknownLevel (name : String)
  | noEquations
deriving Repr, DecidableEq

inductive ConfigurationFault (α : Type) where
  | tolerance (fault : ToleranceFault α)
  | valueCount (given expected : Nat)
  | notFinite (name : String) (value : α)
  | noEquations
  | stepTooLong (range : Range α)
  | stepLost (range : Range α)
  | argumentTaken (arg : String)
  | missing (names : List String)
  | task (fault : TaskFault)
deriving Repr

inductive SolverError (α : Type) where
  | equationSyntax (fault : SyntaxFault)
  | unknownVariable (name : String)
  | invalidRange (fault : RangeFault α)
  | configuration (fault : ConfigurationFault α)
  | evaluation (cause : EvalError)
  | busy
  /-- The step fell to the least step, or became too small to move the argument. -/
  | convergence (x h minStep : α)
  | file (fault : FileFault)
  | table (fault : TableFault)
deriving Repr

namespace TaskFault

def message : TaskFault → String
  | document fault => fault.message
  | valueCount title key given => s!"{title}.{key} expects exactly one value, got {given}"
  | notNumber title key value => s!"{title}.{key}: '{value}' is not a number"
  | notFlag title key value => s!"{title}.{key}: '{value}' is not true or false"
  | unknownKey title key => s!"unknown key '{key}' in section '{title}'"
  | unknownSection title => s!"unknown section '{title}'"
  | unknownNorm name => s!"unknown error norm '{name}'"
  | unknownLevel name => s!"unknown log level '{name}'"
  | noEquations => "task has no equations"

end TaskFault

variable {α : Type} [Numeral α]

namespace ConfigurationFault

def message : ConfigurationFault α → String
  | tolerance fault => fault.message
  | valueCount given expected =>
    s!"{given} initial values given for {expected} variables"
  | notFinite name value => s!"initial condition {name} = {text value} is not finite"
  | noEquations => "no equations set"
  | stepTooLong r =>
    s!"initial step {text r.firstStep} does not fit into [{text r.start}, {text r.finish}]"
  | stepLost r =>
    s!"initial step {text r.firstStep} is lost in rounding at {r.arg} = {text r.start}"
  | argumentTaken arg => s!"independent variable '{arg}' is also a variable of the system"
  | missing names => "missing initial conditions for " ++ Text.quotedNames names
  | task fault => fault.message

end ConfigurationFault

namespace SolverError

def message : SolverError α → String
  | equationSyntax fault => s!"equation syntax error: {fault.message}"
  | unknownVariable name => s!"unknown variable '{name}'"
  | invalidRange fault => s!"invalid range: {fault.message}"
  | configuration fault => s!"configuration error: {fault.message}"
  | evaluation cause => s!"evaluation failed: {cause.message}"
  | busy => "solver is busy with another run"
  | convergence x h minStep =>
    s!"step size {text h} at x = {text x} is too small to continue " ++
      s!"(minimum step {text minStep})"
  | file fault => fault.message
  | table fault => fault.message

end SolverError

end Trajectory
