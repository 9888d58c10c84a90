import Trajectory.Document.Basic
import Trajectory.Task.Basic

namespace Trajectory

namespace Task

variable {α : Type} [Scalar α] [Numeral α]

def fault (f : TaskFault) : SolverError α := .configuration (.task f)

def single (title key : String) : List (Value α) → Except (SolverError α) (Value α)
  | [v] => .ok v
  | values => .error (fault (.valueCount title key values.length))

def number (title key : String) (values : List (Value α)) : Except (SolverError α) α := do
  let v ← single title key values
  match v.number? with
  | some x => pure x
  | none => throw (fault (.notNumber title key v.toText))

def word (title key : String) (values : List (Value α)) : Except (SolverError α) String := do
  let v ← single title key values
  pure v.toText

def flag (title key : String) (values : List (Value α)) : Except (SolverError α) Bool := do
  let v ← single title key values
  match v.asFlag? with
  | some b => pure b
  | none => throw (fault (.notFlag title key v.toText))

/-- Reads the entries of a section one after the other. -/
def readEntries {β : Type} (read : β → String → List (Value α) → Except (SolverError α) β)
    (b : β) (entries : Entries α) : Except (SolverError α) β :=
  entries.list.foldlM (fun b entry => read b entry.1 entry.2) b

def readEquations (t : Task α) (key : String) (values : List (Value α)) :
    Except (SolverError α) (Task α) :=
  if key = "eq" then .ok { t with equations := t.equations ++ values.map Value.toText }
  else .error (fault (.unknownKey "equations" key))

def readConditions (t : Task α) (key : String) (values : List (Value α)) :
    Except (SolverError α) (Task α) := do
  let value ← number "initial_conditions" key values
  pure { t with conditions := t.conditions.insert key value }

def readRange (r : Range α) (key : String) (values : List (Value α)) :
    Except (SolverError α) (Range α) :=
  match key with
  | "arg" => do
    let arg ← word "range" key values
    pure { r with arg }
  | "start" => do
    let start ← number "range" key values
    pure { r with start }
  | "end" => do
    let finish ← number "range" key values
    pure { r with finish }
  | "initial_step" => do
    let firstStep ← number "range" key values
    pure { r with firstStep }
  | _ => .error (fault (.unknownKey "range" key))

def readNorm (values : List (Value α)) : Except (SolverError α) ErrorNorm := do
  let name ← word "tolerance" "error_norm" values
  match ErrorNorm.ofText? name with
  | some norm => pure norm
  | none => throw (fault (.unknownNorm name))

def readTolerance (t : Tolerance α) (key : String) (values : List (Value α)) :
    Except (SolverError α) (Tolerance α) := do
  let value := number "tolerance" key values
  match key with
  | "atol" => pure { t with absolute := ← value }
  | "rtol" => pure { t with relative := ← value }
  | "safety_factor" => pure { t with safety := ← value }
  | "min_factor" => pure { t with minFactor := ← value }
  | "max_factor" => pure { t with maxFactor := ← value }
  | "min_step" => pure { t with minStep? := some (← value) }
  | "max_step" => pure { t with maxStep? := some (← value) }
  | "error_norm" => pure { t with norm := ← readNorm values }
  | _ => throw (fault (.unknownKey "tolerance" key))

def readLevel (values : List (Value α)) : Except (SolverError α) LevelFilter := do
  let name ← word "solver" "log_level" values
  match LevelFilter.ofText? name with
  | some level => pure level
  | none => throw (fault (.unknownLevel name))

def readSolver (t : Task α) (key : String) (values : List (Value α)) :
    Except (SolverError α) (Task α) := do
  match key with
  | "adaptive" => pure { t with adaptive := ← flag "solver" key values }
  | "log_level" => pure { t with logLevel? := some (← readLevel values) }
  | "log_file" => pure { t with logFile? := some (← word "solver" key values) }
  | _ => throw (fault (.unknownKey "solver" key))

def readOutput (t : Task α) (key : String) (values : List (Value α)) :
    Except (SolverError α) (Task α) := do
  match key with
  | "csv" => pure { t with csv? := some (← word "output" key values) }
  | _ => throw (fault (.unknownKey "output" key))

/-- A range whose checks are those of any range. -/
def checkedRange (r : Range α) : Except (SolverError α) (Range α) :=
  (Range.make r.arg r.start r.finish r.firstStep).mapError .invalidRange

def readSection (t : Task α) (title : String) (entries : Entries α) :
    Except (SolverError α) (Task α) := do
  match title with
  | "equations" => readEntries readEquations t entries
  | "initial_conditions" => readEntries readConditions t entries
  | "range" => do
    let r ← readEntries readRange Range.standard entries
    pure { t with range? := some (← checkedRange r) }
  | "tolerance" => do
    let tolerance ← readEntries readTolerance Tolerance.standard entries
    tolerance.validate.mapError Solver.toleranceError
    pure { t with tolerance? := some tolerance }
  | "solver" => readEntries readSolver t entries
  | "output" => readEntries readOutput t entries
  | _ => throw (fault (.unknownSection title))

def ofDocument (d : Document α) : Except (SolverError α) (Task α) := do
  let t ← d.sections.foldlM (fun t s => readSection t s.1 s.2) {}
  if t.equations.isEmpty then throw (fault .noEquations)
  pure t

def ofText (s : String) : Except (SolverError α) (Task α) := do
  let d ← (Document.ofText s).mapError fun f => fault (.document f)
  ofDocument d

end Task

end Trajectory
