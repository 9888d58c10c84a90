import Trajectory.Solver.Session

namespace Trajectory

namespace Session

variable {α μ : Type}

/-- Creates the log file, if one is set and its path allows it. -/
def createLogFile (settings : LogSettings) : Action α μ (Option Location) := do
  match settings.file? with
  | none => pure none
  | some file => do
    let files ← flushLog
    match files.create file with
    | .ok (location, files) => do
      Act.modifyState fun s : Session α μ => { s with files }
      pure (some location)
    | .error fault => do
      let complaint := s!"cannot create log file {file}: {fault.message}"
      Act.modifyState fun s : Session α μ => { s with complaints := s.complaints ++ [complaint] }
      pure none

/-- Puts a logger in place where there is none, as long as its lines go somewhere. The ceiling follows
the level then, and always when nothing is to be logged. -/
def applyLogSettings : Action α μ Unit := do
  let s ← getSolver
  let settings := s.logSettings
  let location? ← createLogFile settings
  if settings.toConsole || location?.isSome then
    modify fun w => { w with
      state := { w.state with logging := w.state.logging.install settings.level location? w.log }
      log := { w.log with ceiling := settings.level } }
  else if settings.level = .off then
    modify fun w => { w with log := { w.log with ceiling := .off } }

def changeLogSettings (f : LogSettings → LogSettings) : Action α μ Unit := do
  modifySolver fun s => { s with logSettings := f s.logSettings }
  applyLogSettings

def setLogLevel (level : LevelFilter) : Action α μ Unit :=
  changeLogSettings fun settings => { settings with level }

def setConsoleLogging (toConsole : Bool) : Action α μ Unit :=
  changeLogSettings fun settings => { settings with toConsole }

def setLogFile (file : String) : Action α μ Unit :=
  changeLogSettings fun settings => { settings with file? := some file }

end Session

end Trajectory
