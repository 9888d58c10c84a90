import Trajectory.File.Tree
import Trajectory.Log

namespace Trajectory

/-- A file that the lines of the log go to while it is open. -/
structure LogFile where
  location : Location
  /-- Where the next line goes. -/
  offset : Nat := 0
  /-- The number of lines that are in the file, or that were in the log before it. -/
  written : Nat
  /-- What is written for the line with a number: its time, its text, and first what was traced since
  the line before. -/
  entry : Nat → LogLine → String

/-- It lets lines up to a level through. What it writes to a console is left out. -/
structure Logger where
  level : LevelFilter
  file? : Option LogFile := none

namespace LogFile

variable (f : LogFile) (level : LevelFilter) (log : Log)

/-- What is written for the lines of the log that are not in the file yet. -/
def pending : String :=
  let later := log.lines.reverse.zipIdx.drop f.written
  String.join ((later.filter fun line => level.admits line.1.level).map fun line =>
    f.entry line.2 line.1)

/-- The same file after all lines of the log are written. -/
def advance : LogFile :=
  { f with offset := f.offset + (f.pending level log).utf8ByteSize, written := log.lines.length }

end LogFile

/-- Who takes the lines of the log. The first logger that is put in place takes them for good. -/
inductive Logging where
  /-- Nobody does. Log files are to have these entries. -/
  | vacant (entry : Nat → LogLine → String)
  | taken (logger : Logger)

namespace Logging

/-- A logger that was there before, and that writes no file of a session. -/
def foreign : Logging := .taken { level := .trace }

/-- The ceiling of the log before anything is set. -/
def ceiling : Logging → LevelFilter
  | vacant _ => .off
  | taken logger => logger.level

/-- Puts a logger in place, if there is none. It writes to a new file, if it is given one. -/
def install (level : LevelFilter) (location? : Option Location) (log : Log) : Logging → Logging
  | vacant entry =>
    .taken { level, file? := location?.map fun location =>
      { location, written := log.lines.length, entry } }
  | taken logger => .taken logger

/-- The file of the logger and the level of the lines that go there. -/
def file? : Logging → Option (LevelFilter × LogFile)
  | vacant _ => none
  | taken logger => logger.file?.map fun f => (logger.level, f)

/-- The files once all lines of the log are written. -/
def flush (log : Log) (files : FileTree) (l : Logging) : FileTree :=
  match l.file? with
  | none => files
  | some (level, f) => files.writeFrom f.location f.offset (f.pending level log)

/-- The logger once all lines of the log are written. -/
def flushed (log : Log) : Logging → Logging
  | vacant entry => vacant entry
  | taken logger =>
    .taken { logger with file? := logger.file?.map fun f => f.advance logger.level log }

end Logging

end Trajectory
