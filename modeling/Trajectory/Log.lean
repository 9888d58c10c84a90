namespace Trajectory

inductive Level where
  | error
  | warn
  | info
  | debug
deriving Repr, DecidableEq

namespace Level

def text : Level → String
  | error => "ERROR"
  | warn => "WARN"
  | info => "INFO"
  | debug => "DEBUG"

/-- Larger for lines of less importance. -/
def rank : Level → Nat
  | error => 1
  | warn => 2
  | info => 3
  | debug => 4

end Level

/-- The least important level that is let through, if any. -/
inductive LevelFilter where
  | off
  | error
  | warn
  | info
  | debug
  | trace
deriving Repr, DecidableEq

namespace LevelFilter

def text : LevelFilter → String
  | off => "OFF"
  | error => "ERROR"
  | warn => "WARN"
  | info => "INFO"
  | debug => "DEBUG"
  | trace => "TRACE"

def rank : LevelFilter → Nat
  | off => 0
  | error => 1
  | warn => 2
  | info => 3
  | debug => 4
  | trace => 5

def ofText? (s : String) : Option LevelFilter :=
  [off, error, warn, info, debug, trace].find? fun f => f.text == s.map Char.toUpper

def admits (f : LevelFilter) (l : Level) : Bool := l.rank ≤ f.rank

end LevelFilter

structure LogLine where
  level : Level
  text : String
deriving Repr, DecidableEq

/-- The lines of a session, the newest first. -/
structure Log where
  ceiling : LevelFilter := .trace
  lines : List LogLine := []
deriving Repr

namespace Log

def add (log : Log) (line : LogLine) : Log :=
  if log.ceiling.admits line.level then { log with lines := line :: log.lines } else log

def addAll (log : Log) (lines : List LogLine) : Log := lines.foldl add log

end Log

end Trajectory
