import Trajectory.File.Fault

namespace Trajectory

inductive TableFault where
  | file (fault : FileFault)
  | lengths (given expected : Nat)
deriving Repr, DecidableEq

namespace TableFault

def message : TableFault → String
  | file fault => fault.message
  | lengths given expected =>
    s!"CSV error: found record with {given} fields, " ++
      s!"but the previous record has {expected} fields"

end TableFault

namespace Record

/-- The characters that a field can hold only in quotes. -/
def isSpecial (c : Char) : Bool := c == ',' || c == '"' || c == '\r' || c == '\n'

/-- A quote inside quotes is written twice. -/
def escape (s : List Char) : List Char :=
  s.flatMap fun c => if c = '"' then ['"', '"'] else [c]

def quote (s : List Char) : List Char := '"' :: escape s ++ ['"']

/-- A field as it stands among others. -/
def writeField (s : List Char) : List Char := if s.any isSpecial then quote s else s

/-- One line. A record that would be an empty line is written as a quoted empty field. -/
def writeLine (fields : List (List Char)) : List Char :=
  let line := [','].intercalate (fields.map writeField)
  (if line.isEmpty then quote [] else line) ++ ['\n']

/-- The lines of records that have as many fields as the one before the first of them. -/
def writeLines (size : Nat) : List (List (List Char)) → Except TableFault (List Char)
  | [] => .ok []
  | r :: records => do
    if r.length ≠ size then throw (.lengths r.length size)
    let later ← writeLines size records
    pure (writeLine r ++ later)

def write : List (List (List Char)) → Except TableFault (List Char)
  | [] => .ok []
  | r :: records => do
    let later ← writeLines r.length records
    pure (writeLine r ++ later)

end Record

end Trajectory
