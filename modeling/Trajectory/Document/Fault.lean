import Trajectory.Text.Quoted

namespace Trajectory

inductive Expected where
  | identifier
  | colon
  | lineEnd
deriving Repr, DecidableEq

/-- A line that does not go on as it must, and the unread text at that place. -/
structure LineFault where
  rest : List Char
  expected : Expected
deriving Repr, DecidableEq

inductive DocumentFault where
  | line (fault : LineFault)
  /-- Text is left over after the last section. -/
  | remaining (rest : List Char)
deriving Repr, DecidableEq

def Expected.code : Expected → String
  | identifier => "Tag"
  | colon => "Char"
  | lineEnd => "Eof"

def LineFault.message (f : LineFault) : String :=
  "Error(Error \x7b input: " ++ Text.quoted f.rest ++ ", code: " ++ f.expected.code ++ " \x7d)"

def DocumentFault.message : DocumentFault → String
  | line fault => s!"Parsing error: {fault.message}"
  | remaining rest => s!"Failed to parse entire document. Remaining: '{String.ofList rest}'"

end Trajectory
