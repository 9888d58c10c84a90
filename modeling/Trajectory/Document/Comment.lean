import Trajectory.Text.Blank

namespace Trajectory

namespace Comment

/-- The text without the return before its end, given in reverse. -/
def dropReturn : List Char → List Char
  | '\r' :: reversed => reversed
  | reversed => reversed

/-- The lines of a text, the first of which begins with `reversed`. -/
def linesFrom (reversed : List Char) : List Char → List (List Char)
  | [] => if reversed.isEmpty then [] else [reversed.reverse]
  | '\n' :: s => (dropReturn reversed).reverse :: linesFrom [] s
  | c :: s => linesFrom (c :: reversed) s

def lines (s : List Char) : List (List Char) := linesFrom [] s

/-- Whether a trimmed line is a comment or empty. -/
def isComment : List Char → Bool
  | [] => true
  | '#' :: _ => true
  | '%' :: _ => true
  | '/' :: '/' :: _ => true
  | _ => false

def remove (s : List Char) : List Char :=
  ['\n'].intercalate ((lines s).filter fun line => !isComment (Text.trim line))

end Comment

end Trajectory
