import Trajectory.Expr.Bracket
import Trajectory.Text.Blank
import Trajectory.Text.Identifier

namespace Trajectory

namespace Cut

/-- The characters after which a sign belongs to the operand that follows. -/
def isOpening (c : Char) : Bool :=
  c == '+' || c == '-' || c == '*' || c == '/' || c == '^' || c == '('

def isNumberChar (c : Char) : Bool := Text.isDigit c || c == '.'

/-- Whether the text ends with digits and points that no letter or underscore precedes. -/
def endsInNumber (reversed : List Char) : Bool :=
  let token := reversed.takeWhile fun c => Text.isWordChar c || c == '.'
  !token.isEmpty && token.all isNumberChar

/-- Whether the cut is inside a number, just after the mark of its exponent. -/
def followsExponentMark (c : Cut) : Bool :=
  match c.reversed with
  | [] => false
  | p :: earlier => (p == 'e' || p == 'E') && endsInNumber earlier

/-- A sign with an operand before it. -/
def isBinarySign (c : Cut) : Bool :=
  (c.mark == '+' || c.mark == '-') &&
    match c.reversed.dropWhile Text.isBlank with
    | [] => false
    | p :: _ => !isOpening p && !c.followsExponentMark

end Cut

namespace Bracket

/-- The last sign outside all brackets that joins two operands. -/
def lastBinarySign? (s : List Char) : Option Cut :=
  ((outerCuts s).filter Cut.isBinarySign).getLast?

/-- The last of the given characters outside all brackets. -/
def lastOf? (marks s : List Char) : Option Cut :=
  ((outerCuts s).filter fun c => marks.contains c.mark).getLast?

/-- The first of a character outside all brackets. -/
def first? (mark : Char) (s : List Char) : Option Cut :=
  (outerCuts s).find? fun c => c.mark == mark

theorem whole_lastBinarySign {s : List Char} {c : Cut} (h : lastBinarySign? s = some c) :
    c.whole = s :=
  whole_outerCuts (List.mem_filter.mp (List.mem_of_getLast? h)).1

theorem whole_lastOf {marks s : List Char} {c : Cut} (h : lastOf? marks s = some c) :
    c.whole = s :=
  whole_outerCuts (List.mem_filter.mp (List.mem_of_getLast? h)).1

theorem whole_first {mark : Char} {s : List Char} {c : Cut} (h : first? mark s = some c) :
    c.whole = s :=
  whole_outerCuts (List.mem_of_find?_eq_some h)

end Bracket

end Trajectory
