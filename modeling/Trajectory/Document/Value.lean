import Trajectory.Decimal.Reading
import Trajectory.Text.Blank

namespace Trajectory

inductive Value (α : Type) where
  | text (s : String)
  | integer (n : Int)
  | real (x : α)
  | flag (b : Bool)
deriving Repr, DecidableEq

namespace Value

variable {α : Type}

/-- Integers are those of 64 bits. -/
def isShort (n : Int) : Bool := -Int.pow 2 63 ≤ n && n < Int.pow 2 63

def flag? (s : List Char) : Option Bool :=
  if s = ['t', 'r', 'u', 'e'] then some true
  else if s = ['f', 'a', 'l', 's', 'e'] then some false
  else none

def ofField [Scalar α] (s : List Char) : Value α :=
  match (Decimal.integer? s).filter isShort with
  | some n => integer n
  | none =>
    match Scalar.ofText? s with
    | some x => real x
    | none =>
      match flag? s with
      | some b => flag b
      | none => text (String.ofList s)

def toText [Numeral α] : Value α → String
  | text s => s
  | integer n => toString n
  | real x => Trajectory.text x
  | flag b => if b then "true" else "false"

/-- An integer serves as a number too. -/
def number? [Scalar α] : Value α → Option α
  | real x => some x
  | integer n => some (Scalar.ofInt n)
  | _ => none

def asFlag? : Value α → Option Bool
  | flag b => some b
  | _ => none

end Value

end Trajectory
