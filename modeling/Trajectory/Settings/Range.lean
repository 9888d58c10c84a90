import Trajectory.Number.Scalar
import Trajectory.Text.Blank
import Trajectory.Text.Identifier

namespace Trajectory

structure Range (α : Type) where
  arg : String
  start : α
  finish : α
  firstStep : α
deriving Repr, DecidableEq

inductive RangeFault (α : Type) where
  | name (arg : String)
  | notFinite (start finish firstStep : α)
  | order (start finish : α)
  | step (firstStep : α)
deriving Repr

def RangeFault.message {α : Type} [Numeral α] : RangeFault α → String
  | name arg => s!"'{arg}' is not a valid variable name"
  | notFinite start finish firstStep =>
    s!"start {text start}, end {text finish} and initial step {text firstStep} must be finite"
  | order start finish => s!"end {text finish} must be greater than start {text start}"
  | step firstStep => s!"initial step {text firstStep} must be positive"

namespace Range

variable {α : Type} [Scalar α]

def length (r : Range α) : α := r.finish - r.start

/-- The unit interval, in ten steps. -/
def standard : Range α := ⟨"x", Scalar.zero, Scalar.one, Scalar.ofDecimal 1 (-1)⟩

/-- A range with a name for its argument, finite ends in order and a positive first step. -/
def make (arg : String) (start finish firstStep : α) : Except (RangeFault α) (Range α) :=
  let arg := Text.trimmed arg
  if !Text.isIdentifier arg.toList then .error (.name arg)
  else if !(Scalar.isFinite start && Scalar.isFinite finish && Scalar.isFinite firstStep) then
    .error (.notFinite start finish firstStep)
  else if finish ≤ start then .error (.order start finish)
  else if firstStep ≤ Scalar.zero then .error (.step firstStep)
  else .ok ⟨arg, start, finish, firstStep⟩

end Range

end Trajectory
