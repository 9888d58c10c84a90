import Trajectory.Number.Scalar

namespace Trajectory

/-- A promise that the caller of a numerical operation broke. -/
inductive Breach where
  /-- A list does not have the length that another one asks for. -/
  | sizes (expected given : Nat)
  /-- The bounds of an interval are out of order, or one of them is not a number. -/
  | bounds
deriving Repr, DecidableEq

/-- What ends a computation early: a cause of the domain, or a broken promise, which is kept apart so that a
caller can be shown to keep it. -/
inductive Failure (ε : Type) where
  | breach (b : Breach)
  | cause (e : ε)
deriving Repr, DecidableEq

abbrev Checked (ε α : Type) := Except (Failure ε) α

namespace Failure

def map {ε δ : Type} (f : ε → δ) : Failure ε → Failure δ
  | breach b => breach b
  | cause e => cause (f e)

end Failure

namespace Checked

def mapCause {ε δ α : Type} (f : ε → δ) (c : Checked ε α) : Checked δ α :=
  c.mapError (Failure.map f)

/-- Causes of the domain only, taken into the larger type. -/
def ofExcept {ε α : Type} (c : Except ε α) : Checked ε α := c.mapError .cause

def breach {ε α : Type} (b : Breach) : Checked ε α := .error (.breach b)

def sameSize {ε : Type} (expected given : Nat) : Checked ε Unit :=
  if expected = given then .ok () else breach (.sizes expected given)

def atLeast {ε : Type} (expected given : Nat) : Checked ε Unit :=
  if expected ≤ given then .ok () else breach (.sizes expected given)

end Checked

/-- The number of `[low, high]` nearest to `v`; one that is not a number stays as it is. -/
def clamp {α ε : Type} [Scalar α] (v low high : α) : Checked ε α :=
  if low ≤ high then
    .ok (if v < low then low else if high < v then high else v)
  else .error (.breach .bounds)

end Trajectory
