import Trajectory.Number.Failure
import Trajectory.Settings.Tolerance

namespace Trajectory

namespace Stepper

variable {α ε : Type} [Scalar α]

/-- The difference of two results in one slot, over the error that is tolerated there. -/
def scaledError (t : Tolerance α) (y fifth fourth : α) : α :=
  Scalar.abs (fifth - fourth) /
    (t.absolute + t.relative * Scalar.max (Scalar.abs y) (Scalar.abs fifth))

def scaledErrors (t : Tolerance α) (y fifth fourth : List α) : List α :=
  (y.zip (fifth.zip fourth)).map fun p => scaledError t p.1 p.2.1 p.2.2

/-- Once an entry is not a number the larger of the two is none either. -/
def largest (a e : α) : α := if Scalar.isNaN e || a < e then e else a

def combined : ErrorNorm → List α → α
  | .rms, errors =>
    Scalar.sqrt ((errors.map fun e => e * e).foldl (fun a e => a + e) Scalar.zero /
      Scalar.ofNat errors.length)
  | .max, errors => errors.foldl largest Scalar.zero

/-- The scaled error of a step from `y`; zero where there are no slots. -/
def errorNorm (t : Tolerance α) (y fifth fourth : List α) : Checked ε α := do
  Checked.atLeast y.length fifth.length
  Checked.atLeast y.length fourth.length
  if y.isEmpty then pure Scalar.zero
  else pure (combined t.norm (scaledErrors t y fifth fourth))

def maxAbs : List α → α
  | [] => Scalar.zero
  | a :: s =>
    s.foldl (fun m b => if Scalar.abs b ≤ m then m else Scalar.abs b) (Scalar.abs a)

def maxAbsDifference (fifth fourth : List α) : Checked ε α := do
  Checked.sameSize fifth.length fourth.length
  pure (maxAbs (List.zipWith (fun a b => a - b) fifth fourth))

/-- The factor for the size of the next step: it shrinks with the fifth root of the error. -/
def stepFactor (t : Tolerance α) (norm : α) : Checked ε α :=
  if !Scalar.isFinite norm then pure t.minFactor
  else if norm == Scalar.zero then pure t.maxFactor
  else
    clamp (t.safety * Scalar.power norm (-Scalar.ofDecimal 2 (-1))) t.minFactor t.maxFactor

/-- A step so small that it no longer moves the argument. -/
def tooSmall (x h : α) : Bool :=
  Scalar.ofDecimal 1 (-1) * Scalar.abs h ≤ Scalar.abs x * Scalar.epsilon

end Stepper

end Trajectory
