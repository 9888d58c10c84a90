import Trajectory.Stepper.Tableau
import Trajectory.OdeSystem.Basic

namespace Trajectory

/-- The two results of a step. The first one, of order five, is kept; the second one, of order four,
serves to estimate its error. -/
structure StepPair (α : Type) where
  fifth : List α
  fourth : List α
deriving Repr

namespace Stepper

variable {α : Type} [Scalar α]

/-- `c * k + y`, slot by slot. -/
def addScaled (c : α) (k y : List α) : List α := List.zipWith (fun a b => c * a + b) k y

/-- The state `y` moved along the derivatives `ks` with the given weights, times `h`. Weights of
zero are passed over, so that a derivative without a weight has no part in the sum. -/
def combine (h : α) (weights : List α) (ks : List (List α)) (y : List α) : List α :=
  (weights.zip ks).foldl
    (fun sum term => if term.1 == Scalar.zero then sum else addScaled (h * term.1) term.2 sum) y

/-- The derivatives at further stages, after those already in `ks`. -/
def stagesAfter (f : α → List α → Checked EvalError (List α)) (x h : α) (y : List α)
    (ks : List (List α)) : List (α × List α) → Checked EvalError (List (List α))
  | [] => pure ks
  | (node, row) :: stages => do
    let k ← f (x + node * h) (combine h row ks y)
    stagesAfter f x h y (ks ++ [k]) stages

/-- The derivatives at all stages. The first one stands at the point itself. -/
def stages (t : Tableau α) (f : α → List α → Checked EvalError (List α)) (x : α) (y : List α)
    (h : α) : Checked EvalError (List (List α)) := do
  let k ← f x y
  stagesAfter f x h y [k] (t.nodes.zip t.rows).tail

/-- One step of size `h` from `(x, y)`, where `f` gives the derivatives at a point. -/
def step (f : α → List α → Checked EvalError (List α)) (x : α) (y : List α) (h : α) :
    Checked EvalError (StepPair α) := do
  let t := Tableau.embedded
  let ks ← stages t f x y h
  pure ⟨combine h t.fifth ks y, combine h t.fourth ks y⟩

end Stepper

def OdeSystem.step {α : Type} [Scalar α] (s : OdeSystem α) (arg : String) (x : α) (y : List α)
    (h : α) : Checked EvalError (StepPair α) :=
  Stepper.step (s.evaluate arg) x y h

end Trajectory
