import Trajectory.Log
import Trajectory.Solver.Error
import Trajectory.Stepper.ErrorEstimate
import Trajectory.Stepper.Step

namespace Trajectory

/-- The point that a run has reached and the size of its next step. -/
structure Controller (α : Type) where
  system : OdeSystem α
  arg : String
  tolerance : Tolerance α
  adaptive : Bool
  minStep : α
  maxStep : α
  finish : α
  x : α
  y : List α
  h : α
  accepted : Nat
  rejected : Nat

/-- What an accepted step reports: the argument after it, its size and its error. -/
structure AcceptedStep (α : Type) where
  x : α
  size : α
  errorNorm : α
deriving Repr

/-- A step that is tried again with another size. -/
structure Rejection (α : Type) where
  x : α
  size : α
  errorNorm : α
  nextSize : α
deriving Repr

def Rejection.line {α : Type} [Numeral α] (r : Rejection α) : LogLine :=
  ⟨.debug, s!"step rejected at x = {text r.x}: h = {text r.size}, " ++
    s!"error norm = {text r.errorNorm}, retrying with h = {text r.nextSize}"⟩

inductive Attempt (α : Type) where
  | accepted (c : Controller α) (step : AcceptedStep α)
  | rejected (c : Controller α) (r : Rejection α)
  | failed (c : Controller α) (f : Failure (SolverError α))

namespace Controller

variable {α : Type} [Scalar α]

def toleranceError (f : ToleranceFault α) : Failure (SolverError α) :=
  .cause (.configuration (.tolerance f))

/-- The controller at the start of a range, with a state for the system. -/
def start (s : OdeSystem α) (r : Range α) (t : Tolerance α) (y : List α) (adaptive : Bool) :
    Checked (SolverError α) (Controller α) := do
  t.validate.mapError toleranceError
  let minStep := t.minStep
  let maxStep := t.maxStep r
  (Tolerance.checkSteps minStep maxStep).mapError toleranceError
  if y.length ≠ s.size then throw (.cause (.configuration (.valueCount y.length s.size)))
  let h ← if adaptive then clamp r.firstStep minStep maxStep else pure r.firstStep
  pure
    { system := s, arg := r.arg, tolerance := t, adaptive, minStep, maxStep, finish := r.finish,
      x := r.start, y, h, accepted := 0, rejected := 0 }

def finished (c : Controller α) : Bool := c.finish ≤ c.x

/-- One and a little more: a step that reaches nearly to the end is stretched to reach it. -/
def stretch : α := Scalar.one + Scalar.ofDecimal 1 (-8)

/-- The size of the next step, and whether it lands on the end. -/
def nextSize (c : Controller α) : α × Bool :=
  if c.finish ≤ c.x + c.h * stretch then (c.finish - c.x, true) else (c.h, false)

/-- The controller after a step of size `h`; the last step lands on the end exactly. -/
def moved (c : Controller α) (h : α) (last : Bool) (y : List α) : Controller α :=
  { c with x := if last then c.finish else c.x + h, y, accepted := c.accepted + 1 }

def convergence (c : Controller α) (h : α) : Failure (SolverError α) :=
  .cause (.convergence c.x h c.minStep)

/-- The size a rejected step is tried again with. It is smaller, but not below the least step. -/
def retrySize (c : Controller α) (h factor : α) : Checked (SolverError α) α := do
  let size ← clamp (h * factor) c.minStep c.maxStep
  pure (if h ≤ size then Scalar.max (h * c.tolerance.minFactor) c.minStep else size)

/-- A step with a fixed size is accepted whatever its error is. -/
def attemptFixed (c : Controller α) (h : α) (last : Bool) (pair : StepPair α) : Attempt α :=
  match Stepper.maxAbsDifference pair.fifth pair.fourth with
  | .error f => .failed c f
  | .ok norm =>
    let after := c.moved h last pair.fifth
    .accepted after ⟨after.x, h, norm⟩

/-- A step whose size is adapted is accepted if its error is at most one. -/
def attemptAdaptive (c : Controller α) (h : α) (last : Bool) (pair : StepPair α) : Attempt α :=
  let judged : Checked (SolverError α) (α × α) := do
    let norm ← Stepper.errorNorm c.tolerance c.y pair.fifth pair.fourth
    let factor ← Stepper.stepFactor c.tolerance norm
    pure (norm, factor)
  match judged with
  | .error f => .failed c f
  | .ok (norm, factor) =>
    if norm ≤ Scalar.one then
      let after := c.moved h last pair.fifth
      match clamp (h * factor) c.minStep c.maxStep with
      | .error f => .failed c f
      | .ok next => .accepted { after with h := next } ⟨after.x, h, norm⟩
    else
      let after := { c with rejected := c.rejected + 1 }
      if h ≤ c.minStep then .failed after (c.convergence h)
      else
        match c.retrySize h factor with
        | .error f => .failed after f
        | .ok next => .rejected { after with h := next } ⟨c.x, h, norm, next⟩

def attempt (c : Controller α) : Attempt α :=
  let (h, last) := c.nextSize
  if !last && Stepper.tooSmall c.x h then .failed c (c.convergence h)
  else
    match (c.system.step c.arg c.x c.y h).mapCause .evaluation with
    | .error f => .failed c f
    | .ok pair => if c.adaptive then c.attemptAdaptive h last pair else c.attemptFixed h last pair

end Controller

inductive Advance.Outcome (α : Type) where
  | step (s : AcceptedStep α)
  | failure (f : Failure (SolverError α))
  /-- More tries are needed than were allowed. -/
  | exhausted

/-- The tries for one step: the controller after them, the steps that were rejected, and how they
ended. -/
structure Advance (α : Type) where
  controller : Controller α
  rejections : List (Rejection α)
  outcome : Advance.Outcome α

/-- Makes the next step, and tries again each time it is rejected, at most `tries` times in all. -/
def Controller.advance {α : Type} [Scalar α] : Nat → Controller α → Advance α
  | 0, c => ⟨c, [], .exhausted⟩
  | tries + 1, c =>
    match c.attempt with
    | .accepted after s => ⟨after, [], .step s⟩
    | .failed after f => ⟨after, [], .failure f⟩
    | .rejected after r =>
      let later := after.advance tries
      { later with rejections := r :: later.rejections }

end Trajectory
