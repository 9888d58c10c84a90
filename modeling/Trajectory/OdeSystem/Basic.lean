import Trajectory.OdeSystem.Equation
import Trajectory.Text.Quoted

namespace Trajectory

/-- The state of a system has a slot for each variable. They stand in the order of the equations, each
equation's chain together. -/
structure OdeSystem (α : Type) where
  equations : List (Equation α)
deriving Repr, DecidableEq

namespace OdeSystem

variable {α : Type}

def vars (s : OdeSystem α) : List Variable := s.equations.flatMap Equation.chain

def names (s : OdeSystem α) : List String := s.vars.map Variable.name

def size (s : OdeSystem α) : Nat := s.vars.length

def derivatives (s : OdeSystem α) : List (Expr α) := s.equations.flatMap Equation.derivatives

def baseNames (s : OdeSystem α) : List String := s.equations.map fun e => e.base.toString

/-- The slot of each equation's letter, when the first slot is `start`. -/
def offsets (start : Nat) : List (Equation α) → List Nat
  | [] => []
  | e :: equations => start :: offsets (start + e.order) equations

def baseIndices (s : OdeSystem α) : List Nat := offsets 0 s.equations

def sources (s : OdeSystem α) : List String := s.equations.map Equation.source

/-- The names in scope while the system is evaluated: the argument, then every variable. -/
def scopeNames (s : OdeSystem α) (arg : String) : List String := arg :: s.names

/-- The names that right-hand sides read and no equation declares, in order of appearance. -/
def undeclared (s : OdeSystem α) : List String :=
  ((s.equations.flatMap fun e => e.right.vars).filter fun n => !s.names.contains n).eraseDups

/-- One line that shows the variables and the equations. -/
def description (s : OdeSystem α) : String :=
  "System \x7b variables: " ++ Text.quotedNames s.names ++
    ", equations: " ++ Text.quotedNames s.sources ++ " \x7d"

/-- The derivatives of all variables at the argument `x` and the state `y`. -/
def evaluate [Scalar α] (s : OdeSystem α) (arg : String) (x : α) (y : List α) :
    Checked EvalError (List α) := do
  let scope ← Scope.ofLists (s.scopeNames arg) (x :: y)
  s.derivatives.mapM fun e => Checked.ofExcept (e.eval scope)

end OdeSystem

end Trajectory
