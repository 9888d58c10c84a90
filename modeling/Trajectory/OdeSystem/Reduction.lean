import Trajectory.Log
import Trajectory.OdeSystem.Basic

namespace Trajectory

namespace OdeSystem

inductive Notice (α : Type) where
  | chain (e : Equation α)
  /-- One name is declared by no equation: it can be the argument. -/
  | argument (name : String)
  /-- Several names are declared by no equation, but only one of them can be the argument. -/
  | undeclared (names : List String)
  | reduced (names : List String)

namespace Notice

variable {α : Type}

def line [Numeral α] : Notice α → LogLine
  | chain e => ⟨.debug, s!"{e.base} reduced to order {e.order} chain, rhs {e.right.toText}"⟩
  | argument name =>
    ⟨.debug, s!"'{name}' is not a system variable, expected to be the independent variable"⟩
  | undeclared names =>
    ⟨.warn, "right-hand sides read " ++ Text.quotedNames names ++
      " which are not system variables; only one of them can be the independent variable"⟩
  | reduced names => ⟨.info, "system reduced to variables " ++ Text.quotedNames names⟩

/-- The notice about names that no equation declares, if there are any. -/
def ofUndeclared : List String → List (Notice α)
  | [] => []
  | [name] => [argument name]
  | names => [undeclared names]

end Notice

variable {α : Type} [Scalar α]

def reduce (sources : List String) : Except SyntaxFault (OdeSystem α) :=
  if sources.isEmpty then .error .noEquations
  else
    match Equation.readAll [] sources with
    | (equations, none) => .ok ⟨equations⟩
    | (_, some fault) => .error fault

/-- What is reported while equation texts are reduced: a line for each equation before the first
faulty one, and if there is none what can be said of the whole system. -/
def reductionNotices (sources : List String) : List (Notice α) :=
  let (equations, fault?) := Equation.readAll (α := α) [] sources
  let chains := equations.map Notice.chain
  if fault?.isSome || sources.isEmpty then chains
  else
    let s : OdeSystem α := ⟨equations⟩
    chains ++ Notice.ofUndeclared s.undeclared ++ [Notice.reduced s.names]

end OdeSystem

end Trajectory
