import Trajectory.Expr.Parser

namespace Trajectory

/-- A function of the argument that a run follows: the derivative of a base letter with the given
order. -/
structure Variable where
  base : Char
  order : Nat
deriving Repr, DecidableEq

/-- The letter itself, or the letter with the order of its derivative. -/
def Variable.name (v : Variable) : String :=
  if v.order = 0 then v.base.toString else s!"{v.base}_{v.order}"

/-- An equation of order `n` stands for a chain of `n` equations of the first order, over its letter and the
derivatives of the letter below the `n`-th. -/
structure Equation (α : Type) where
  base : Char
  primes : Nat
  right : Expr α
  source : String
deriving Repr, DecidableEq

namespace Equation

variable {α : Type}

/-- An equation without primes is of the first order too. -/
def order (e : Equation α) : Nat := max 1 e.primes

def chain (e : Equation α) : List Variable :=
  (List.range e.order).map fun k => ⟨e.base, k⟩

/-- The derivatives of the variables: each is the next variable of the chain, and the last one the
right-hand side. -/
def derivatives (e : Equation α) : List (Expr α) :=
  (e.chain.tail.map fun v => Expr.var v.name) ++ [e.right]

end Equation

inductive SyntaxFault where
  | noEquations
  | equalsSigns (equation : String)
  | leftSide (left equation : String)
  | duplicate (base : Char) (equation : String)
  | rightSide (equation : String) (cause : ParseError)
deriving Repr, DecidableEq

def SyntaxFault.message : SyntaxFault → String
  | noEquations => "no equations given"
  | equalsSigns equation => s!"'{equation}' must contain exactly one '='"
  | leftSide left equation =>
    s!"left-hand side '{left}' of '{equation}' must be a single letter followed by primes"
  | duplicate base equation => s!"duplicate equation for '{base}': '{equation}'"
  | rightSide equation cause =>
    s!"cannot parse right-hand side of '{equation}': {cause.message}"

namespace Equation

variable {α : Type} [Scalar α]

/-- A single letter and the number of primes after it. -/
def leftSide? : List Char → Option (Char × Nat)
  | [] => none
  | c :: primes =>
    if Text.isLetter c && primes.all (fun p => p == '\'') then some (c, primes.length) else none

/-- Reads one equation. Its letter must not be among those that have an equation already. -/
def read (taken : List Char) (source : String) : Except SyntaxFault (Equation α) :=
  let s := Text.trim source.toList
  let equation := String.ofList s
  if s.count '=' ≠ 1 then .error (.equalsSigns equation)
  else
    let left := Text.trim (s.takeWhile fun c => c != '=')
    match leftSide? left with
    | none => .error (.leftSide (String.ofList left) equation)
    | some (base, primes) =>
      if taken.contains base then .error (.duplicate base equation)
      else
        match Expr.parse (s.dropWhile fun c => c != '=').tail with
        | .error e => .error (.rightSide equation e)
        | .ok right => .ok ⟨base, primes, right, equation⟩

/-- Reads equations up to the first that is faulty: the equations before it, and its fault. -/
def readAll (taken : List Char) : List String → List (Equation α) × Option SyntaxFault
  | [] => ([], none)
  | source :: sources =>
    match read taken source with
    | .error fault => ([], some fault)
    | .ok e =>
      let (later, fault?) := readAll (e.base :: taken) sources
      (e :: later, fault?)

end Equation

end Trajectory
