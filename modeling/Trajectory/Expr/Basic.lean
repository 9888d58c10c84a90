import Trajectory.Expr.Scope

namespace Trajectory

inductive BinaryOp where
  | add
  | sub
  | mul
  | div
  | power
deriving Repr, DecidableEq

inductive Func where
  | exp
  | ln
  | abs
  | sin
  | cos
  | tg
  | ctg
  | arcsin
  | arccos
  | arctg
  | arcctg
deriving Repr, DecidableEq

/-- Negation is a product with minus one and a square root is a power, so neither has a form of its own. -/
inductive Expr (α : Type) where
  | var (name : String)
  | const (value : α)
  | binary (op : BinaryOp) (left right : Expr α)
  | apply (f : Func) (argument : Expr α)
deriving Repr, DecidableEq

inductive EvalError where
  | unbound (name : String)
deriving Repr, DecidableEq

def EvalError.message : EvalError → String
  | unbound name => s!"variable '{name}' is not bound in the current scope"

namespace BinaryOp

variable {α : Type} [Scalar α]

def apply : BinaryOp → α → α → α
  | add, a, b => a + b
  | sub, a, b => a - b
  | mul, a, b => a * b
  | div, a, b => a / b
  | power, a, b => Scalar.power a b

end BinaryOp

namespace Func

variable {α : Type} [Scalar α]

def apply : Func → α → α
  | exp, a => Scalar.exp a
  | ln, a => Scalar.log a
  | abs, a => Scalar.abs a
  | sin, a => Scalar.sin a
  | cos, a => Scalar.cos a
  | tg, a => Scalar.tan a
  | ctg, a => Scalar.one / Scalar.tan a
  | arcsin, a => Scalar.arcsin a
  | arccos, a => Scalar.arccos a
  | arctg, a => Scalar.arctan a
  | arcctg, a => Scalar.pi / Scalar.ofNat 2 - Scalar.arctan a

end Func

namespace Expr

variable {α : Type}

/-- Exponents up to this size are multiplied out. -/
def maxIntegerExponent : Nat := 2147483647

section Arithmetic

variable [Scalar α]

def neg (e : Expr α) : Expr α := binary .mul (const (-Scalar.one)) e

def sqrt (e : Expr α) : Expr α := binary .power e (const Scalar.half)

def isZero : Expr α → Bool
  | const v => v == Scalar.zero
  | _ => false

/-- The exponent of a power that is multiplied out: a constant integer of moderate size. This
keeps powers of negative numbers real. -/
def integerExponent? : BinaryOp → Expr α → Option Int
  | .power, const p => (Scalar.whole? p).filter fun n => n.natAbs ≤ maxIntegerExponent
  | _, _ => none

/-- The value of an expression. Only a name without a value is an error; a quotient by zero or a
logarithm of a negative number is left to the arithmetic. -/
def eval (s : Scope α) : Expr α → Except EvalError α
  | var name =>
    match s.get? name with
    | some v => .ok v
    | none => .error (.unbound name)
  | const v => .ok v
  | binary op left right => do
    let a ← eval s left
    match integerExponent? op right with
    | some n => pure (Scalar.integerPower a n)
    | none => do
      let b ← eval s right
      pure (op.apply a b)
  | apply f argument => do
    let a ← eval s argument
    pure (f.apply a)

end Arithmetic

/-- The names of all variables, from left to right, each as often as it stands there. -/
def occurrences : Expr α → List String
  | var name => [name]
  | const _ => []
  | binary _ left right => left.occurrences ++ right.occurrences
  | apply _ argument => argument.occurrences

/-- The names of the variables in the order of their first appearance. -/
def vars (e : Expr α) : List String := e.occurrences.eraseDups

def mentions (name : String) : Expr α → Bool
  | var other => other == name
  | const _ => false
  | binary _ left right => left.mentions name || right.mentions name
  | apply _ argument => argument.mentions name

end Expr

end Trajectory
