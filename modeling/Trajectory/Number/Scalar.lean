namespace Trajectory

/-- Numbers with the operations, comparisons and constants that a run needs. Binary floating point is one
instance, exact arithmetic another. -/
class Scalar (α : Type) extends Add α, Sub α, Mul α, Div α, Neg α, BEq α, LT α, LE α where
  decideLT : DecidableLT α
  decideLE : DecidableLE α
  /-- The number nearest to `mantissa * 10 ^ exponent`. -/
  ofDecimal (mantissa : Nat) (exponent : Int) : α
  abs : α → α
  sqrt : α → α
  power : α → α → α
  exp : α → α
  log : α → α
  sin : α → α
  cos : α → α
  tan : α → α
  arcsin : α → α
  arccos : α → α
  arctan : α → α
  pi : α
  /-- The distance from one to the next larger number, zero where there is no rounding. -/
  epsilon : α
  isFinite : α → Bool
  isNaN : α → Bool
  whole? : α → Option Int

namespace Scalar

variable {α : Type} [Scalar α]

instance : DecidableLT α := decideLT

instance : DecidableLE α := decideLE

def ofNat (n : Nat) : α := ofDecimal n 0

def ofInt (n : Int) : α := if n < 0 then -ofNat n.natAbs else ofNat n.natAbs

/-- The quotient of two integers, each rounded before the division. -/
def ratio (numerator : Int) (denominator : Nat) : α := ofInt numerator / ofNat denominator

def zero : α := ofNat 0

def one : α := ofNat 1

def half : α := ofDecimal 5 (-1)

def infinity : α := one / zero

def notANumber : α := zero / zero

/-- The larger of two numbers; an operand that is not a number is passed over. -/
def max (a b : α) : α := if isNaN a || a < b then b else a

/-- Repeated squaring: `result * a ^ n`, the factors multiplied from the lowest bit of `n` up. -/
def powerLoop (result a : α) (n : Nat) : α :=
  let result := if n % 2 = 1 then result * a else result
  if h : n / 2 = 0 then result else powerLoop result (a * a) (n / 2)
termination_by n
decreasing_by omega

/-- A power with an integer exponent; a negative one gives the reciprocal. -/
def integerPower (a : α) (n : Int) : α :=
  let r := powerLoop one a n.natAbs
  if n < 0 then one / r else r

end Scalar

/-- Numbers with a written form, as messages and tables show them. -/
class Numeral (α : Type) where
  text : α → String

export Numeral (text)

end Trajectory
