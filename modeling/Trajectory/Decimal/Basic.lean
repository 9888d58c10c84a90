namespace Trajectory

/-- The number `mantissa * 10 ^ exponent`. -/
structure Decimal where
  mantissa : Nat
  exponent : Int
deriving Repr, DecidableEq

namespace Decimal

def digits (n : Nat) : List Char := Nat.toDigits 10 n

def zeros (n : Nat) : List Char := List.replicate n '0'

/-- Written with `places` digits after the point, and without a point where that is none. -/
def pointed (digits : List Char) (places : Nat) : List Char :=
  if places = 0 then digits
  else
    let padded := zeros (places + 1 - digits.length) ++ digits
    let whole := padded.length - places
    padded.take whole ++ '.' :: padded.drop whole

/-- Positional notation, never an exponent. -/
def positional (d : Decimal) : List Char :=
  if 0 ≤ d.exponent then digits d.mantissa ++ zeros d.exponent.toNat
  else pointed (digits d.mantissa) (-d.exponent).toNat

/-- The same number without trailing zeros in its mantissa. -/
def strip (d : Decimal) : Decimal :=
  if h : d.mantissa ≠ 0 ∧ d.mantissa % 10 = 0 then strip ⟨d.mantissa / 10, d.exponent + 1⟩ else d
termination_by d.mantissa
decreasing_by omega

end Decimal

end Trajectory
