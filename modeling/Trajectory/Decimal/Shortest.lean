import Trajectory.Decimal.Basic

namespace Trajectory.Decimal

/-- A binary number `value / unit` and the interval of reals that round to it, as numerators over
the same denominator. -/
structure Rounding where
  low : Nat
  value : Nat
  high : Nat
  unit : Nat
  /-- Whether the ends of the interval round to the number too. -/
  closed : Bool

/-- The rounding interval of the double `m * 2 ^ e`. The gap below a power of two is half the gap
above it, and the ends round to the number with the even mantissa. -/
def Rounding.ofBinary (m : Nat) (e : Int) : Rounding :=
  let scale := Nat.pow 2 (e - 2).toNat
  let below := if m = Nat.pow 2 52 ∧ -1074 < e then 1 else 2
  { low := (4 * m - below) * scale
    value := 4 * m * scale
    high := (4 * m + 2) * scale
    unit := Nat.pow 2 (2 - e).toNat
    closed := m % 2 = 0 }

namespace Rounding

/-- The same numbers measured in units of `10 ^ k`. -/
def inUnits (r : Rounding) (k : Int) : Rounding :=
  let scale := Nat.pow 10 (-k).toNat
  { r with
    low := r.low * scale
    value := r.value * scale
    high := r.high * scale
    unit := r.unit * Nat.pow 10 k.toNat }

def contains (r : Rounding) (n : Nat) : Bool :=
  let x := n * r.unit
  if r.closed then r.low ≤ x && x ≤ r.high else r.low < x && x < r.high

/-- The number that rounds to the value among its two integer neighbours, the nearer one if both do, and of
two equally near ones the larger. -/
def neighbour? (r : Rounding) : Option Nat :=
  let n := r.value / r.unit
  match r.contains n, r.contains (n + 1) with
  | true, true => some (if 2 * r.value < (2 * n + 1) * r.unit then n else n + 1)
  | true, false => some n
  | false, true => some (n + 1)
  | false, false => none

/-- The least `k` with `value / unit < 10 ^ k`, found from the binary exponent. -/
def magnitude (r : Rounding) : Int :=
  let guess := ((r.value.log2 : Int) - r.unit.log2) * 30103 / 100000
  let below (k : Int) : Bool := (r.inUnits k).value < (r.inUnits k).unit
  if below guess then guess else if below (guess + 1) then guess + 1 else guess + 2

end Rounding

/-- Seventeen digits tell any two doubles apart. -/
def maxDigits : Nat := 17

/-- The decimal that is equal to `m * 2 ^ e`. -/
def exact (m : Nat) (e : Int) : Decimal :=
  if 0 ≤ e then ⟨m * Nat.pow 2 e.toNat, 0⟩ else ⟨m * Nat.pow 5 (-e).toNat, e⟩

/-- The shortest decimal that reads back as the double `m * 2 ^ e`. -/
def shortest (m : Nat) (e : Int) : Decimal :=
  let r := Rounding.ofBinary m e
  let top := r.magnitude
  let found := (List.range maxDigits).findSome? fun n =>
    let k := top - (n + 1 : Nat)
    (r.inUnits k).neighbour?.map fun d => Decimal.strip ⟨d, k⟩
  found.getD (exact m e)

end Trajectory.Decimal
