import Trajectory.Decimal.Basic

namespace Trajectory.Decimal

/-- The integer nearest to `n / d`, the even one of two equally near. -/
def roundEven (n d : Nat) : Nat :=
  let q := n / d
  let r := n % d
  if 2 * r < d then q else if d < 2 * r then q + 1 else q + q % 2

/-- The double `m * 2 ^ e` with `places` digits after the point. -/
def fixed (places m : Nat) (e : Int) : List Char :=
  let n := roundEven (m * Nat.pow 2 e.toNat * Nat.pow 10 places) (Nat.pow 2 (-e).toNat)
  pointed (digits n) places

end Trajectory.Decimal
