import Trajectory.Number.Scalar

namespace Trajectory
namespace Binary64

open Float.Model (UnpackedFloat)

/-- Sign, mantissa and binary exponent of a double, or the special value that it is. -/
def parts (x : Float) : UnpackedFloat := x.toModel.unpack

def isNegative : UnpackedFloat.Sign → Bool
  | .negative => true
  | .positive => false

def exactQuotient? (m d : Nat) : Option Nat := if m % d = 0 then some (m / d) else none

def whole? (x : Float) : Option Int :=
  match parts x with
  | .zero _ => some 0
  | .finite sign m e _ =>
    let magnitude := if 0 ≤ e then some (m * Nat.pow 2 e.toNat)
      else exactQuotient? m (Nat.pow 2 (-e).toNat)
    magnitude.map fun n => if isNegative sign then -(n : Int) else n
  | _ => none

/-- Decimal exponents above this one make every positive integer infinite. -/
def exponentCeiling : Int := 400

/-- Decimal exponents below this one make every number of up to `bits` bits zero. -/
def exponentFloor (bits : Nat) : Int := -400 - bits

/-- The double nearest to `m * 10 ^ e`. Far outside the range of doubles the exponent no longer
matters, and a nearer one does as well. -/
def ofDecimal (m : Nat) (e : Int) : Float :=
  if m = 0 then 0
  else
    let e := max (min e exponentCeiling) (exponentFloor (m.log2 + 1))
    Float.ofScientific m (e < 0) e.natAbs

/-- The double nearest to the ratio of a circle to its diameter. -/
def pi : Float := Float.ofScientific 3141592653589793 true 15

def epsilon : Float := Float.ofScientific 22204460492503131 true 32

end Binary64

instance : Scalar Float where
  decideLT := inferInstance
  decideLE := inferInstance
  ofDecimal := Binary64.ofDecimal
  abs := Float.abs
  sqrt := Float.sqrt
  power := Float.pow
  exp := Float.exp
  log := Float.log
  sin := Float.sin
  cos := Float.cos
  tan := Float.tan
  arcsin := Float.asin
  arccos := Float.acos
  arctan := Float.atan
  pi := Binary64.pi
  epsilon := Binary64.epsilon
  isFinite := Float.isFinite
  isNaN := Float.isNaN
  whole? := Binary64.whole?

end Trajectory
