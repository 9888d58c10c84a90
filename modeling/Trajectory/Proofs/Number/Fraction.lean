import Mathlib.Algebra.Order.Ring.Cast
import Mathlib.Data.List.OfFn
import Mathlib.Data.Rat.Cast.Order
import Trajectory.Proofs.Number.Exact

namespace Trajectory

structure Fraction where
  value : ℚ
deriving DecidableEq

namespace Fraction

/-- The power with the exponent rounded down. -/
def power (a p : ℚ) : ℚ :=
  match p.floor with
  | .ofNat n => (List.replicate n a).prod
  | .negSucc n => ((List.replicate (n + 1) a).prod)⁻¹

/-- Fractions have no use for the functions whose values are no fractions. -/
instance : Scalar Fraction where
  add a b := ⟨a.value + b.value⟩
  sub a b := ⟨a.value - b.value⟩
  mul a b := ⟨a.value * b.value⟩
  div a b := ⟨a.value / b.value⟩
  neg a := ⟨-a.value⟩
  beq a b := a.value == b.value
  lt a b := a.value < b.value
  le a b := a.value ≤ b.value
  decideLT a b := inferInstanceAs (Decidable (a.value < b.value))
  decideLE a b := inferInstanceAs (Decidable (a.value ≤ b.value))
  ofDecimal m e :=
    match e with
    | .ofNat n => ⟨(m * 10 ^ n : Nat)⟩
    | .negSucc n => ⟨mkRat m (10 ^ (n + 1))⟩
  abs a := ⟨if a.value < 0 then -a.value else a.value⟩
  sqrt _ := ⟨0⟩
  power a p := ⟨power a.value p.value⟩
  exp _ := ⟨0⟩
  log _ := ⟨0⟩
  sin _ := ⟨0⟩
  cos _ := ⟨0⟩
  tan _ := ⟨0⟩
  arcsin _ := ⟨0⟩
  arccos _ := ⟨0⟩
  arctan _ := ⟨0⟩
  pi := ⟨0⟩
  epsilon := ⟨0⟩
  isFinite _ := true
  isNaN _ := false
  whole? a := if a.value.den = 1 then some a.value.num else none

instance : Numeral Fraction where
  text a := s!"{a.value.num}/{a.value.den}"

noncomputable instance : Scalar.Exact Fraction where
  value a := a.value
  value_add a b := Rat.cast_add a.value b.value
  value_sub a b := Rat.cast_sub a.value b.value
  value_mul a b := Rat.cast_mul a.value b.value
  value_ofDecimal m e := by
    cases e with
    | ofNat n =>
      show (((m * 10 ^ n : Nat) : ℚ) : ℝ) = m * (10 : ℝ) ^ (n : Int)
      simp
    | negSucc n =>
      show ((mkRat m (10 ^ (n + 1)) : ℚ) : ℝ) = m * (10 : ℝ) ^ Int.negSucc n
      rw [Rat.mkRat_eq_div, zpow_negSucc]
      simp [div_eq_mul_inv]
  le_iff a b := Rat.cast_le.symm
  lt_iff a b := Rat.cast_lt.symm
  beq_iff a b := by
    show (a.value == b.value) = true ↔ (a.value : ℝ) = (b.value : ℝ)
    rw [beq_iff_eq, Rat.cast_inj]
  isFinite_eq _ := rfl

instance : Scalar.Faithful Fraction where
  value_injective := by
    rintro ⟨a⟩ ⟨b⟩ h
    exact congrArg mk (Rat.cast_injective h)
  isNaN_eq _ := rfl

theorem mk_add (a b : ℚ) : (⟨a⟩ + ⟨b⟩ : Fraction) = ⟨a + b⟩ := rfl

theorem mk_mul (a b : ℚ) : (⟨a⟩ * ⟨b⟩ : Fraction) = ⟨a * b⟩ := rfl

theorem ofNat_eq (n : ℕ) : (Scalar.ofNat n : Fraction) = ⟨n⟩ := by
  show (⟨((n * 10 ^ 0 : ℕ) : ℚ)⟩ : Fraction) = ⟨n⟩
  rw [pow_zero, mul_one]

theorem ratio_eq (n : ℤ) (d : ℕ) : (Scalar.ratio n d : Fraction) = ⟨n / d⟩ := by
  have hnumerator : (Scalar.ofInt n : Fraction) = ⟨n⟩ := by
    have habs : ((n.natAbs : ℕ) : ℚ) = |(n : ℚ)| := by rw [Nat.cast_natAbs, Int.cast_abs]
    unfold Scalar.ofInt
    rw [ofNat_eq, habs]
    split
    next hneg =>
      have hneg : (n : ℚ) < 0 := by exact_mod_cast hneg
      rw [abs_of_neg hneg]
      exact congrArg Fraction.mk (neg_neg (n : ℚ))
    next hpos =>
      have hpos : (0 : ℚ) ≤ n := by exact_mod_cast not_lt.mp hpos
      rw [abs_of_nonneg hpos]
  rw [Scalar.ratio, hnumerator, ofNat_eq]
  rfl

theorem beq_zero_iff {w : ℚ} : ((⟨w⟩ : Fraction) == Scalar.zero) = true ↔ w = 0 := by
  rw [Scalar.zero, ofNat_eq, Nat.cast_zero]
  exact beq_iff_eq (a := w)

def slots {n : ℕ} (v : Fin n → ℚ) : List Fraction := List.ofFn fun i => ⟨v i⟩

end Fraction

end Trajectory
