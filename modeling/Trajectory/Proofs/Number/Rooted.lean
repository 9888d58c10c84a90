import Mathlib.Analysis.SpecialFunctions.Pow.Real
import Mathlib.Analysis.SpecialFunctions.Trigonometric.Arctan
import Mathlib.Analysis.SpecialFunctions.Trigonometric.Inverse
import Trajectory.Proofs.Number.Exact

namespace Trajectory

namespace Scalar

/-- Exact arithmetic in which no quotient, absolute value or square root is rounded either. -/
class Rooted (α : Type) [Scalar α] [Exact α] : Prop where
  value_div : ∀ a b : α, Exact.value b ≠ 0 → Exact.value (a / b) = Exact.value a / Exact.value b
  value_abs : ∀ a : α, Exact.value (abs a) = |Exact.value a|
  value_sqrt : ∀ a : α, 0 ≤ Exact.value a → Exact.value (sqrt a) = √(Exact.value a)

namespace Exact

variable {α : Type} [Scalar α] [Exact α]

@[simp]
theorem value_ofNat (n : Nat) : value (ofNat n : α) = n := by simp [ofNat, value_ofDecimal]

theorem eq_zero_iff [Faithful α] {a : α} : a = zero ↔ value a = 0 := by
  rw [← value_zero (α := α)]
  exact Faithful.value_injective.eq_iff.symm

theorem value_max [Faithful α] (a b : α) : value (Scalar.max a b) = Max.max (value a) (value b) := by
  have hnumber : isNaN a = false := Faithful.isNaN_eq a
  unfold Scalar.max
  rw [hnumber, Bool.false_or]
  by_cases h : a < b
  · have hvalue : value a < value b := (lt_iff a b).mp h
    rw [if_pos (decide_eq_true h), max_eq_right hvalue.le]
  · have hvalue : ¬ value a < value b := mt (lt_iff a b).mpr h
    rw [if_neg (by simpa using h), max_eq_left (not_lt.mp hvalue)]

end Exact

end Scalar

/-- A real number. -/
structure RealNumber where
  value : ℝ

namespace RealNumber

/-- The whole number that a real number is, if it is one. -/
noncomputable def whole? (a : ℝ) : Option Int := if (⌊a⌋ : ℝ) = a then some ⌊a⌋ else none

noncomputable instance : Scalar RealNumber where
  add a b := ⟨a.value + b.value⟩
  sub a b := ⟨a.value - b.value⟩
  mul a b := ⟨a.value * b.value⟩
  div a b := ⟨a.value / b.value⟩
  neg a := ⟨-a.value⟩
  beq a b := decide (a.value = b.value)
  lt a b := a.value < b.value
  le a b := a.value ≤ b.value
  decideLT a b := inferInstanceAs (Decidable (a.value < b.value))
  decideLE a b := inferInstanceAs (Decidable (a.value ≤ b.value))
  ofDecimal m e := ⟨m * ((10 : ℕ) : ℝ) ^ e⟩
  abs a := ⟨|a.value|⟩
  sqrt a := ⟨√a.value⟩
  power a p := ⟨a.value ^ p.value⟩
  exp a := ⟨Real.exp a.value⟩
  log a := ⟨Real.log a.value⟩
  sin a := ⟨Real.sin a.value⟩
  cos a := ⟨Real.cos a.value⟩
  tan a := ⟨Real.tan a.value⟩
  arcsin a := ⟨Real.arcsin a.value⟩
  arccos a := ⟨Real.arccos a.value⟩
  arctan a := ⟨Real.arctan a.value⟩
  pi := ⟨Real.pi⟩
  epsilon := ⟨0⟩
  isFinite _ := true
  isNaN _ := false
  whole? a := whole? a.value

theorem decimal_value (m : Nat) (e : Int) : value (Scalar.ofDecimal m e) = m * (10 : ℝ) ^ e := by
  show (m * ((10 : ℕ) : ℝ) ^ e : ℝ) = m * 10 ^ e
  rw [Nat.cast_ofNat]

noncomputable instance : Scalar.Exact RealNumber where
  value := value
  value_add _ _ := rfl
  value_sub _ _ := rfl
  value_mul _ _ := rfl
  value_ofDecimal := decimal_value
  le_iff _ _ := Iff.rfl
  lt_iff _ _ := Iff.rfl
  beq_iff _ _ := decide_eq_true_iff
  isFinite_eq _ := rfl

instance : Scalar.Faithful RealNumber where
  value_injective := by
    rintro ⟨a⟩ ⟨b⟩ h
    exact congrArg mk h
  isNaN_eq _ := rfl

instance : Scalar.Rooted RealNumber where
  value_div _ _ _ := rfl
  value_abs _ := rfl
  value_sqrt _ _ := rfl

open Scalar (Exact)

theorem value_ofInt (n : Int) : Exact.value (Scalar.ofInt n : RealNumber) = n := by
  unfold Scalar.ofInt
  split
  next h =>
    have hneg (a : RealNumber) : Exact.value (-a) = -Exact.value a := rfl
    rw [hneg, Exact.value_ofNat, Nat.cast_natAbs, abs_of_neg h]
    push_cast
    exact neg_neg _
  next h => rw [Exact.value_ofNat, Nat.cast_natAbs, abs_of_nonneg (not_lt.mp h)]

theorem value_ratio (numerator : Int) (denominator : Nat) :
    Exact.value (Scalar.ratio numerator denominator : RealNumber) = numerator / denominator := by
  have hdiv (a b : RealNumber) : Exact.value (a / b) = Exact.value a / Exact.value b := rfl
  rw [Scalar.ratio, hdiv, value_ofInt, Exact.value_ofNat]

end RealNumber

end Trajectory
