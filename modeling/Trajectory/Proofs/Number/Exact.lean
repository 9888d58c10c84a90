import Mathlib.Algebra.Order.Archimedean.Real.Basic
import Mathlib.Tactic.Linarith
import Mathlib.Tactic.Positivity
import Trajectory.Proofs.Number.Rounded

namespace Trajectory

namespace Scalar

/-- Every number has a real value, and sums, differences, products and comparisons are those of the
values. -/
class Exact (α : Type) [Scalar α] where
  value : α → ℝ
  value_add : ∀ a b, value (a + b) = value a + value b
  value_sub : ∀ a b, value (a - b) = value a - value b
  value_mul : ∀ a b, value (a * b) = value a * value b
  value_ofDecimal : ∀ (m : Nat) (e : Int), value (ofDecimal m e) = m * (10 : ℝ) ^ e
  le_iff : ∀ a b : α, a ≤ b ↔ value a ≤ value b
  lt_iff : ∀ a b : α, a < b ↔ value a < value b
  beq_iff : ∀ a b : α, (a == b) = true ↔ value a = value b
  isFinite_eq : ∀ a : α, isFinite a = true

/-- Exact arithmetic in which a number is nothing but its value. -/
class Faithful (α : Type) [Scalar α] [Exact α] : Prop where
  value_injective : Function.Injective (Exact.value : α → ℝ)
  isNaN_eq : ∀ a : α, isNaN a = false

namespace Exact

variable {α : Type} [Scalar α] [Exact α]

attribute [simp] value_add value_sub value_mul

@[simp]
theorem value_zero : value (zero : α) = 0 := by simp [zero, ofNat, value_ofDecimal]

@[simp]
theorem value_one : value (one : α) = 1 := by simp [one, ofNat, value_ofDecimal]

@[simp]
theorem value_stretch : value (Controller.stretch : α) = 1 + (10 : ℝ) ^ (-8 : Int) := by
  simp [Controller.stretch, value_ofDecimal]

theorem add_swap [Faithful α] (a b c : α) : a + b + c = a + c + b := by
  refine Faithful.value_injective ?_
  simp only [value_add]
  exact add_right_comm _ _ _

theorem not_le_iff {a b : α} : ¬ a ≤ b ↔ value b < value a := by rw [le_iff, not_le]

theorem ofDecimal_pos {m : Nat} (hm : 0 < m) (e : Int) : (zero : α) < ofDecimal m e := by
  have hpower : (0 : ℝ) < (10 : ℝ) ^ e := zpow_pos (by norm_num) e
  have hcast : (0 : ℝ) < m := by exact_mod_cast hm
  rw [lt_iff, value_zero, value_ofDecimal]
  positivity

instance rounded : Rounded α where
  le_total a b := by
    rw [le_iff, le_iff]
    exact le_total (value a) (value b)
  le_trans a b c hab hbc := by
    rw [le_iff] at *
    exact hab.trans hbc
  lt_iff_not_le a b := by rw [not_le_iff, lt_iff]
  add_le_add a b c d hab hcd := by
    rw [le_iff] at *
    simpa using add_le_add hab hcd
  le_stretched h hpos := by
    rw [lt_iff, value_zero] at hpos
    rw [le_iff, value_mul, value_stretch]
    have hstretch : (0 : ℝ) ≤ value h * (10 : ℝ) ^ (-8 : Int) := by positivity
    linarith
  lt_add x h hpos _ := by
    rw [lt_iff, value_zero] at hpos
    rw [lt_iff, value_add]
    linarith
  decimal_pos e _ := ofDecimal_pos Nat.one_pos e

end Exact

end Scalar

end Trajectory
