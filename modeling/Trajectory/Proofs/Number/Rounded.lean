import Trajectory.Stepper.Controller

namespace Trajectory

namespace Scalar

/-- A total order with an addition that is monotone, in which the stretch of a step does not shrink
it, and a step that is not too small moves the argument. -/
class Rounded (α : Type) [Scalar α] : Prop where
  le_total : ∀ a b : α, a ≤ b ∨ b ≤ a
  le_trans : ∀ a b c : α, a ≤ b → b ≤ c → a ≤ c
  lt_iff_not_le : ∀ a b : α, a < b ↔ ¬ b ≤ a
  add_le_add : ∀ a b c d : α, a ≤ b → c ≤ d → a + c ≤ b + d
  le_stretched : ∀ h : α, zero < h → h ≤ h * Controller.stretch
  lt_add : ∀ x h : α, zero < h → Stepper.tooSmall x h = false → x < x + h
  /-- The usual first step and the usual least step are positive. -/
  decimal_pos : ∀ e : Int, e = -1 ∨ e = -10 → (zero : α) < ofDecimal 1 e

namespace Rounded

variable {α : Type} [Scalar α] [Rounded α] {a b c : α}

theorem le_refl (a : α) : a ≤ a := by
  rcases le_total a a with h | h <;> exact h

theorem not_le : ¬ a ≤ b ↔ b < a := (lt_iff_not_le b a).symm

theorem not_lt : ¬ a < b ↔ b ≤ a := by rw [lt_iff_not_le, Classical.not_not]

theorem le_of_lt (h : a < b) : a ≤ b := by
  rcases le_total a b with hab | hba
  · exact hab
  · exact absurd hba ((lt_iff_not_le a b).mp h)

theorem lt_of_lt_of_le (hab : a < b) (hbc : b ≤ c) : a < c := by
  rw [lt_iff_not_le] at hab ⊢
  exact fun hca => hab (le_trans _ _ _ hbc hca)

theorem lt_of_le_of_lt (hab : a ≤ b) (hbc : b < c) : a < c := by
  rw [lt_iff_not_le] at hbc ⊢
  exact fun hca => hbc (le_trans _ _ _ hca hab)

theorem lt_trans (hab : a < b) (hbc : b < c) : a < c := lt_of_lt_of_le hab (le_of_lt hbc)

theorem add_le_add_left (hbc : b ≤ c) (a : α) : a + b ≤ a + c := add_le_add _ _ _ _ (le_refl a) hbc

theorem le_max (a b : α) : b ≤ Scalar.max a b := by
  unfold Scalar.max
  split
  next => exact le_refl b
  next h =>
    rw [Bool.or_eq_true, not_or, decide_eq_true_eq] at h
    exact not_lt.mp h.2

section Clamp

variable {ε : Type} {v low high r : α}

theorem low_le_of_clamp (h : clamp (ε := ε) v low high = .ok r) : low ≤ r := by
  unfold clamp at h
  split at h
  next hbounds =>
    cases h
    split
    next => exact le_refl low
    next hlow =>
      split
      next => exact hbounds
      next => exact not_lt.mp hlow
  next => cases h

theorem le_high_of_clamp (h : clamp (ε := ε) v low high = .ok r) : r ≤ high := by
  unfold clamp at h
  split at h
  next hbounds =>
    cases h
    split
    next => exact hbounds
    next =>
      split
      next => exact le_refl high
      next hhigh => exact not_lt.mp hhigh
  next => cases h

theorem le_of_clamp (h : clamp (ε := ε) v low high = .ok r) : r ≤ low ∨ r ≤ v := by
  unfold clamp at h
  split at h
  next =>
    cases h
    split
    next => exact .inl (le_refl low)
    next =>
      split
      next hhigh => exact .inr (le_of_lt hhigh)
      next => exact .inr (le_refl v)
  next => cases h

end Clamp

end Rounded

end Scalar

end Trajectory
