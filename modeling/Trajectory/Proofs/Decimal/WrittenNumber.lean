import Trajectory.Decimal.Binary64
import Trajectory.Proofs.Decimal.NumberText
import Trajectory.Proofs.Number.Sign

namespace Trajectory

namespace Decimal

theorem digits_digits (n : Nat) : Digits (digits n) :=
  ⟨Nat.toDigits_ne_nil, fun _ hc => Nat.isDigit_of_mem_toDigits (by decide) (by decide) hc⟩

theorem Digits.append {s t : List Char} (hs : Digits s) (ht : ∀ c ∈ t, Text.isDigit c = true) :
    Digits (s ++ t) := by
  refine ⟨by simp [hs.1], fun c hc => ?_⟩
  rcases List.mem_append.mp hc with hc | hc
  · exact hs.2 c hc
  · exact ht c hc

theorem isDigit_of_mem_zeros {n : Nat} {c : Char} (h : c ∈ zeros n) : Text.isDigit c = true := by
  rw [(List.mem_replicate.mp h).2]
  rfl

theorem numberText_of_digits {s : List Char} (h : Digits s) : NumberText s := by
  simpa using NumberText.whole h .nil

theorem numberText_pointed {s : List Char} (h : Digits s) (places : Nat) :
    NumberText (pointed s places) := by
  unfold pointed
  split
  next => exact numberText_of_digits h
  next =>
    -- The point falls between two parts of the padded digits.
    have hpadded : Digits (zeros (places + 1 - s.length) ++ s) := by
      refine ⟨by simp [h.1], fun c hc => ?_⟩
      rcases List.mem_append.mp hc with hc | hc
      · exact isDigit_of_mem_zeros hc
      · exact h.2 c hc
    generalize zeros (places + 1 - s.length) ++ s = padded at hpadded
    rw [← List.take_append_drop (padded.length - places) padded] at hpadded
    simpa using NumberText.pointed hpadded .nil

theorem numberText_positional (d : Decimal) : NumberText d.positional := by
  unfold positional
  split
  · exact numberText_of_digits ((digits_digits _).append fun _ => isDigit_of_mem_zeros)
  · exact numberText_pointed (digits_digits _) _

end Decimal

namespace Binary64

theorem numberText_shortestForm (m : Nat) (e : Int) : Decimal.NumberText (shortestForm m e) := by
  unfold shortestForm
  split
  · exact Decimal.numberText_of_digits ⟨by simp, by simp [Text.isDigit]⟩
  · exact Decimal.numberText_positional _

variable {x : Float}

/-- The digits of a finite double and of its negation, and where the minus stands. -/
theorem exists_digits (hx : x.isFinite = true) : ∃ digits, Decimal.NumberText digits ∧
    (text x).toList = (if signBit x then '-' :: digits else digits) ∧
      (text (-x)).toList = if signBit x then digits else '-' :: digits := by
  have hneg := parts_neg hx
  change (parts x).isFinite = true at hx
  cases hparts : parts x with
  | infinity s =>
    rw [hparts] at hx
    cases hx
  | notANumber =>
    rw [hparts] at hx
    cases hx
  | zero s =>
    rw [hparts] at hneg
    refine ⟨shortestForm 0 0, numberText_shortestForm 0 0, ?_⟩
    rw [signBit_of_zero hparts]
    simp only [text, render, hparts, hneg, Float.Model.UnpackedFloat.neg]
    cases s <;> exact ⟨by simp [isNegative], by simp [isNegative]⟩
  | finite s m e hm =>
    rw [hparts] at hneg
    refine ⟨shortestForm m e, numberText_shortestForm m e, ?_⟩
    rw [signBit_of_finite hparts]
    simp only [text, render, hparts, hneg, Float.Model.UnpackedFloat.neg]
    cases s <;> exact ⟨by simp [isNegative], by simp [isNegative]⟩

end Binary64

end Trajectory
