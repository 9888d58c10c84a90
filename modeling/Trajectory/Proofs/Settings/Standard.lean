import Trajectory.Number.Binary64
import Trajectory.Proofs.Expr.Alphabet
import Trajectory.Proofs.Number.Exact
import Trajectory.Proofs.Settings.Checks

namespace Trajectory

open Scalar (zero one)

variable {α : Type} [Scalar α]

namespace Range

/-- The range is what is made of its own values. -/
def Valid (r : Range α) : Prop := make r.arg r.start r.finish r.firstStep = .ok r

theorem trimmed_of_isIdentifier {s : String} (h : Text.isIdentifier s.toList = true) :
    Text.trimmed s = s :=
  Text.trimmed_of_not_blank fun c hc =>
    Text.isBlank_of_isWordChar (Text.isWordChar_of_isIdentifier h c hc)

theorem eq_of_make {arg : String} {start finish firstStep : α} {r : Range α}
    (h : make arg start finish firstStep = .ok r) :
    r = ⟨Text.trimmed arg, start, finish, firstStep⟩ ∧ Text.trimmed r.arg = r.arg := by
  simp only [make] at h
  split at h
  next => cases h
  next hname =>
    have hidentifier : Text.isIdentifier (Text.trimmed arg).toList = true := by simpa using hname
    repeat' split at h
    all_goals cases h
    exact ⟨rfl, trimmed_of_isIdentifier hidentifier⟩

theorem valid_of_make {arg : String} {start finish firstStep : α} {r : Range α}
    (h : make arg start finish firstStep = .ok r) : r.Valid := by
  obtain ⟨rfl, htrimmed⟩ := eq_of_make h
  have hsame : make (Text.trimmed arg) start finish firstStep = make arg start finish firstStep := by
    simp only [make, htrimmed]
  exact hsame.trans h

end Range

namespace Tolerance

theorem validate_of_positive {t : Tolerance α} {absolute relative : α} (h : t.validate = .ok ())
    (habsolute : checkPositive "atol" absolute = .ok ())
    (hrelative : checkPositive "rtol" relative = .ok ()) :
    validate { t with absolute, relative } = .ok () := by
  have hpassed := passed_of_validate h
  exact Passed.validate { hpassed with absolute := habsolute, relative := hrelative }

end Tolerance

namespace Scalar

/-- Arithmetic in which the standard settings pass their checks. -/
class Usual (α : Type) [Scalar α] : Prop where
  range : (Range.standard : Range α).Valid
  tolerance : (Tolerance.standard : Tolerance α).validate = .ok ()

instance : Usual Float where
  range := by
    have hmade : (Range.make "x" (zero : Float) one (ofDecimal 1 (-1))).isOk = true := by
      decide +kernel
    cases h : Range.make "x" (zero : Float) one (ofDecimal 1 (-1)) with
    | error f =>
      rw [h] at hmade
      cases hmade
    | ok r =>
      obtain ⟨hr, _⟩ := Range.eq_of_make h
      have hx : Text.trimmed "x" = "x" := by decide +kernel
      rw [hx] at hr
      rw [hr] at h
      exact h
  tolerance := eq_ok_of_isOk (by decide +kernel)

section Exact

variable [Exact α]

theorem checkPositive_of_pos {setting : String} {a : α} (h : zero < a) :
    Tolerance.checkPositive setting a = .ok () := by
  unfold Tolerance.checkPositive
  rw [if_pos (by simp [h, Exact.isFinite_eq])]

instance : Usual α where
  range := by
    have horder : ¬ (one : α) ≤ zero := by
      rw [Exact.not_le_iff, Exact.value_zero, Exact.value_one]
      norm_num
    have hstep : ¬ (ofDecimal 1 (-1) : α) ≤ zero := by
      rw [Exact.not_le_iff, ← Exact.lt_iff]
      exact Exact.ofDecimal_pos Nat.one_pos _
    have hx : Text.trimmed "x" = "x" := by decide +kernel
    have hname : Text.isIdentifier ['x'] = true := by decide +kernel
    simp [Range.Valid, Range.standard, Range.make, hx, hname, Exact.isFinite_eq, horder, hstep]
  tolerance := by
    have hfactors : ¬ (Tolerance.standard : Tolerance α).maxFactor < Tolerance.standard.minFactor := by
      show ¬ (ofDecimal 5 0 : α) < ofDecimal 2 (-1)
      rw [Exact.lt_iff, Exact.value_ofDecimal, Exact.value_ofDecimal]
      norm_num
    have hpositive (setting : String) (m : Nat) (e : Int) (hm : 0 < m) :
        Tolerance.checkPositive setting (ofDecimal m e : α) = .ok () :=
      checkPositive_of_pos (Exact.ofDecimal_pos hm e)
    refine bind_eq_ok.mpr ⟨(), hpositive _ 1 _ Nat.one_pos, ?_⟩
    refine bind_eq_ok.mpr ⟨(), hpositive _ 1 _ Nat.one_pos, ?_⟩
    refine bind_eq_ok.mpr ⟨(), hpositive _ 9 _ (by decide), ?_⟩
    refine bind_eq_ok.mpr ⟨(), hpositive _ 2 _ (by decide), ?_⟩
    refine bind_eq_ok.mpr ⟨(), hpositive _ 5 _ (by decide), ?_⟩
    dsimp only
    rw [if_neg hfactors]
    rfl

end Exact

end Scalar

end Trajectory
