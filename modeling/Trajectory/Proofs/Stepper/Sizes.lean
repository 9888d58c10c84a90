import Trajectory.Proofs.Stepper.Course
import Trajectory.Proofs.Stepper.Tries

namespace Trajectory.Controller

open Scalar (zero one)
open Scalar.Exact (value)

variable {α : Type} [Scalar α] {c d : Controller α} {s : OdeSystem α} {range : Range α}
  {t : Tolerance α} {y : List α} {adaptive : Bool} {tries : Nat}

/-- The stored size is between the least and the largest step. -/
structure Within (c : Controller α) : Prop where
  low : c.minStep ≤ c.h
  high : c.h ≤ c.maxStep

section Reached

theorem Reached.kept (h : Reached s range t y adaptive c) :
    c.tolerance = t ∧ c.minStep = t.minStep ∧ c.maxStep = t.maxStep range ∧
      c.adaptive = adaptive := by
  induction h with
  | @start c h =>
    rw [(started_of_start h).fields]
    exact ⟨rfl, rfl, rfl, rfl⟩
  | @attempt c _ ih =>
    rw [c.moves_attempt]
    exact ih

theorem Reached.validated (h : Reached s range t y adaptive c) : t.validate = .ok () := by
  induction h with
  | start h => exact (started_of_start h).validated
  | attempt _ ih => exact ih

theorem Reached.of_mem_triers (h : Reached s range t y adaptive c) (hd : d ∈ c.triers tries) :
    Reached s range t y adaptive d := by
  induction tries generalizing c with
  | zero => cases hd
  | succ tries ih =>
    rw [triers, List.mem_cons] at hd
    rcases hd with rfl | hd
    · exact h
    · have hafter := h.attempt
      cases hattempt : c.attempt with
      | accepted => simp [hattempt] at hd
      | failed => simp [hattempt] at hd
      | rejected after r =>
        rw [hattempt] at hafter hd
        exact ih hafter hd

end Reached

section Exact

variable [Scalar.Exact α]

/-- A step that is tried again shrinks to a size in the bounds, from wherever the end has put it. -/
theorem retry_within {size factor next : α} (hmin : zero < c.minStep)
    (hfactor : c.tolerance.minFactor < one) (hleast : ¬ size ≤ c.minStep)
    (h : c.retrySize size factor = .ok next) : c.minStep ≤ next ∧ next ≤ c.maxStep := by
  refine ⟨minStep_le_of_retrySize h, ?_⟩
  obtain ⟨clamped, hclamp, h⟩ := bind_eq_ok.mp h
  have hlow := Scalar.Rounded.low_le_of_clamp hclamp
  have hhigh := Scalar.Rounded.le_high_of_clamp hclamp
  split at h
  next hlarge =>
    cases h
    have hsize : c.minStep < size := Scalar.Rounded.not_le.mp hleast
    have hpos : zero < size := Scalar.Rounded.lt_trans hmin hsize
    have hshrunk : size * c.tolerance.minFactor ≤ size := by
      rw [Scalar.Exact.lt_iff, Scalar.Exact.value_zero] at hpos
      rw [Scalar.Exact.lt_iff, Scalar.Exact.value_one] at hfactor
      rw [Scalar.Exact.le_iff, Scalar.Exact.value_mul]
      exact (mul_lt_of_lt_one_right hpos hfactor).le
    have hmax : size ≤ c.maxStep := Scalar.Rounded.le_trans _ _ _ hlarge hhigh
    unfold Scalar.max
    split
    · exact Scalar.Rounded.le_trans _ _ _ hlow hhigh
    · exact Scalar.Rounded.le_trans _ _ _ hshrunk hmax
  next =>
    cases h
    exact hhigh

theorem Within.attempt (h : Within c) (hmode : c.adaptive = true) (hmin : zero < c.minStep)
    (hfactor : c.tolerance.minFactor < one) : Within c.attempt.controller := by
  have htried := c.tried
  generalize c.attempt = a at htried
  cases htried with
  | stopped => exact h
  | fixed _ hfixed => cases hmode.symm.trans hfixed
  | adapted _ _ _ _ hnext =>
    exact ⟨Scalar.Rounded.low_le_of_clamp hnext, Scalar.Rounded.le_high_of_clamp hnext⟩
  | rejected _ _ _ _ hleast hnext =>
    obtain ⟨hlow, hhigh⟩ := retry_within hmin hfactor hleast hnext
    exact ⟨hlow, hhigh⟩
  | least => exact ⟨h.low, h.high⟩
  | breach hafter =>
    rw [hafter]
    exact ⟨h.low, h.high⟩

theorem Reached.within (hfactor : t.minFactor < one) (h : Reached s range t y true c) : Within c := by
  induction h with
  | @start c h =>
    have hstarted := started_of_start h
    have hclamp := hstarted.clamped rfl
    rw [hstarted.fields]
    exact ⟨Scalar.Rounded.low_le_of_clamp hclamp, Scalar.Rounded.le_high_of_clamp hclamp⟩
  | @attempt c h ih =>
    obtain ⟨htolerance, hminStep, _, hmode⟩ := h.kept
    refine ih.attempt hmode ?_ (by rwa [htolerance])
    rw [hminStep]
    exact (Tolerance.proper_of_validate h.validated).minStep_pos

theorem Within.rest (h : Within c) (hlast : c.nextSize.2 = true) (hgo : c.finished = false) :
    zero < c.nextSize.1 ∧ c.nextSize.1 ≤ c.maxStep * stretch := by
  obtain ⟨hsize, hreach⟩ := nextSize_of_last hlast
  have hplace := lt_of_not_finished hgo
  have hhigh := h.high
  have hstretch : (0 : ℝ) < value (stretch : α) := value_stretch_pos
  rw [Scalar.Exact.le_iff] at hhigh hreach
  rw [Scalar.Exact.lt_iff] at hplace
  rw [Scalar.Exact.value_add, Scalar.Exact.value_mul] at hreach
  rw [hsize, Scalar.Exact.lt_iff, Scalar.Exact.le_iff, Scalar.Exact.value_zero,
    Scalar.Exact.value_sub, Scalar.Exact.value_mul]
  have hproduct := mul_le_mul_of_nonneg_right hhigh hstretch.le
  constructor <;> linarith

/-- However many tries were made, accepted, rejected or failed, the sizes keep to their bounds. -/
theorem sizes_bounded (hfactor : t.minFactor < one) (h : Reached s range t y true c) (tries : Nat) :
    (t.minStep ≤ (c.advance tries).controller.h ∧
      (c.advance tries).controller.h ≤ t.maxStep range) ∧
    ∀ d ∈ c.triers tries,
      (d.nextSize.2 = false → t.minStep ≤ d.nextSize.1 ∧ d.nextSize.1 ≤ t.maxStep range) ∧
      (d.nextSize.2 = true → d.finished = false →
        zero < d.nextSize.1 ∧ d.nextSize.1 ≤ t.maxStep range * stretch) := by
  have hbounds {e : Controller α} (he : Reached s range t y true e) :
      t.minStep ≤ e.h ∧ e.h ≤ t.maxStep range := by
    obtain ⟨_, hminStep, hmaxStep, _⟩ := he.kept
    have hwithin := he.within hfactor
    exact ⟨hminStep ▸ hwithin.low, hmaxStep ▸ hwithin.high⟩
  refine ⟨hbounds (h.advance tries), fun d hd => ?_⟩
  have hd := h.of_mem_triers hd
  refine ⟨fun hlast => ?_, fun hlast hgo => ?_⟩
  · rw [(nextSize_of_not_last hlast).1]
    exact hbounds hd
  · rw [← hd.kept.2.2.1]
    exact (hd.within hfactor).rest hlast hgo

/-- Two rejected tries and one that is accepted keep to the bounds. -/
theorem sizes_bounded_of_decay : ∃ s c, OdeSystem.reduce ["y' = -50*y"] = .ok s ∧
    start s Range.standard largestError [one] true = .ok c ∧ (c.triers 3).length = 3 ∧
      (c.advance 3).controller.h ≤ largestError.maxStep Range.standard ∧
        ∀ d ∈ c.triers 3, d.nextSize.2 = false →
          d.nextSize.1 ≤ largestError.maxStep Range.standard := by
  have hcomputed : (onUnit "y' = -50*y" largestError).any (fun c =>
      decide ((c.triers 3).length = 3)) = true := by decide +kernel
  obtain ⟨s, c, hsystem, hstart, hcomputed⟩ := exists_of_onUnit hcomputed
  obtain ⟨hstored, htried⟩ := sizes_bounded (t := largestError) (by decide +kernel)
    (.start hstart) 3
  exact ⟨s, c, hsystem, hstart, of_decide_eq_true hcomputed, hstored.2,
    fun d hd hlast => ((htried d hd).1 hlast).2⟩

end Exact

end Trajectory.Controller
