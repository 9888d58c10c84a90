import Mathlib.Algebra.Order.BigOperators.Group.List
import Trajectory.Proofs.Number.Rooted
import Trajectory.Proofs.Settings.Checks
import Trajectory.Stepper.ErrorEstimate

namespace Trajectory

open Scalar (zero one Exact Faithful Rooted)
open Scalar.Exact (value value_zero value_one)

variable {α : Type} [Scalar α] [Exact α]

namespace Tolerance

/-- What the error of a slot is divided by. -/
def scale (t : Tolerance α) (y fifth : ℝ) : ℝ :=
  value t.absolute + value t.relative * max |y| |fifth|

/-- Some error is tolerated, in absolute and in relative terms. -/
structure Lenient (t : Tolerance α) : Prop where
  absolute : 0 < value t.absolute
  relative : 0 < value t.relative

/-- The second tolerance lets through as much as the first, in absolute and in relative terms. -/
structure Raised (t u : Tolerance α) : Prop where
  absolute : t.absolute ≤ u.absolute
  relative : t.relative ≤ u.relative

variable {t u : Tolerance α}

theorem lenient_of_validate (h : t.validate = .ok ()) : t.Lenient := by
  have hpassed := passed_of_validate h
  have habsolute := pos_of_checkPositive hpassed.absolute
  have hrelative := pos_of_checkPositive hpassed.relative
  rw [Exact.lt_iff, value_zero] at habsolute hrelative
  exact ⟨habsolute, hrelative⟩

theorem Lenient.raised (h : t.Lenient) (hraised : t.Raised u) : u.Lenient := by
  have habsolute := (Exact.le_iff _ _).mp hraised.absolute
  have hrelative := (Exact.le_iff _ _).mp hraised.relative
  exact ⟨h.absolute.trans_le habsolute, h.relative.trans_le hrelative⟩

theorem Lenient.scale_pos (h : t.Lenient) (y fifth : ℝ) : 0 < t.scale y fifth := by
  have habsolute := h.absolute
  have hrelative := h.relative
  have hlarger : 0 ≤ max |y| |fifth| := le_max_of_le_left (abs_nonneg y)
  unfold scale
  positivity

theorem Lenient.absolute_le_scale (h : t.Lenient) (y fifth : ℝ) : value t.absolute ≤ t.scale y fifth := by
  have hlarger : 0 ≤ max |y| |fifth| := le_max_of_le_left (abs_nonneg y)
  exact le_add_of_nonneg_right (mul_nonneg h.relative.le hlarger)

theorem Raised.scale_le (h : t.Raised u) (y fifth : ℝ) : t.scale y fifth ≤ u.scale y fifth := by
  have habsolute := (Exact.le_iff _ _).mp h.absolute
  have hrelative := (Exact.le_iff _ _).mp h.relative
  have hlarger : 0 ≤ max |y| |fifth| := le_max_of_le_left (abs_nonneg y)
  unfold scale
  gcongr

end Tolerance

namespace Stepper

open Tolerance (Lenient Raised)

section Listed

variable {β : Type} [Scalar β] {t : Tolerance β} {y fifth fourth : List β}

theorem length_scaledErrors (hfifth : fifth.length = y.length) (hfourth : fourth.length = y.length)
    (t : Tolerance β) : (scaledErrors t y fifth fourth).length = y.length := by
  simp [scaledErrors, hfifth, hfourth]

theorem exists_pair {e : β} (he : e ∈ scaledErrors t y fifth fourth) :
    ∃ p ∈ y.zip (fifth.zip fourth), e = scaledError t p.1 p.2.1 p.2.2 := by
  obtain ⟨p, hp, rfl⟩ := List.mem_map.mp he
  exact ⟨p, hp, rfl⟩

/-- The norms that both policies give to the error of one step. -/
structure Norms (t : Tolerance β) (y fifth fourth : List β) (rms max : β) : Prop where
  rms : errorNorm (ε := SolverError β) { t with norm := .rms } y fifth fourth = .ok rms
  max : errorNorm (ε := SolverError β) { t with norm := .max } y fifth fourth = .ok max

theorem errorNorm_eq {ε : Type} (hy : y ≠ []) (hfifth : fifth.length = y.length)
    (hfourth : fourth.length = y.length) (t : Tolerance β) :
    errorNorm (ε := ε) t y fifth fourth = .ok (combined t.norm (scaledErrors t y fifth fourth)) := by
  have hfirst : Checked.atLeast (ε := ε) y.length fifth.length = .ok () := if_pos hfifth.ge
  have hsecond : Checked.atLeast (ε := ε) y.length fourth.length = .ok () := if_pos hfourth.ge
  have hsome : ¬ y.isEmpty = true := by simpa using hy
  exact bind_eq_ok.mpr ⟨(), hfirst, bind_eq_ok.mpr ⟨(), hsecond, if_neg hsome⟩⟩

theorem norms_eq (hy : y ≠ []) (hfifth : fifth.length = y.length) (hfourth : fourth.length = y.length)
    (t : Tolerance β) : Norms t y fifth fourth (combined .rms (scaledErrors t y fifth fourth))
      (combined .max (scaledErrors t y fifth fourth)) :=
  ⟨errorNorm_eq hy hfifth hfourth { t with norm := .rms },
    errorNorm_eq hy hfifth hfourth { t with norm := .max }⟩

end Listed

variable {errors : List α}

/-- The sum of the squares of errors. -/
def squares (errors : List α) : ℝ := (errors.map fun e => value e * value e).sum

theorem squares_nonneg (errors : List α) : 0 ≤ squares errors := by
  refine List.sum_nonneg fun v hv => ?_
  obtain ⟨e, _, rfl⟩ := List.mem_map.mp hv
  exact mul_self_nonneg _

theorem square_le_squares {e : α} (he : e ∈ errors) : value e * value e ≤ squares errors := by
  refine List.single_le_sum (fun v hv => ?_) _ (List.mem_map_of_mem he)
  obtain ⟨d, _, rfl⟩ := List.mem_map.mp hv
  exact mul_self_nonneg _

theorem squares_eq_zero_iff : squares errors = 0 ↔ ∀ e ∈ errors, value e = 0 := by
  constructor
  · intro hsum e he
    have hsquare := (square_le_squares he).trans_eq hsum
    exact mul_self_eq_zero.mp (le_antisymm hsquare (mul_self_nonneg _))
  · intro h
    refine List.sum_eq_zero fun v hv => ?_
    obtain ⟨e, he, rfl⟩ := List.mem_map.mp hv
    rw [h e he, mul_zero]

theorem value_foldl_add (errors : List α) (a : α) :
    value (errors.foldl (fun a e => a + e) a) = value a + (errors.map value).sum := by
  induction errors generalizing a with
  | nil => simp
  | cons e errors ih => rw [List.foldl_cons, ih, Exact.value_add, List.map_cons, List.sum_cons, add_assoc]

section Largest

variable [Faithful α]

theorem largest_cases (a e : α) : (largest a e = e ∧ value a < value e) ∨
    (largest a e = a ∧ value e ≤ value a) := by
  have hnumber : Scalar.isNaN e = false := Faithful.isNaN_eq e
  unfold largest
  rw [hnumber, Bool.false_or]
  by_cases h : a < e
  · exact .inl ⟨if_pos (decide_eq_true h), (Exact.lt_iff a e).mp h⟩
  · have hvalue : ¬ value a < value e := mt (Exact.lt_iff a e).mpr h
    exact .inr ⟨if_neg (by simpa using h), not_lt.mp hvalue⟩

/-- The fold ends at the start or at one of the errors, and none of them is larger. -/
theorem foldl_largest (errors : List α) (a : α) :
    errors.foldl largest a ∈ a :: errors ∧
      ∀ e ∈ a :: errors, value e ≤ value (errors.foldl largest a) := by
  induction errors generalizing a with
  | nil => simp
  | cons d errors ih =>
    obtain ⟨hmem, hle⟩ := ih (largest a d)
    have hfirst := hle _ List.mem_cons_self
    rw [List.foldl_cons]
    rcases largest_cases a d with ⟨heq, hlt⟩ | ⟨heq, hge⟩
    · rw [heq] at hmem hle hfirst ⊢
      refine ⟨List.mem_cons_of_mem _ hmem, fun e he => ?_⟩
      rcases List.mem_cons.mp he with rfl | he
      · exact hlt.le.trans hfirst
      · exact hle e he
    · rw [heq] at hmem hle hfirst ⊢
      refine ⟨?_, fun e he => ?_⟩
      · rcases List.mem_cons.mp hmem with hstart | hlater
        · rw [hstart]
          exact List.mem_cons_self
        · exact List.mem_cons_of_mem _ (List.mem_cons_of_mem _ hlater)
      · rcases List.mem_cons.mp he with rfl | he
        · exact hfirst
        · rcases List.mem_cons.mp he with rfl | he
          · exact hge.trans hfirst
          · exact hle e (List.mem_cons_of_mem _ he)

theorem value_combined_max_nonneg (errors : List α) : 0 ≤ value (combined .max errors) := by
  have hzero := (foldl_largest errors zero).2 zero List.mem_cons_self
  rwa [value_zero] at hzero

theorem le_combined_max {e : α} (he : e ∈ errors) : value e ≤ value (combined .max errors) :=
  (foldl_largest errors zero).2 e (List.mem_cons_of_mem _ he)

theorem combined_max_le {m : ℝ} (hm : 0 ≤ m) (h : ∀ e ∈ errors, value e ≤ m) :
    value (combined .max errors) ≤ m := by
  rcases List.mem_cons.mp (foldl_largest errors zero).1 with hzero | hmem
  · rw [combined, hzero, value_zero]
    exact hm
  · exact h _ hmem

theorem squares_le (h : ∀ e ∈ errors, 0 ≤ value e) : squares errors ≤
    errors.length * (value (combined .max errors) * value (combined .max errors)) := by
  have hbound : ∀ v ∈ errors.map fun e => value e * value e,
      v ≤ value (combined .max errors) * value (combined .max errors) := by
    intro v hv
    obtain ⟨e, he, rfl⟩ := List.mem_map.mp hv
    exact mul_self_le_mul_self (h e he) (le_combined_max he)
  have hsum := List.sum_le_card_nsmul _ _ hbound
  rwa [List.length_map, nsmul_eq_mul] at hsum

theorem combined_max_square_le (errors : List α) :
    value (combined .max errors) * value (combined .max errors) ≤ squares errors := by
  rcases List.mem_cons.mp (foldl_largest errors zero).1 with hzero | hmem
  · rw [combined, hzero, value_zero, mul_zero]
    exact squares_nonneg errors
  · exact square_le_squares hmem

end Largest

/-- How the two norms of one step are ordered, where they vanish and how they change with the tolerance. -/
structure Compared (t : Tolerance α) (y fifth fourth : List α) (rms max : α) : Prop where
  nonneg : zero ≤ rms ∧ zero ≤ max
  below : rms * rms ≤ max * max
  above : max * max ≤ Scalar.ofNat y.length * (rms * rms)
  rms_vanishes : rms = zero ↔ fifth = fourth
  max_vanishes : max = zero ↔ fifth = fourth
  falls : ∀ u, t.Raised u → ∃ rms' max', Norms u y fifth fourth rms' max' ∧ rms' ≤ rms ∧ max' ≤ max

theorem Compared.le {t : Tolerance α} {y fifth fourth : List α} {rms max : α}
    (h : Compared t y fifth fourth rms max) : rms ≤ max := by
  obtain ⟨hrms, hmax⟩ := h.nonneg
  have hsquares := h.below
  rw [Exact.le_iff, value_zero] at hrms hmax
  rw [Exact.le_iff, Exact.value_mul, Exact.value_mul] at hsquares
  rw [Exact.le_iff]
  exact (mul_self_le_mul_self_iff hrms hmax).mpr hsquares

variable [Rooted α]

theorem value_combined_rms (h : errors ≠ []) :
    value (combined .rms errors) = √(squares errors / errors.length) := by
  have hlength : (errors.length : ℝ) ≠ 0 := by simpa using h
  have hsum : value ((errors.map fun e => e * e).foldl (fun a e => a + e) zero) = squares errors := by
    rw [value_foldl_add, value_zero, zero_add, List.map_map]
    exact congrArg List.sum (List.map_congr_left fun e _ => Exact.value_mul e e)
  have hmean : value ((errors.map fun e => e * e).foldl (fun a e => a + e) zero /
      Scalar.ofNat errors.length) = squares errors / errors.length := by
    rw [Rooted.value_div _ _ (by rwa [Exact.value_ofNat]), hsum, Exact.value_ofNat]
  have hnonneg : 0 ≤ squares errors / errors.length :=
    div_nonneg (squares_nonneg errors) (Nat.cast_nonneg _)
  rw [← hmean] at hnonneg
  exact (Rooted.value_sqrt _ hnonneg).trans (by rw [hmean])

variable [Faithful α] {t u : Tolerance α}

section Slot

variable {y fifth fourth : α}

theorem value_scaledError (ht : t.Lenient) : value (scaledError t y fifth fourth) =
    |value fifth - value fourth| / t.scale (value y) (value fifth) := by
  have hscale : value (t.absolute + t.relative * Scalar.max (Scalar.abs y) (Scalar.abs fifth)) =
      t.scale (value y) (value fifth) := by
    rw [Exact.value_add, Exact.value_mul, Exact.value_max, Rooted.value_abs, Rooted.value_abs]
    rfl
  have hpos := ht.scale_pos (value y) (value fifth)
  unfold scaledError
  rw [Rooted.value_div _ _ (by rw [hscale]; exact hpos.ne'), hscale, Rooted.value_abs,
    Exact.value_sub]

theorem scaledError_nonneg (ht : t.Lenient) : 0 ≤ value (scaledError t y fifth fourth) := by
  have hpos := ht.scale_pos (value y) (value fifth)
  rw [value_scaledError ht]
  positivity

theorem scaledError_eq_zero_iff (ht : t.Lenient) :
    value (scaledError t y fifth fourth) = 0 ↔ fifth = fourth := by
  have hpos := ht.scale_pos (value y) (value fifth)
  rw [value_scaledError ht, div_eq_zero_iff, or_iff_left hpos.ne', abs_eq_zero, sub_eq_zero]
  exact Faithful.value_injective.eq_iff

theorem scaledError_le (ht : t.Lenient) (hraised : t.Raised u) :
    value (scaledError u y fifth fourth) ≤ value (scaledError t y fifth fourth) := by
  have hpos := ht.scale_pos (value y) (value fifth)
  have hle := hraised.scale_le (value y) (value fifth)
  rw [value_scaledError ht, value_scaledError (ht.raised hraised)]
  gcongr

end Slot

section Norms

variable {y fifth fourth : List α}

theorem scaledErrors_nonneg (ht : t.Lenient) : ∀ e ∈ scaledErrors t y fifth fourth, 0 ≤ value e := by
  intro e he
  obtain ⟨p, _, rfl⟩ := exists_pair he
  exact scaledError_nonneg ht

theorem scaledErrors_eq_zero_iff (ht : t.Lenient) (hfifth : fifth.length = y.length)
    (hfourth : fourth.length = y.length) :
    (∀ e ∈ scaledErrors t y fifth fourth, value e = 0) ↔ fifth = fourth := by
  constructor
  · intro hzero
    refine List.ext_getElem (hfifth.trans hfourth.symm) fun i hi hi' => ?_
    have hslot : i < y.length := hfifth ▸ hi
    have hpair : (y[i], fifth[i], fourth[i]) ∈ y.zip (fifth.zip fourth) := by
      rw [List.mem_iff_getElem]
      exact ⟨i, by simp only [List.length_zip]; omega, by simp only [List.getElem_zip]⟩
    exact (scaledError_eq_zero_iff ht).mp (hzero _ (List.mem_map_of_mem hpair))
  · rintro rfl e he
    obtain ⟨⟨v, a, b⟩, hp, rfl⟩ := exists_pair he
    have hsame : a = b := by
      obtain ⟨i, hi, hget⟩ := List.mem_iff_getElem.mp (List.of_mem_zip hp).2
      rw [List.getElem_zip] at hget
      obtain ⟨ha, hb⟩ := Prod.mk.inj hget
      exact ha.symm.trans hb
    exact (scaledError_eq_zero_iff ht).mpr hsame

theorem squares_scaledErrors_le (ht : t.Lenient) (hraised : t.Raised u) :
    squares (scaledErrors u y fifth fourth) ≤ squares (scaledErrors t y fifth fourth) := by
  unfold squares scaledErrors
  rw [List.map_map, List.map_map]
  refine List.sum_le_sum fun p _ => ?_
  exact mul_self_le_mul_self (scaledError_nonneg (ht.raised hraised)) (scaledError_le ht hraised)

theorem combined_max_scaledErrors_le (ht : t.Lenient) (hraised : t.Raised u) :
    value (combined .max (scaledErrors u y fifth fourth)) ≤
      value (combined .max (scaledErrors t y fifth fourth)) := by
  refine combined_max_le (value_combined_max_nonneg _) fun e he => ?_
  obtain ⟨p, hp, rfl⟩ := exists_pair he
  have hsame := le_combined_max (List.mem_map_of_mem (f := fun p => scaledError t p.1 p.2.1 p.2.2) hp)
  exact (scaledError_le ht hraised).trans hsame

section Step

variable (hy : y ≠ []) (hfifth : fifth.length = y.length) (hfourth : fourth.length = y.length)

include hy hfifth hfourth

omit [Faithful α] in
theorem value_rms (t : Tolerance α) : value (combined .rms (scaledErrors t y fifth fourth)) =
    √(squares (scaledErrors t y fifth fourth) / y.length) := by
  have hlength := length_scaledErrors hfifth hfourth t
  have hsome : scaledErrors t y fifth fourth ≠ [] := by
    rw [← List.length_pos_iff, hlength]
    exact List.length_pos_iff.mpr hy
  rw [value_combined_rms hsome, hlength]

omit [Faithful α] in
theorem rms_mul_self (t : Tolerance α) : value (combined .rms (scaledErrors t y fifth fourth)) *
    value (combined .rms (scaledErrors t y fifth fourth)) =
      squares (scaledErrors t y fifth fourth) / y.length := by
  have hsum := squares_nonneg (scaledErrors t y fifth fourth)
  rw [value_rms hy hfifth hfourth]
  exact Real.mul_self_sqrt (by positivity)

theorem rms_square_le (ht : t.Lenient) :
    combined .rms (scaledErrors t y fifth fourth) * combined .rms (scaledErrors t y fifth fourth) ≤
      combined .max (scaledErrors t y fifth fourth) * combined .max (scaledErrors t y fifth fourth) := by
  have hcount : (0 : ℝ) < y.length := by exact_mod_cast List.length_pos_iff.mpr hy
  have hnonneg : ∀ e ∈ scaledErrors t y fifth fourth, 0 ≤ value e := scaledErrors_nonneg ht
  have hsum := squares_le hnonneg
  rw [length_scaledErrors hfifth hfourth] at hsum
  rw [Exact.le_iff, Exact.value_mul, Exact.value_mul, rms_mul_self hy hfifth hfourth,
    div_le_iff₀' hcount]
  exact hsum

theorem max_square_le (t : Tolerance α) :
    combined .max (scaledErrors t y fifth fourth) * combined .max (scaledErrors t y fifth fourth) ≤
      Scalar.ofNat y.length * (combined .rms (scaledErrors t y fifth fourth) *
        combined .rms (scaledErrors t y fifth fourth)) := by
  have hcount : (0 : ℝ) < y.length := by exact_mod_cast List.length_pos_iff.mpr hy
  rw [Exact.le_iff, Exact.value_mul, Exact.value_mul, Exact.value_mul,
    rms_mul_self hy hfifth hfourth, Exact.value_ofNat, mul_div_cancel₀ _ hcount.ne']
  exact combined_max_square_le _

theorem rms_eq_zero_iff (ht : t.Lenient) :
    combined .rms (scaledErrors t y fifth fourth) = zero ↔ fifth = fourth := by
  have hcount : (0 : ℝ) < y.length := by exact_mod_cast List.length_pos_iff.mpr hy
  have hsum := squares_nonneg (scaledErrors t y fifth fourth)
  rw [Exact.eq_zero_iff, value_rms hy hfifth hfourth, Real.sqrt_eq_zero (by positivity), div_eq_zero_iff,
    or_iff_left hcount.ne', squares_eq_zero_iff, scaledErrors_eq_zero_iff ht hfifth hfourth]

theorem rms_le_of_raised (ht : t.Lenient) (hraised : t.Raised u) :
    combined .rms (scaledErrors u y fifth fourth) ≤ combined .rms (scaledErrors t y fifth fourth) := by
  have hsum : squares (scaledErrors u y fifth fourth) ≤ squares (scaledErrors t y fifth fourth) :=
    squares_scaledErrors_le ht hraised
  rw [Exact.le_iff, value_rms hy hfifth hfourth, value_rms hy hfifth hfourth]
  exact Real.sqrt_le_sqrt (div_le_div_of_nonneg_right hsum (Nat.cast_nonneg _))

omit hy in
theorem max_eq_zero_iff (ht : t.Lenient) :
    combined .max (scaledErrors t y fifth fourth) = zero ↔ fifth = fourth := by
  rw [Exact.eq_zero_iff, ← scaledErrors_eq_zero_iff ht hfifth hfourth]
  constructor
  · intro hzero e he
    exact le_antisymm ((le_combined_max he).trans_eq hzero) (scaledErrors_nonneg ht e he)
  · intro hzero
    exact le_antisymm (combined_max_le le_rfl fun e he => (hzero e he).le) (value_combined_max_nonneg _)

theorem compared_of_lenient (ht : t.Lenient) :
    Compared t y fifth fourth (combined .rms (scaledErrors t y fifth fourth))
      (combined .max (scaledErrors t y fifth fourth)) where
  nonneg := by
    rw [Exact.le_iff, Exact.le_iff, value_zero, value_rms hy hfifth hfourth]
    exact ⟨Real.sqrt_nonneg _, value_combined_max_nonneg _⟩
  below := rms_square_le hy hfifth hfourth ht
  above := max_square_le hy hfifth hfourth t
  rms_vanishes := rms_eq_zero_iff hy hfifth hfourth ht
  max_vanishes := max_eq_zero_iff hfifth hfourth ht
  falls u hraised := ⟨_, _, norms_eq hy hfifth hfourth u, rms_le_of_raised hy hfifth hfourth ht hraised,
    (Exact.le_iff _ _).mpr (combined_max_scaledErrors_le ht hraised)⟩

end Step

end Norms

end Stepper

end Trajectory
