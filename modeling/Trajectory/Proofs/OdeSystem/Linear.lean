import Mathlib.Algebra.BigOperators.Fin
import Mathlib.Data.Matrix.Mul
import Trajectory.Proofs.OdeSystem.Step

namespace Trajectory

open Fraction (slots)
open Matrix

namespace Expr

/-- The sum of expressions, grouped as a text without parentheses is. -/
def sum {α : Type} [Scalar α] : List (Expr α) → Expr α
  | [] => const Scalar.zero
  | e :: es => es.foldl (binary .add) e

theorem value_foldl_add (env : String → Fraction) (es : List (Expr Fraction)) (e : Expr Fraction) :
    ((es.foldl (binary .add) e).value env).value =
      (e.value env).value + (es.map fun e => (e.value env).value).sum := by
  induction es generalizing e with
  | nil => rw [List.foldl_nil, List.map_nil, List.sum_nil, add_zero]
  | cons next es ih =>
    rw [List.foldl_cons, ih, List.map_cons, List.sum_cons, ← add_assoc]
    rfl

theorem value_sum (env : String → Fraction) (es : List (Expr Fraction)) :
    ((sum es).value env).value = (es.map fun e => (e.value env).value).sum := by
  cases es with
  | nil => exact congrArg Fraction.value (Fraction.ofNat_eq 0)
  | cons e es => rw [sum, value_foldl_add, List.map_cons, List.sum_cons]

theorem occurrences_sum {α : Type} [Scalar α] (es : List (Expr α)) :
    (sum es).occurrences = es.flatMap occurrences := by
  cases es with
  | nil => rfl
  | cons e es =>
    rw [sum, List.flatMap_cons]
    induction es generalizing e with
    | nil => rw [List.foldl_nil, List.flatMap_nil, List.append_nil]
    | cons next es ih => rw [List.foldl_cons, ih, occurrences, List.flatMap_cons, List.append_assoc]

variable {n : ℕ}

def weighted (weights : Fin n → ℚ) (letters : Fin n → Char) : Expr Fraction :=
  sum (List.ofFn fun j => binary .mul (const ⟨weights j⟩) (var (letters j).toString))

theorem value_weighted {weights v : Fin n → ℚ} {letters : Fin n → Char} {env : String → Fraction}
    (henv : ∀ j, env (letters j).toString = ⟨v j⟩) :
    (weighted weights letters).value env = ⟨weights ⬝ᵥ v⟩ := by
  suffices hvalue : ((weighted weights letters).value env).value = weights ⬝ᵥ v from
    congrArg Fraction.mk hvalue
  rw [weighted, value_sum, List.map_ofFn, List.sum_ofFn]
  refine Finset.sum_congr rfl fun j _ => ?_
  show weights j * (env (letters j).toString).value = weights j * v j
  rw [henv]

theorem mem_occurrences_weighted {weights : Fin n → ℚ} {letters : Fin n → Char} {name : String}
    (h : name ∈ (weighted weights letters).occurrences) : ∃ j, name = (letters j).toString := by
  rw [weighted, occurrences_sum, List.mem_flatMap] at h
  obtain ⟨term, hterm, hname⟩ := h
  obtain ⟨j, rfl⟩ := List.mem_ofFn.mp hterm
  exact ⟨j, List.mem_singleton.mp hname⟩

end Expr

namespace OdeSystem

variable {n : ℕ} {letters : Fin n → Char} {texts : Fin n → String} {M : Matrix (Fin n) (Fin n) ℚ}

/-- The system in which each letter's derivative is a row of a matrix times the letters. -/
def linear (letters : Fin n → Char) (texts : Fin n → String) (M : Matrix (Fin n) (Fin n) ℚ) :
    OdeSystem Fraction where
  equations := List.ofFn fun i => ⟨letters i, 1, Expr.weighted (M i) letters, texts i⟩

theorem flatMap_linear {β : Type} {f : Equation Fraction → List β} {g : Fin n → β}
    (hf : ∀ i, f ⟨letters i, 1, Expr.weighted (M i) letters, texts i⟩ = [g i]) :
    (linear letters texts M).equations.flatMap f = List.ofFn g := by
  have hlists : List.map f (linear letters texts M).equations = (List.ofFn g).map fun b => [b] := by
    rw [linear, List.map_ofFn, List.map_ofFn]
    exact congrArg List.ofFn (funext hf)
  rw [List.flatMap_def, hlists, ← List.flatMap_def, List.flatMap_singleton']

theorem vars_linear : (linear letters texts M).vars = List.ofFn fun i => ⟨letters i, 0⟩ :=
  flatMap_linear fun _ => rfl

theorem derivatives_linear : (linear letters texts M).derivatives =
    List.ofFn fun i => Expr.weighted (M i) letters :=
  flatMap_linear fun _ => rfl

theorem mem_names_linear (j : Fin n) : (letters j).toString ∈ (linear letters texts M).names := by
  rw [names, vars_linear, List.map_ofFn]
  exact List.mem_ofFn.mpr ⟨j, rfl⟩

theorem foreign?_linear (arg : String) : (linear letters texts M).foreign? arg = none := by
  rw [foreign?_eq_none_iff]
  rintro ⟨e, he, name, hname, _, hout⟩
  obtain ⟨i, rfl⟩ := List.mem_ofFn.mp he
  obtain ⟨j, rfl⟩ := Expr.mem_occurrences_weighted hname
  exact hout (mem_names_linear j)

/-- The derivatives are the product of the matrix and the state. -/
theorem evaluate_linear (hletters : Function.Injective letters) {arg : String}
    (harg : arg ∉ (linear letters texts M).names) (x : Fraction) (v : Fin n → ℚ) :
    (linear letters texts M).evaluate arg x (slots v) = .ok (slots (M *ᵥ v)) := by
  have hdistinct : (linear letters texts M).Distinct := by
    rw [Distinct, linear, List.map_ofFn]
    exact List.nodup_ofFn.mpr hletters
  have hsize : (slots v).length = (linear letters texts M).size := by
    rw [size, vars_linear, slots, List.length_ofFn, List.length_ofFn]
  obtain ⟨env, henv⟩ := exists_assigns (x := x) hdistinct harg hsize
  have hbound (j : Fin n) : env (letters j).toString = ⟨v j⟩ := by
    have hvar : (linear letters texts M).vars[j.val]? = some ⟨letters j, 0⟩ := by
      simp [vars_linear]
    have hslot := henv.bound _ (List.mem_of_getElem? hvar)
    rw [slot, idxOf_eq (vars_nodup hdistinct) hvar] at hslot
    have hentry : (slots v)[j.val]? = some ⟨v j⟩ := by simp [slots]
    exact Option.some.inj (hslot.symm.trans hentry)
  rw [evaluate_eq hsize (extends_of_assigns hdistinct harg hsize henv), foreign?_linear,
    derivatives_linear, List.map_ofFn]
  refine congrArg (fun l => Except.ok (List.ofFn l)) (funext fun i => ?_)
  exact Expr.value_weighted hbound

end OdeSystem

end Trajectory
