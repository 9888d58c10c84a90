import Mathlib.Data.List.Induction
import Trajectory.Expr.Parser
import Trajectory.Proofs.Expr.Evaluation
import Trajectory.Proofs.Number.Fraction

namespace Trajectory

section Appearances

variable {β : Type} [DecidableEq β] {l first : List β}

/-- The entries of a list, each once, in the order of their first appearance. -/
structure Appearances (l first : List β) : Prop where
  nodup : first.Nodup
  mem : ∀ b, b ∈ first ↔ b ∈ l
  ordered : first.Pairwise fun a b => l.idxOf a < l.idxOf b

theorem eraseDups_concat (l : List β) (a : β) :
    (l ++ [a]).eraseDups = if a ∈ l then l.eraseDups else l.eraseDups ++ [a] := by
  rw [List.eraseDups_append]
  split
  next h => simp [List.removeAll, h]
  next h => simp [List.removeAll, h, List.eraseDups_cons]

theorem find?_eraseDups (p : β → Bool) (l : List β) : l.eraseDups.find? p = l.find? p := by
  induction l using List.reverseRecOn with
  | nil => rfl
  | append_singleton l a ih =>
    rw [eraseDups_concat, List.find?_append]
    split
    next hmem =>
      -- The last entry was found before, or it does not count.
      rw [ih]
      cases hfind : l.find? p with
      | some b => rfl
      | none => simp [List.find?_eq_none.mp hfind a hmem]
    next => rw [List.find?_append, ih]

theorem idxOf_lt_of_eraseDups (l : List β) :
    l.eraseDups.Pairwise fun a b => l.idxOf a < l.idxOf b := by
  induction l using List.reverseRecOn with
  | nil => exact .nil
  | append_singleton l a ih =>
    have hkept : l.eraseDups.Pairwise fun b c => (l ++ [a]).idxOf b < (l ++ [a]).idxOf c := by
      refine ih.imp_of_mem fun hb hc hlt => ?_
      rwa [List.idxOf_append_of_mem (List.mem_eraseDups.mp hb),
        List.idxOf_append_of_mem (List.mem_eraseDups.mp hc)]
    rw [eraseDups_concat]
    split
    next => exact hkept
    next hnew =>
      refine List.pairwise_append.mpr ⟨hkept, List.pairwise_singleton _ _, fun b hb c hc => ?_⟩
      have hold := List.mem_eraseDups.mp hb
      rw [List.mem_singleton.mp hc, List.idxOf_append_of_mem hold,
        List.idxOf_append_of_notMem hnew]
      exact Nat.lt_add_right _ (List.idxOf_lt_length_of_mem hold)

theorem appearances_eraseDups (l : List β) : Appearances l l.eraseDups where
  nodup := (idxOf_lt_of_eraseDups l).imp fun hlt heq => Nat.ne_of_lt hlt (congrArg l.idxOf heq)
  mem _ := List.mem_eraseDups
  ordered := idxOf_lt_of_eraseDups l

end Appearances

namespace Expr

variable {α : Type}

/-- Adds the variables of an expression to the names seen before, from left to right and each once. -/
def collect (seen : List String) : Expr α → List String
  | var name => if name ∈ seen then seen else seen ++ [name]
  | const _ => seen
  | binary _ left right => right.collect (left.collect seen)
  | apply _ argument => argument.collect seen

theorem collect_eraseDups (names : List String) (e : Expr α) :
    e.collect names.eraseDups = (names ++ e.occurrences).eraseDups := by
  induction e generalizing names with
  | var name =>
    rw [collect, occurrences, eraseDups_concat]
    simp only [List.mem_eraseDups]
  | const v => rw [collect, occurrences, List.append_nil]
  | binary op left right ihl ihr => rw [collect, occurrences, ihl, ihr, List.append_assoc]
  | apply f argument ih => exact ih names

theorem vars_eq_collect (e : Expr α) : e.vars = e.collect [] := (e.collect_eraseDups []).symm

theorem mentions_iff {name : String} (e : Expr α) : e.mentions name = true ↔ name ∈ e.occurrences := by
  induction e with
  | var other => rw [mentions, occurrences, List.mem_singleton, beq_iff_eq, eq_comm]
  | const v => simp [mentions, occurrences]
  | binary op left right ihl ihr =>
    rw [mentions, occurrences, Bool.or_eq_true, List.mem_append, ihl, ihr]
  | apply f argument ih => exact ih

variable [Scalar α]

theorem eval_eq_error_iff {s : Scope α} {err : EvalError} (e : Expr α) :
    e.eval s = .error err ↔ ∃ n, e.vars.find? s.lacks = some n ∧ err = .unbound n := by
  have henv : Scope.Extends (fun n => (s.get? n).getD Scalar.zero) s := fun n v h =>
    congrArg (Option.getD · Scalar.zero) h
  rw [eval_eq henv, vars, find?_eraseDups]
  cases e.occurrences.find? s.lacks with
  | none => simp [EvalError.unlessMissing]
  | some n => simp [EvalError.unlessMissing, eq_comm]

/-- Only the values of the variables that stand in an expression matter. -/
theorem eval_congr {s t : Scope α} (e : Expr α) (h : ∀ n ∈ e.occurrences, s.get? n = t.get? n) :
    e.eval s = e.eval t := by
  induction e with
  | var name => rw [eval, eval, h name List.mem_cons_self]
  | const v => rfl
  | binary op left right ihl ihr =>
    rw [eval, eval, ihl fun n hn => h n (List.mem_append_left _ hn),
      ihr fun n hn => h n (List.mem_append_right _ hn)]
  | apply f argument ih => rw [eval, eval, ih h]

/-- An expression has no value exactly if a variable of its list has none, and the first one of these
is reported. The list has the variables that stand in the expression, each once and in the order of
their first appearance, and scopes in which they have the same values give the same result. -/
theorem eval_reads_vars (e : Expr α) :
    (∀ s : Scope α, (∃ err, e.eval s = .error err) ↔ ∃ n ∈ e.vars, s.get? n = none) ∧
    (∀ (s : Scope α) err, e.eval s = .error err ↔
      ∃ n, e.vars.find? s.lacks = some n ∧ err = .unbound n) ∧
    (∀ n, e.mentions n = true ↔ n ∈ e.vars) ∧
    Appearances e.occurrences e.vars ∧ e.vars = e.collect [] ∧
    ∀ s t : Scope α, (∀ n ∈ e.vars, s.get? n = t.get? n) → e.eval s = e.eval t := by
  have hlist := appearances_eraseDups e.occurrences
  refine ⟨fun s => ?_, fun s err => e.eval_eq_error_iff, fun n => ?_, hlist, e.vars_eq_collect,
    fun s t h => ?_⟩
  · have hsome : (∃ n ∈ e.vars, s.get? n = none) ↔ (e.vars.find? s.lacks).isSome = true := by
      simp [Scope.lacks]
    rw [hsome, Option.isSome_iff_exists]
    constructor
    · rintro ⟨err, h⟩
      obtain ⟨n, hn, _⟩ := e.eval_eq_error_iff.mp h
      exact ⟨n, hn⟩
    · rintro ⟨n, hn⟩
      exact ⟨.unbound n, e.eval_eq_error_iff.mpr ⟨n, hn, rfl⟩⟩
  · exact e.mentions_iff.trans (hlist.mem n).symm
  · exact e.eval_congr fun n hn => h n ((hlist.mem n).mpr hn)

/-- Two scopes that agree on the variables of an expression and on nothing else. -/
theorem eval_reads_vars_twice : ∃ e : Expr Fraction, ofText "x*k + (k - q)^2" = .ok e ∧
    e.vars = ["x", "k", "q"] ∧
    e.eval ⟨[("x", ⟨3⟩)]⟩ = .error (.unbound "k") ∧
    e.eval ⟨[("q", ⟨1⟩), ("k", ⟨2⟩), ("x", ⟨3⟩)]⟩ = .ok ⟨7⟩ ∧
    e.eval ⟨[("x", ⟨3⟩), ("z", ⟨9⟩), ("k", ⟨2⟩), ("q", ⟨1⟩), ("k", ⟨5⟩)]⟩ = .ok ⟨7⟩ := by
  let e : Expr Fraction := .binary .add (.binary .mul (.var "x") (.var "k"))
    (.binary .power (.binary .sub (.var "k") (.var "q")) (.const ⟨2⟩))
  obtain ⟨_, hfails, _, _, _, hsame⟩ := e.eval_reads_vars
  have hvars : e.vars = ["x", "k", "q"] := by decide +kernel
  have hvalue : e.eval ⟨[("q", ⟨1⟩), ("k", ⟨2⟩), ("x", ⟨3⟩)]⟩ = .ok ⟨7⟩ := by decide +kernel
  refine ⟨e, by decide +kernel, hvars, ?_, hvalue, ?_⟩
  · exact (hfails _ _).mpr ⟨"k", by decide +kernel, rfl⟩
  · rw [← hvalue]
    refine hsame _ _ fun n hn => ?_
    rw [hvars] at hn
    obtain rfl | rfl | rfl : n = "x" ∨ n = "k" ∨ n = "q" := by simpa using hn
    · rfl
    · rfl
    · rfl

end Expr

end Trajectory
