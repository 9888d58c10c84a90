import Trajectory.Proofs.Expr.Matched
import Trajectory.Expr.Form

namespace Trajectory

namespace Bracket

variable {s : List Char} {c : Cut}

theorem mem_of_lastBinarySign (h : lastBinarySign? s = some c) : c ∈ outerCuts s :=
  (List.mem_filter.mp (List.mem_of_getLast? h)).1

theorem mem_of_lastOf {marks : List Char} (h : lastOf? marks s = some c) : c ∈ outerCuts s :=
  (List.mem_filter.mp (List.mem_of_getLast? h)).1

theorem mem_of_first {mark : Char} (h : first? mark s = some c) : c ∈ outerCuts s :=
  List.mem_of_find?_eq_some h

end Bracket

namespace Form

open Trajectory.Bracket

inductive IsPart (s : List Char) : List Char → Prop
  | before {c : Cut} (hc : c ∈ outerCuts s) : IsPart s c.before
  | after {c : Cut} (hc : c ∈ outerCuts s) : IsPart s c.after
  | inner {u v p : List Char} (hs : s = u ++ v) (hp : inner? v = some p) : IsPart s p

variable {s p : List Char} {c : Cut}

theorem isPart_of_ofSign (hc : c ∈ outerCuts s) (hp : p ∈ (ofSign s c).parts) : IsPart s p := by
  unfold ofSign at hp
  split at hp
  next => cases hp
  next =>
    obtain rfl | rfl : p = c.before ∨ p = c.after := by simpa [parts] using hp
    · exact .before hc
    · exact .after hc

theorem isPart_of_ofOperator {op : BinaryOp} (hc : c ∈ outerCuts s)
    (hp : p ∈ (ofOperator op s c).parts) : IsPart s p := by
  unfold ofOperator at hp
  split at hp
  next => cases hp
  next =>
    obtain rfl | rfl : p = c.before ∨ p = c.after := by simpa [parts] using hp
    · exact .before hc
    · exact .after hc

theorem parts_ofToken (s : List Char) : (ofToken s).parts = [] := by
  unfold ofToken
  split
  · rfl
  · split <;> rfl

theorem isPart_of_ofCall {f : Form} (hf : ofCall? s = some f) (hp : p ∈ f.parts) : IsPart s p := by
  simp only [ofCall?] at hf
  split at hf
  next =>
    obtain ⟨argument, hinner, rfl⟩ := Option.map_eq_some_iff.mp hf
    obtain rfl : p = argument := by simpa [parts] using hp
    exact .inner List.takeWhile_append_dropWhile.symm hinner
  next => cases hf

theorem isPart_of_signed {m : Char} {operand : List Char} (hm : isBracket m = false)
    (hp : p ∈ [operand]) : IsPart (m :: operand) p := by
  obtain rfl := List.mem_singleton.mp hp
  have hcut : (⟨[], m, p⟩ : Cut) ∈ outerCuts (m :: p) := by
    rw [outerCuts, outerCutsFrom_mark hm]
    exact List.mem_cons_self
  exact .after hcut

theorem isPart_of_ofFactor (hp : p ∈ (ofFactor s).parts) : IsPart s p := by
  unfold ofFactor at hp
  split at hp
  next => exact isPart_of_signed rfl hp
  next => exact isPart_of_signed rfl hp
  next =>
    split at hp
    next hcut => exact isPart_of_ofOperator (mem_of_first hcut) hp
    next =>
      split at hp
      next inner hinner =>
        obtain rfl : p = inner := by simpa [parts] using hp
        exact .inner (u := []) rfl hinner
      next =>
        cases hcall : ofCall? s with
        | none =>
          rw [hcall, Option.getD_none, parts_ofToken] at hp
          cases hp
        | some f =>
          rw [hcall, Option.getD_some] at hp
          exact isPart_of_ofCall hcall hp

theorem isPart_of_mem_parts (hp : p ∈ (of s).parts) : balanced s = true ∧ IsPart s p := by
  unfold of at hp
  split at hp
  next => cases hp
  next =>
    split at hp
    next => cases hp
    next hs =>
      refine ⟨by simpa using hs, ?_⟩
      split at hp
      next hcut => exact isPart_of_ofSign (mem_of_lastBinarySign hcut) hp
      next =>
        split at hp
        next hcut => exact isPart_of_ofOperator (mem_of_lastOf hcut) hp
        next => exact isPart_of_ofFactor hp

end Form

end Trajectory
