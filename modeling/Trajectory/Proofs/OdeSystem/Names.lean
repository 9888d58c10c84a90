import Mathlib.Data.List.Nodup
import Trajectory.OdeSystem.Reduction
import Trajectory.Outcome

namespace Trajectory

namespace Variable

theorem toList_name (v : Variable) : v.name.toList =
    v.base :: if v.order = 0 then [] else '_' :: (Nat.repr v.order).toList := by
  unfold name
  split
  next => simp
  next => simp [ToString.toString, Nat.repr]

theorem name_injective : Function.Injective name := by
  rintro ⟨b, m⟩ ⟨c, n⟩ h
  have hlists := congrArg String.toList h
  rw [toList_name, toList_name] at hlists
  obtain ⟨rfl, hsuffix⟩ := List.cons.inj hlists
  have horder : m = n := by
    dsimp only at hsuffix
    split at hsuffix <;> split at hsuffix
    next hm hn => rw [hm, hn]
    next => cases hsuffix
    next => cases hsuffix
    next =>
      have hdigits := (List.cons.inj hsuffix).2
      rw [Nat.toList_repr, Nat.toList_repr] at hdigits
      rw [← Nat.ofDigitChars_ten_toDigits (n := m), hdigits, Nat.ofDigitChars_ten_toDigits]
  rw [horder]

end Variable

variable {α : Type}

namespace Equation

theorem mem_chain {e : Equation α} {v : Variable} :
    v ∈ e.chain ↔ v.base = e.base ∧ v.order < e.order := by
  obtain ⟨b, k⟩ := v
  constructor
  · intro h
    obtain ⟨n, hn, heq⟩ := List.mem_map.mp h
    cases heq
    exact ⟨rfl, List.mem_range.mp hn⟩
  · rintro ⟨rfl, hk⟩
    exact List.mem_map.mpr ⟨k, List.mem_range.mpr hk, rfl⟩

theorem chain_nodup (e : Equation α) : e.chain.Nodup :=
  List.nodup_range.map fun _ _ h => (Variable.mk.inj h).2

variable [Scalar α]

theorem base_of_read {taken : List Char} {source : String} {e : Equation α}
    (h : read taken source = .ok e) : e.base ∉ taken := by
  unfold read at h
  dsimp only at h
  split at h
  next => cases h
  next =>
    split at h
    next => cases h
    next =>
      split at h
      next => cases h
      next hnew =>
        split at h
        next => cases h
        next =>
          cases h
          simpa using hnew

theorem bases_of_readAll {taken : List Char} {sources : List String} {equations : List (Equation α)}
    (h : readAll taken sources = (equations, none)) :
    (equations.map Equation.base).Nodup ∧ ∀ e ∈ equations, e.base ∉ taken := by
  induction sources generalizing taken equations with
  | nil =>
    cases h
    simp
  | cons source sources ih =>
    unfold readAll at h
    split at h
    next => cases h
    next e hread =>
      cases hlater : readAll (α := α) (e.base :: taken) sources with
      | mk later fault? =>
        rw [hlater] at h
        cases h
        obtain ⟨hnodup, hnew⟩ := ih hlater
        refine ⟨List.nodup_cons.mpr ⟨fun hmem => ?_, hnodup⟩, fun f hf => ?_⟩
        · obtain ⟨f, hf, hbase⟩ := List.mem_map.mp hmem
          exact hnew f hf (hbase ▸ List.mem_cons_self)
        · rcases List.mem_cons.mp hf with rfl | hf
          · exact base_of_read hread
          · exact fun htaken => hnew f hf (List.mem_cons_of_mem _ htaken)

end Equation

namespace OdeSystem

def Distinct (s : OdeSystem α) : Prop := (s.equations.map Equation.base).Nodup

theorem mem_vars {s : OdeSystem α} {v : Variable} :
    v ∈ s.vars ↔ ∃ e ∈ s.equations, v.base = e.base ∧ v.order < e.order := by
  simp only [vars, List.mem_flatMap, Equation.mem_chain]

theorem vars_nodup {s : OdeSystem α} (h : s.Distinct) : s.vars.Nodup := by
  rw [vars, List.nodup_flatMap]
  refine ⟨fun e _ => e.chain_nodup, (List.pairwise_map.mp h).imp fun hbase v hv hw => ?_⟩
  exact hbase ((Equation.mem_chain.mp hv).1.symm.trans (Equation.mem_chain.mp hw).1)

theorem names_nodup {s : OdeSystem α} (h : s.Distinct) : s.names.Nodup :=
  (vars_nodup h).map Variable.name_injective

theorem distinct_of_reduce [Scalar α] {sources : List String} {s : OdeSystem α}
    (h : reduce sources = .ok s) : s.Distinct := by
  unfold reduce at h
  split at h
  next => cases h
  next =>
    split at h
    next hread =>
      cases h
      exact (Equation.bases_of_readAll hread).1
    next => cases h

end OdeSystem

end Trajectory
