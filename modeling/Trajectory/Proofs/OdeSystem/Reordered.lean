import Mathlib.Data.List.Perm.Basic
import Trajectory.Proofs.OdeSystem.Subsystem

namespace Trajectory.OdeSystem

variable {α : Type}

/-- The second system has the equations of the first one, in any order. -/
structure Reordered (s s' : OdeSystem α) : Prop where
  distinct : s.Distinct
  equations : s.equations.Perm s'.equations

variable {s s' : OdeSystem α} {arg : String}

namespace Reordered

theorem symm (h : s.Reordered s') : s'.Reordered s where
  distinct := (h.equations.map Equation.base).nodup_iff.mp h.distinct
  equations := h.equations.symm

theorem subsystem (h : s.Reordered s') : s.Subsystem s' :=
  ⟨h.distinct, h.symm.distinct, h.equations.subset⟩

theorem vars (h : s.Reordered s') : s.vars.Perm s'.vars := h.equations.flatMap_right _

theorem names (h : s.Reordered s') : s.names.Perm s'.names := h.vars.map _

theorem foreign?_eq_none (h : s.Reordered s') (hforeign : s.foreign? arg = none) :
    s'.foreign? arg = none := by
  rw [foreign?_eq_none_iff] at hforeign ⊢
  rintro ⟨e, he, name, hname, hne, hout⟩
  exact hforeign ⟨e, h.equations.mem_iff.mpr he, name, hname, hne, mt h.names.mem_iff.mp hout⟩

end Reordered

theorem exists_reordered [Scalar α] {sources sources' : List String} (hsources : sources.Perm sources')
    (h : reduce sources = .ok s) : ∃ s', reduce sources' = .ok s' ∧ s.Reordered s' := by
  obtain ⟨hsome, hstands, hdistinct⟩ := stands_of_reduce h
  obtain ⟨equations, hstands', hperm⟩ := List.perm_comp_forall₂ hsources.symm hstands
  have hreordered : s.Reordered ⟨equations⟩ := ⟨hdistinct, hperm.symm⟩
  have hsome' : sources' ≠ [] := fun hnone => hsome (List.perm_nil.mp (hnone ▸ hsources))
  exact ⟨⟨equations⟩, reduce_of_stands hsome' hstands' hreordered.symm.distinct, hreordered⟩

/-- The slots of the second state are those of the first one in another order. -/
theorem Shared.perm {y y' : List α} (h : s.Reordered s') (hy : Shared s s' y y') : y.Perm y' := by
  have hslots : y'.map some = s'.vars.map fun v => y[s.slot v]? := by
    rw [← map_slots h.symm.distinct hy.size']
    exact List.map_congr_left fun v hv => (hy.slots v (h.vars.mem_iff.mpr hv)).symm
  have hperm : (y.map some).Perm (y'.map some) := by
    rw [hslots, ← map_slots h.distinct hy.size]
    exact h.vars.map _
  exact (List.map_perm_map_iff (Option.some_injective α)).mp hperm

variable [Scalar α] {x dx : α} {y y' : List α}

theorem step_of_foreign {name : String} (hy : y.length = s.size)
    (hforeign : s.foreign? arg = some name) : s.step arg x y dx = .error (.cause (.unbound name)) :=
  step_of_error (evaluate_of_foreign hy hforeign)

/-- What two steps have come to that move every variable alike. -/
inductive Stepped (s s' : OdeSystem α) : Checked EvalError (StepPair α) →
    Checked EvalError (StepPair α) → Prop
  | pair {pair pair' : StepPair α} (fifth : Shared s s' pair.fifth pair'.fifth)
      (fourth : Shared s s' pair.fourth pair'.fourth) : Stepped s s' (.ok pair) (.ok pair')
  | unbound (name name' : String) :
      Stepped s s' (.error (.cause (.unbound name))) (.error (.cause (.unbound name')))

theorem Reordered.step (h : s.Reordered s') (harg : arg ∉ s.names) (hy : Shared s s' y y') :
    Stepped s s' (s.step arg x y dx) (s'.step arg x y' dx) := by
  have harg' : arg ∉ s'.names := mt h.names.mem_iff.mpr harg
  cases hforeign : s.foreign? arg with
  | none =>
    obtain ⟨pair, hpair, _⟩ := exists_step (x := x) (h := dx) ⟨hy.size, hforeign⟩
    obtain ⟨pair', hpair', _⟩ := exists_step (x := x) (h := dx)
      ⟨hy.size', h.foreign?_eq_none hforeign⟩
    obtain ⟨hfifth, hfourth⟩ := shared_results_of_step h.subsystem harg' hy hpair hpair'
    rw [hpair, hpair']
    exact .pair hfifth hfourth
  | some name =>
    cases hforeign' : s'.foreign? arg with
    | none =>
      have hbound := h.symm.foreign?_eq_none hforeign'
      cases hbound.symm.trans hforeign
    | some name' =>
      rw [step_of_foreign hy.size hforeign, step_of_foreign hy.size' hforeign']
      exact .unbound name name'

end Trajectory.OdeSystem
