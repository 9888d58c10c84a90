import Trajectory.Outcome
import Trajectory.Solver.Setup

namespace Trajectory

variable {α ε : Type}

namespace Point

theorem slot_eq_ok_iff {y : List α} {i : Nat} {v : α} :
    slot (ε := ε) y i = .ok v ↔ y[i]? = some v := by
  unfold slot
  cases y[i]? with
  | none => simp [Checked.breach]
  | some u => simp [pure, Except.pure]

theorem select_cons {i : Nat} {indices : List Nat} {y values : List α}
    (h : select (ε := ε) (i :: indices) y = .ok values) :
    ∃ v later, values = v :: later ∧ y[i]? = some v ∧ select (ε := ε) indices y = .ok later := by
  rw [select, List.mapM_cons] at h
  obtain ⟨v, hv, h⟩ := bind_eq_ok.mp h
  obtain ⟨later, hlater, h⟩ := bind_eq_ok.mp h
  cases h
  exact ⟨v, later, rfl, slot_eq_ok_iff.mp hv, hlater⟩

theorem of_project {names : List String} {indices : List Nat} {x : α} {y : List α} {p : Point α}
    (h : project (ε := ε) names indices x y = .ok p) :
    ∃ values, select (ε := ε) indices y = .ok values ∧ p = ⟨names, x :: values⟩ := by
  obtain ⟨values, hvalues, h⟩ := bind_eq_ok.mp h
  obtain ⟨_, _, h⟩ := bind_eq_ok.mp h
  cases h
  exact ⟨values, hvalues, rfl⟩

theorem exists_select {indices : List Nat} {y : List α} (h : ∀ i ∈ indices, i < y.length) :
    ∃ values, select (ε := ε) indices y = .ok values ∧ values.length = indices.length := by
  induction indices with
  | nil => exact ⟨[], rfl, rfl⟩
  | cons i indices ih =>
    obtain ⟨values, hvalues, hlength⟩ := ih fun j hj => h j (List.mem_cons_of_mem i hj)
    have hi := h i List.mem_cons_self
    have hslot : slot (ε := ε) y i = .ok y[i] := slot_eq_ok_iff.mpr (List.getElem?_eq_getElem hi)
    refine ⟨y[i] :: values, ?_, by rw [List.length_cons, hlength, List.length_cons]⟩
    rw [select, List.mapM_cons]
    exact bind_eq_ok.mpr ⟨_, hslot, bind_eq_ok.mpr ⟨values, hvalues, rfl⟩⟩

theorem exists_project {names : List String} {indices : List Nat} {x : α} {y : List α}
    (h : ∀ i ∈ indices, i < y.length) (hnames : names.length = indices.length + 1) :
    ∃ p, project (ε := ε) names indices x y = .ok p := by
  obtain ⟨values, hvalues, hlength⟩ := exists_select (ε := ε) h
  have hsize : Checked.sameSize (ε := ε) names.length (x :: values).length = .ok () := by
    rw [Checked.sameSize, if_pos (by rw [hnames, List.length_cons, hlength])]
  exact ⟨⟨names, x :: values⟩, bind_eq_ok.mpr ⟨values, hvalues, bind_eq_ok.mpr ⟨(), hsize, rfl⟩⟩⟩

end Point

theorem Equation.chain_eq (e : Equation α) :
    ∃ later, e.chain = ⟨e.base, 0⟩ :: later ∧ later.length + 1 = e.order := by
  obtain ⟨n, hn⟩ : ∃ n, e.order = n + 1 := ⟨e.order - 1, by unfold Equation.order; omega⟩
  refine ⟨((List.range n).map Nat.succ).map fun k => ⟨e.base, k⟩, ?_, by simp [hn]⟩
  rw [Equation.chain, hn, List.range_succ_eq_map]
  rfl

theorem OdeSystem.select_offsets {value? : String → Option α} {equations : List (Equation α)}
    (before : List α) {y values : List α}
    (hy : ((equations.flatMap Equation.chain).map Variable.name).map value? = y.map some)
    (h : Point.select (ε := ε) (offsets before.length equations) (before ++ y) = .ok values) :
    (equations.map fun e => e.base.toString).map value? = values.map some := by
  induction equations generalizing before y values with
  | nil =>
    cases h
    rfl
  | cons e equations ih =>
    obtain ⟨later, hchain, hlength⟩ := e.chain_eq
    rw [List.flatMap_cons, List.map_append, List.map_append] at hy
    obtain ⟨own, rest, rfl, hown, hrest⟩ := List.map_eq_append_iff.mp hy.symm
    obtain ⟨v, values, rfl, hv, hselect⟩ := Point.select_cons h
    have hsize : own.length = e.order := by
      have hlengths := congrArg List.length hown
      simpa [hchain, hlength] using hlengths
    have hnext : before.length + e.order = (before ++ own).length := by simp [hsize]
    rw [hnext, ← List.append_assoc] at hselect
    cases own with
    | nil => simp [hchain] at hown
    | cons u own =>
      have hu : v = u := by simpa using hv.symm
      have hbase : value? e.base.toString = some u := by
        rw [hchain] at hown
        have hhead := (List.cons.inj hown).1
        exact hhead.symm
      rw [List.map_cons, List.map_cons, List.map_cons, hbase, hu, ih _ hrest.symm hselect]

theorem OdeSystem.select_baseIndices {s : OdeSystem α} {value? : String → Option α}
    {y values : List α} (hy : s.names.map value? = y.map some)
    (h : Point.select (ε := ε) s.baseIndices y = .ok values) :
    s.baseNames.map value? = values.map some :=
  select_offsets [] hy h

namespace Solver

theorem map_eq_of_missing {s : Solver α} {names : List String}
    (h : ∀ name ∈ names, s.conditions.get? name ≠ none) :
    names.map s.conditions.get? = (names.filterMap s.conditions.get?).map some := by
  induction names with
  | nil => rfl
  | cons name names ih =>
    obtain ⟨v, hv⟩ := Option.ne_none_iff_exists'.mp (h name List.mem_cons_self)
    have hnames := ih fun other hmem => h other (List.mem_cons_of_mem name hmem)
    rw [List.map_cons, List.filterMap_cons, hv, hnames]
    rfl

variable [Scalar α]

/-- The setup of a run that is allowed to begin. -/
structure Prepared (s : Solver α) (setup : Setup α) : Prop where
  system : s.system? = some setup.system
  range : setup.range = s.range
  tolerance : setup.tolerance = s.tolerance
  firstStep : checkFirstStep s.range = .ok ()
  argument : s.range.arg ∉ setup.system.names
  validated : s.tolerance.validate = .ok ()
  steps : Tolerance.checkSteps s.tolerance.minStep (s.tolerance.maxStep s.range) = .ok ()
  /-- Each variable's slot holds its condition. -/
  state : setup.system.names.map s.conditions.get? = setup.y.map some

theorem Prepared.size {s : Solver α} {setup : Setup α} (h : Prepared s setup) :
    setup.y.length = setup.system.size := by
  have hlengths := congrArg List.length h.state
  rw [List.length_map, List.length_map, OdeSystem.names, List.length_map] at hlengths
  exact hlengths.symm

theorem prepared_of_prepare {s : Solver α} {setup : Setup α} (h : s.prepare = .ok setup) :
    Prepared s setup := by
  unfold prepare at h
  split at h
  next system hsystem =>
    obtain ⟨_, hfirst, h⟩ := bind_eq_ok.mp h
    split at h
    next => cases h
    next hfree =>
      obtain ⟨_, hvalid, h⟩ := bind_eq_ok.mp h
      obtain ⟨_, hsteps, h⟩ := bind_eq_ok.mp h
      dsimp only at h
      split at h
      next => cases h
      next hmissing =>
        cases h
        refine ⟨hsystem, rfl, rfl, hfirst, by simpa using hfree, mapError_eq_ok.mp hvalid,
          mapError_eq_ok.mp hsteps, ?_⟩
        refine map_eq_of_missing fun name hmem hnone => ?_
        have hempty : s.missing system.names = [] := by simpa using hmissing
        have hin : name ∈ s.missing system.names := by simp [missing, hmem, hnone]
        rw [hempty] at hin
        cases hin
  next => cases h

end Solver

end Trajectory
