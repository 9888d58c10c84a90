import Trajectory.Proofs.Solver.Ready
import Trajectory.Proofs.Solver.Soundness
import Trajectory.Proofs.Task.Reading

namespace Trajectory

namespace Solver

variable {α : Type} [Scalar α]

/-- The solver after changes that are made one after the other, unless one of them is refused. -/
def afterChanges (s : Solver α) (fs : List (Solver α → Except (SolverError α) (Change α))) :
    Except (SolverError α) (Solver α) :=
  fs.foldlM (fun s f => (f s).map Change.solver) s

theorem checkConditions_eq_ok_iff {names : List String} {entries : List (String × α)} :
    checkConditions names entries = .ok () ↔
      ∀ entry ∈ entries, entry.1 ∈ names ∧ Scalar.isFinite entry.2 = true := by
  refine ⟨forall_of_checkConditions, fun h => ?_⟩
  induction entries with
  | nil => rfl
  | cons entry entries ih =>
    obtain ⟨name, value⟩ := entry
    obtain ⟨⟨hname, hfinite⟩, hlater⟩ := List.forall_mem_cons.mp h
    dsimp only at hname hfinite
    rw [checkConditions, if_neg (by simpa using hname)]
    dsimp only
    rw [if_neg (by simp [hfinite])]
    exact ih hlater

theorem setEquations_eq_ok_iff {s : Solver α} {sources : List String} {c : Change α}
    (hidle : s.running = false) : s.setEquations sources = .ok c ↔
      ∃ system, OdeSystem.reduce sources = .ok system ∧
        c = ⟨{ s with system? := some system, conditions := .empty, result := [] },
          .equationsUpdated, system.names⟩ := by
  have hcheck : s.checkIdle = .ok () := if_neg (by simp [hidle])
  constructor
  · intro h
    obtain ⟨_, _, h⟩ := bind_eq_ok.mp h
    obtain ⟨system, hreduce, h⟩ := bind_eq_ok.mp h
    exact ⟨system, mapError_eq_ok.mp hreduce, (Except.ok.inj h).symm⟩
  · rintro ⟨system, hreduce, rfl⟩
    exact bind_eq_ok.mpr ⟨(), hcheck, bind_eq_ok.mpr ⟨system, mapError_eq_ok.mpr hreduce, rfl⟩⟩

omit [Scalar α] in
theorem afterChanges_cons {s t : Solver α} {f : Solver α → Except (SolverError α) (Change α)}
    {fs : List (Solver α → Except (SolverError α) (Change α))} :
    s.afterChanges (f :: fs) = .ok t ↔ ∃ c, f s = .ok c ∧ c.solver.afterChanges fs = .ok t := by
  rw [afterChanges, List.foldlM_cons]
  cases f s with
  | error e => exact iff_of_false nofun fun ⟨_, h, _⟩ => nomatch h
  | ok c =>
    refine ⟨fun h => ⟨c, rfl, h⟩, ?_⟩
    rintro ⟨_, hc, h⟩
    cases hc
    exact h

omit [Scalar α] in
theorem afterChanges_append (s : Solver α)
    (fs gs : List (Solver α → Except (SolverError α) (Change α))) :
    s.afterChanges (fs ++ gs) = s.afterChanges fs >>= fun t => t.afterChanges gs :=
  List.foldlM_append

end Solver

namespace Task

open Session (Setting)

variable {α : Type} [Scalar α]

/-- All that a task sets, in order. -/
def changes (t : Task α) : List (Solver α → Except (SolverError α) (Change α)) :=
  (fun s => s.setEquations t.equations) :: (t.conditionChanges ++ t.settingChanges)

section Settings

variable {s : Solver α} {t : Task α} {tol : Tolerance α}

/-- Whatever valid tolerance a solver has, and whoever changes it meanwhile, each part of another one
is accepted. -/
theorem exists_toleranceChange (hs : s.Ready) (htol : tol.validate = .ok ())
    {f : Solver α → Except (SolverError α) (Change α)} (hf : f ∈ toleranceChanges tol) :
    ∃ c, f s = .ok c := by
  simp only [toleranceChanges, List.mem_cons, List.not_mem_nil, or_false] at hf
  rcases hf with rfl | rfl | rfl | rfl | rfl
  · exact ⟨_, hs.setTolerance htol⟩
  · exact ⟨_, hs.setFactorBounds htol⟩
  · exact ⟨_, hs.setSafety htol⟩
  · exact ⟨_, hs.setStepBounds htol⟩
  · exact ⟨_, hs.setNorm tol.norm⟩

theorem exists_settingChange (hs : s.Ready) (ht : t.Sound)
    {f : Solver α → Except (SolverError α) (Change α)} (hf : f ∈ t.settingChanges) :
    ∃ c, f s = .ok c := by
  rcases List.mem_append.mp hf with hf | hf
  · obtain ⟨r, hr, hf⟩ := List.mem_flatMap.mp hf
    obtain rfl := List.mem_singleton.mp hf
    exact ⟨_, hs.setRange (ht.range r (Option.mem_toList.mp hr))⟩
  · obtain ⟨tol, htol, hf⟩ := List.mem_flatMap.mp hf
    exact exists_toleranceChange hs (ht.tolerance tol (Option.mem_toList.mp htol)) hf

theorem afterChanges_range (hs : s.Ready) (ht : t.Sound) :
    s.afterChanges (t.range?.toList.flatMap rangeChanges) =
      .ok { s with range := t.range?.getD s.range } := by
  cases hrange : t.range? with
  | none => rfl
  | some r => exact Solver.afterChanges_cons.mpr ⟨_, hs.setRange (ht.range r hrange), rfl⟩

theorem afterChanges_tolerance (hs : s.Ready) (ht : t.Sound) :
    s.afterChanges (t.tolerance?.toList.flatMap toleranceChanges) =
      .ok { s with tolerance := t.tolerance?.getD s.tolerance } := by
  cases htolerance : t.tolerance? with
  | none => rfl
  | some tol =>
    have htol := ht.tolerance tol htolerance
    have h₁ := hs.setTolerance htol
    have hs₁ := (Setting.tolerance tol.absolute tol.relative).ready h₁ hs
    refine Solver.afterChanges_cons.mpr ⟨_, h₁, ?_⟩
    have h₂ := hs₁.setFactorBounds htol
    have hs₂ := (Setting.stepControl _).ready h₂ hs₁
    refine Solver.afterChanges_cons.mpr ⟨_, h₂, ?_⟩
    have h₃ := hs₂.setSafety htol
    have hs₃ := (Setting.stepControl _).ready h₃ hs₂
    refine Solver.afterChanges_cons.mpr ⟨_, h₃, ?_⟩
    have h₄ := hs₃.setStepBounds htol
    have hs₄ := (Setting.stepControl _).ready h₄ hs₃
    refine Solver.afterChanges_cons.mpr ⟨_, h₄, ?_⟩
    exact Solver.afterChanges_cons.mpr ⟨_, hs₄.setNorm tol.norm, rfl⟩

theorem afterChanges_settings (hs : s.Ready) (ht : t.Sound) :
    s.afterChanges t.settingChanges = .ok { s with
      range := t.range?.getD s.range, tolerance := t.tolerance?.getD s.tolerance } := by
  have hranged : ({ s with range := t.range?.getD s.range } : Solver α).Ready := ⟨hs.idle, hs.tolerance⟩
  refine (Solver.afterChanges_append _ _ _).trans (bind_eq_ok.mpr ⟨_, afterChanges_range hs ht, ?_⟩)
  exact afterChanges_tolerance hranged ht

theorem afterChanges_conditions {s' : Solver α} (hs : s.Ready) (hnone : s.conditions = .empty) :
    s.afterChanges t.conditionChanges = .ok s' ↔
      (∀ entry ∈ t.conditions.entries, entry.1 ∈ s.names ∧ Scalar.isFinite entry.2 = true) ∧
        s' = { s with conditions := t.conditions } := by
  unfold conditionChanges
  cases hentries : t.conditions.entries with
  | nil =>
    have hsame : ({ s with conditions := t.conditions } : Solver α) = s := by
      have hempty : t.conditions = .empty := Conditions.ext hentries
      rw [hempty, ← hnone]
    rw [if_pos (by simp [Conditions.isEmpty, hentries]), hsame]
    exact ⟨fun h => ⟨by simp, (Except.ok.inj h).symm⟩, fun h => congrArg Except.ok h.2.symm⟩
  | cons entry entries =>
    rw [if_neg (by simp [Conditions.isEmpty, hentries]), Solver.afterChanges_cons, ← hentries,
      ← Solver.checkConditions_eq_ok_iff]
    constructor
    · rintro ⟨c, hset, h⟩
      obtain ⟨_, _, hset⟩ := bind_eq_ok.mp hset
      obtain ⟨_, hcheck, hset⟩ := bind_eq_ok.mp hset
      cases hset
      exact ⟨hcheck, (Except.ok.inj h).symm⟩
    · rintro ⟨hcheck, rfl⟩
      exact ⟨_, bind_eq_ok.mpr ⟨(), hs.checkIdle, bind_eq_ok.mpr ⟨(), hcheck, rfl⟩⟩, rfl⟩

theorem afterChanges_changes {s' : Solver α} (hs : s.Ready) (ht : t.Sound) :
    s.afterChanges t.changes = .ok s' ↔
      ∃ system, OdeSystem.reduce t.equations = .ok system ∧
        (∀ entry ∈ t.conditions.entries, entry.1 ∈ system.names ∧ Scalar.isFinite entry.2 = true) ∧
        s' = { s with
          system? := some system, conditions := t.conditions, result := []
          range := t.range?.getD s.range, tolerance := t.tolerance?.getD s.tolerance } := by
  rw [changes, Solver.afterChanges_cons]
  constructor
  · rintro ⟨c, hset, h⟩
    have hready := (Setting.equations t.equations).ready hset hs
    obtain ⟨system, hreduce, rfl⟩ := (Solver.setEquations_eq_ok_iff hs.idle).mp hset
    rw [Solver.afterChanges_append] at h
    obtain ⟨s₁, hconditions, h⟩ := bind_eq_ok.mp h
    obtain ⟨hall, rfl⟩ := (afterChanges_conditions hready rfl).mp hconditions
    have hsettings := h.symm.trans (afterChanges_settings ⟨hready.idle, hready.tolerance⟩ ht)
    exact ⟨system, hreduce, hall, Except.ok.inj hsettings⟩
  · rintro ⟨system, hreduce, hall, rfl⟩
    have hset := (Solver.setEquations_eq_ok_iff hs.idle).mpr ⟨system, hreduce, rfl⟩
    have hready := (Setting.equations t.equations).ready hset hs
    refine ⟨_, hset, ?_⟩
    rw [Solver.afterChanges_append]
    refine bind_eq_ok.mpr ⟨_, (afterChanges_conditions hready rfl).mpr ⟨hall, rfl⟩, ?_⟩
    exact afterChanges_settings ⟨hready.idle, hready.tolerance⟩ ht

theorem eq_of_conditionChanges {before later : List (Solver α → Except (SolverError α) (Change α))}
    {f : Solver α → Except (SolverError α) (Change α)}
    (h : t.conditionChanges ++ t.settingChanges = before ++ f :: later)
    (hf : f ∉ t.settingChanges) :
    before = [] ∧ f = fun s => s.setConditions t.conditions := by
  unfold conditionChanges at h
  split at h
  next =>
    have hmem : f ∈ before ++ f :: later := List.mem_append_right before List.mem_cons_self
    rw [← h] at hmem
    exact absurd hmem hf
  next =>
    cases before with
    | nil => exact ⟨rfl, (List.cons.inj h).1.symm⟩
    | cons g before =>
      have hrest : t.settingChanges = before ++ f :: later := (List.cons.inj h).2
      have hmem : f ∈ before ++ f :: later := List.mem_append_right before List.mem_cons_self
      rw [← hrest] at hmem
      exact absurd hmem hf

theorem setting_of_changes {f : Solver α → Except (SolverError α) (Change α)}
    (hf : f ∈ t.changes) : Setting f := by
  rcases List.mem_cons.mp hf with rfl | hf
  · exact .equations t.equations
  · exact setting_of_laterChanges hf

end Settings

end Task

end Trajectory
