import Trajectory.Proofs.OdeSystem.Reduction
import Trajectory.Proofs.OdeSystem.Step

namespace Trajectory

variable {α : Type}

theorem exists_of_forall₂ {β γ : Type} {R : β → γ → Prop} {l : List β} {m : List γ}
    (h : List.Forall₂ R l m) {a : β} (ha : a ∈ l) : ∃ b ∈ m, R a b := by
  induction h with
  | nil => cases ha
  | @cons a' b l m hfirst _ ih =>
    rcases List.mem_cons.mp ha with rfl | ha
    · exact ⟨b, List.mem_cons_self, hfirst⟩
    · obtain ⟨c, hc, hac⟩ := ih ha
      exact ⟨c, List.mem_cons_of_mem b hc, hac⟩

theorem Equation.Stands.unique [Scalar α] {source : String} {e e' : Equation α}
    (h : Stands source e) (h' : Stands source e') : e' = e := by
  have hread : read [] source = .ok e := read_of_stands h (by simp)
  have hread' : read [] source = .ok e' := read_of_stands h' (by simp)
  exact Except.ok.inj (hread'.symm.trans hread)

namespace OdeSystem

/-- The second system takes in the equations of the first. -/
structure Subsystem (s s' : OdeSystem α) : Prop where
  distinct : s.Distinct
  distinct' : s'.Distinct
  equations : s.equations ⊆ s'.equations

theorem subsystem_of_reduce [Scalar α] {sources sources' : List String} {s s' : OdeSystem α}
    (hsources : sources ⊆ sources') (h : reduce sources = .ok s) (h' : reduce sources' = .ok s') :
    s.Subsystem s' := by
  obtain ⟨_, hstands, hdistinct⟩ := stands_of_reduce h
  obtain ⟨_, hstands', hdistinct'⟩ := stands_of_reduce h'
  refine ⟨hdistinct, hdistinct', fun e he => ?_⟩
  obtain ⟨source, hsource, hown⟩ := exists_of_forall₂ hstands.flip he
  obtain ⟨e', he', hother⟩ := exists_of_forall₂ hstands' (hsources hsource)
  exact hown.unique hother ▸ he'

/-- A state of each of two systems, with one value for each variable of the first. -/
structure Shared (s s' : OdeSystem α) (y y' : List α) : Prop where
  size : y.length = s.size
  size' : y'.length = s'.size
  slots : ∀ v ∈ s.vars, y[s.slot v]? = y'[s'.slot v]?

variable {s s' : OdeSystem α} {k k' y y' : List α} {ks ks' : List (List α)}

theorem Subsystem.vars (h : s.Subsystem s') : s.vars ⊆ s'.vars := by
  intro v hv
  obtain ⟨e, he, hown⟩ := mem_vars.mp hv
  exact mem_vars.mpr ⟨e, h.equations he, hown⟩

theorem Subsystem.names (h : s.Subsystem s') : s.names ⊆ s'.names :=
  List.map_subset Variable.name h.vars

theorem Shared.assigns {arg : String} {x : α} {env : String → α} (h : s.Subsystem s')
    (hy : Shared s s' y y') (henv : s'.Assigns arg x y' env) : s.Assigns arg x y env where
  argument := henv.argument
  bound v hv := (hy.slots v hv).trans (henv.bound v (h.vars hv))

/-- What each equation gives for its own chain stands in the slots of its variables, in both systems. -/
theorem Subsystem.shared {f : Equation α → List α} (h : s.Subsystem s')
    (hlength : ∀ e, (f e).length = e.chain.length) :
    Shared s s' (s.equations.flatMap f) (s'.equations.flatMap f) where
  size := by simp only [OdeSystem.size, OdeSystem.vars, List.length_flatMap, hlength]
  size' := by simp only [OdeSystem.size, OdeSystem.vars, List.length_flatMap, hlength]
  slots v hv := by
    obtain ⟨base, order⟩ := v
    obtain ⟨e, he, rfl, horder⟩ := mem_vars.mp hv
    rw [getElem?_slot h.distinct hlength he horder,
      getElem?_slot h.distinct' hlength (h.equations he) horder]

variable [Scalar α] {x dx : α}

theorem Shared.addScaled (c : α) (hk : Shared s s' k k') (hy : Shared s s' y y') :
    Shared s s' (Stepper.addScaled c k y) (Stepper.addScaled c k' y') where
  size := (Stepper.length_addScaled (hk.size.trans hy.size.symm)).trans hy.size
  size' := (Stepper.length_addScaled (hk.size'.trans hy.size'.symm)).trans hy.size'
  slots v hv := by
    simp only [Stepper.addScaled, List.getElem?_zipWith, hk.slots v hv, hy.slots v hv]

theorem Shared.combine (weights : List α) (hks : List.Forall₂ (Shared s s') ks ks')
    (hy : Shared s s' y y') :
    Shared s s' (Stepper.combine dx weights ks y) (Stepper.combine dx weights ks' y') := by
  induction hks generalizing weights y y' with
  | nil =>
    rw [Stepper.combine, Stepper.combine, List.zip_nil_right]
    exact hy
  | @cons k k' ks ks' hk _ ih =>
    cases weights with
    | nil => exact hy
    | cons weight weights =>
      -- Whether a weight is passed over does not depend on the system.
      have hsum : Shared s s'
          (if weight == Scalar.zero then y else Stepper.addScaled (dx * weight) k y)
          (if weight == Scalar.zero then y' else Stepper.addScaled (dx * weight) k' y') := by
        split
        · exact hy
        · exact hk.addScaled _ hy
      exact ih weights hsum

section Evaluation

variable {arg : String}

theorem exists_shared_derivatives (h : s.Subsystem s') (harg : arg ∉ s'.names)
    (hbound : s.foreign? arg = none) (hbound' : s'.foreign? arg = none) (x : α)
    (hy : Shared s s' y y') : ∃ k k', s.evaluate arg x y = .ok k ∧ s'.evaluate arg x y' = .ok k' ∧
      Shared s s' k k' := by
  -- The values of the larger state are those of the smaller one too, so both systems are read in them.
  obtain ⟨env, henv'⟩ := exists_assigns (x := x) h.distinct' harg hy.size'
  have henv : s.Assigns arg x y env := hy.assigns h henv'
  have hvalue := evaluate_eq hy.size
    (extends_of_assigns h.distinct (fun hmem => harg (h.names hmem)) hy.size henv)
  have hvalue' := evaluate_eq hy.size' (extends_of_assigns h.distinct' harg hy.size' henv')
  rw [hbound] at hvalue
  rw [hbound'] at hvalue'
  refine ⟨_, _, hvalue, hvalue', ?_⟩
  rw [derivatives, derivatives, List.map_flatMap, List.map_flatMap]
  exact h.shared fun e => by rw [List.length_map, e.derivatives_length]

theorem exists_shared_stages (h : s.Subsystem s') (harg : arg ∉ s'.names)
    (hbound : s.foreign? arg = none) (hbound' : s'.foreign? arg = none) (x dx : α)
    (hy : Shared s s' y y') (hks : List.Forall₂ (Shared s s') ks ks')
    (stages : List (α × List α)) :
    ∃ later later', Stepper.stagesAfter (s.evaluate arg) x dx y ks stages = .ok later ∧
      Stepper.stagesAfter (s'.evaluate arg) x dx y' ks' stages = .ok later' ∧
        List.Forall₂ (Shared s s') later later' := by
  induction stages generalizing ks ks' with
  | nil => exact ⟨ks, ks', rfl, rfl, hks⟩
  | cons stage stages ih =>
    obtain ⟨node, row⟩ := stage
    obtain ⟨k, k', hk, hk', hshared⟩ := exists_shared_derivatives h harg hbound hbound'
      (x + node * dx) (hy.combine row hks)
    obtain ⟨later, later', hlater, hlater', hall⟩ :=
      ih (List.rel_append hks (.cons hshared .nil))
    exact ⟨later, later', bind_eq_ok.mpr ⟨k, hk, hlater⟩, bind_eq_ok.mpr ⟨k', hk', hlater'⟩, hall⟩

theorem shared_results_of_step {pair pair' : StepPair α} (h : s.Subsystem s') (harg : arg ∉ s'.names)
    (hy : Shared s s' y y') (hstep : s.step arg x y dx = .ok pair)
    (hstep' : s'.step arg x y' dx = .ok pair') :
    Shared s s' pair.fifth pair'.fifth ∧ Shared s s' pair.fourth pair'.fourth := by
  have hbound := (evaluable_of_step hstep).bound
  have hbound' := (evaluable_of_step hstep').bound
  obtain ⟨k, k', hk, hk', hshared⟩ := exists_shared_derivatives h harg hbound hbound' x hy
  obtain ⟨ks, ks', hks, hks', hall⟩ := exists_shared_stages h harg hbound hbound' x dx hy
    (.cons hshared .nil)
    ((Tableau.embedded : Tableau α).nodes.zip (Tableau.embedded : Tableau α).rows).tail
  have hpair : s.step arg x y dx = .ok _ :=
    bind_eq_ok.mpr ⟨ks, bind_eq_ok.mpr ⟨k, hk, hks⟩, rfl⟩
  have hpair' : s'.step arg x y' dx = .ok _ :=
    bind_eq_ok.mpr ⟨ks', bind_eq_ok.mpr ⟨k', hk', hks'⟩, rfl⟩
  cases hstep.symm.trans hpair
  cases hstep'.symm.trans hpair'
  exact ⟨hy.combine _ hall, hy.combine _ hall⟩

/-- A step moves the variables of the smaller system as it does in the larger one. -/
theorem shared_of_step {pair pair' : StepPair α} (h : s.Subsystem s') (harg : arg ∉ s'.names)
    (hy : Shared s s' y y') (hstep : s.step arg x y dx = .ok pair)
    (hstep' : s'.step arg x y' dx = .ok pair') : Shared s s' pair.fifth pair'.fifth :=
  (shared_results_of_step h harg hy hstep hstep').1

end Evaluation

end OdeSystem

end Trajectory
