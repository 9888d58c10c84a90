import Trajectory.Proofs.Task.Order
import Trajectory.Task.Reading

namespace Trajectory

variable {α : Type}

theorem Conditions.insertInto_comm {name name' : String} (h : name ≠ name') (value value' : α)
    (entries : List (String × α)) : insertInto name value (insertInto name' value' entries) =
      insertInto name' value' (insertInto name value entries) := by
  induction entries with
  | nil => grind [insertInto]
  | cons e entries ih => grind [insertInto]

/-- The changes that the key of a range makes to it. -/
inductive Range.Write : String → (Range α → Range α) → Prop where
  | arg (arg : String) : Write "arg" fun r => { r with arg }
  | start (start : α) : Write "start" fun r => { r with start }
  | finish (finish : α) : Write "end" fun r => { r with finish }
  | firstStep (firstStep : α) : Write "initial_step" fun r => { r with firstStep }

/-- The changes that the key of a tolerance makes to it. -/
inductive Tolerance.Write : String → (Tolerance α → Tolerance α) → Prop where
  | absolute (absolute : α) : Write "atol" fun t => { t with absolute }
  | relative (relative : α) : Write "rtol" fun t => { t with relative }
  | safety (safety : α) : Write "safety_factor" fun t => { t with safety }
  | minFactor (minFactor : α) : Write "min_factor" fun t => { t with minFactor }
  | maxFactor (maxFactor : α) : Write "max_factor" fun t => { t with maxFactor }
  | minStep (minStep : α) : Write "min_step" fun t => { t with minStep? := some minStep }
  | maxStep (maxStep : α) : Write "max_step" fun t => { t with maxStep? := some maxStep }
  | norm (norm : ErrorNorm) : Write "error_norm" fun t => { t with norm }

theorem Range.Write.commute {key key' : String} {f g : Range α → Range α} (hne : key ≠ key')
    (hf : Write key f) (hg : Write key' g) : Function.Commute f g := by
  cases hf <;> cases hg <;> first | exact absurd rfl hne | exact fun _ => rfl

theorem Tolerance.Write.commute {key key' : String} {f g : Tolerance α → Tolerance α}
    (hne : key ≠ key') (hf : Write key f) (hg : Write key' g) : Function.Commute f g := by
  cases hf <;> cases hg <;> first | exact absurd rfl hne | exact fun _ => rfl

namespace Task

/-- The parts of a task. -/
inductive Place where
  | equations
  | condition (name : String)
  | range
  | tolerance
  | adaptive
  | logLevel
  | logFile
  | csv

/-- The section that a part is read from. -/
def Place.title : Place → String
  | equations => "equations"
  | condition _ => "initial_conditions"
  | range => "range"
  | tolerance => "tolerance"
  | adaptive | logLevel | logFile => "solver"
  | csv => "output"

/-- The key that a part is read from, unless it takes a whole section. -/
def Place.key? : Place → Option String
  | equations => some "eq"
  | condition name => some name
  | range | tolerance => none
  | adaptive => some "adaptive"
  | logLevel => some "log_level"
  | logFile => some "log_file"
  | csv => some "csv"

/-- The changes that are made to a part of a task. -/
inductive Write : Place → (Task α → Task α) → Prop where
  | equations (sources : List String) :
      Write .equations fun t => { t with equations := t.equations ++ sources }
  | condition (name : String) (value : α) :
      Write (.condition name) fun t => { t with conditions := t.conditions.insert name value }
  | range (range : Range α) : Write .range fun t => { t with range? := some range }
  | tolerance (tolerance : Tolerance α) :
      Write .tolerance fun t => { t with tolerance? := some tolerance }
  | adaptive (adaptive : Bool) : Write .adaptive fun t => { t with adaptive }
  | logLevel (level : LevelFilter) : Write .logLevel fun t => { t with logLevel? := some level }
  | logFile (file : String) : Write .logFile fun t => { t with logFile? := some file }
  | csv (file : String) : Write .csv fun t => { t with csv? := some file }

theorem Write.commute {p q : Place} {f g : Task α → Task α} (hne : p ≠ q) (hf : Write p f)
    (hg : Write q g) : Function.Commute f g := by
  cases hf <;> cases hg
  case condition.condition name value name' value' =>
    have hname : name ≠ name' := fun h => hne (congrArg Place.condition h)
    intro t
    have hinsert := Conditions.insertInto_comm hname value value' t.conditions.entries
    simp only [Conditions.insert, hinsert]
  all_goals first | exact absurd rfl hne | exact fun _ => rfl

def EntryChange (title key : String) (f : Task α → Task α) : Prop :=
  ∃ p : Place, p.title = title ∧ p.key? = some key ∧ Write p f

def SectionChange (title : String) : (Task α → Task α) → Prop :=
  Composite fun f => ∃ p : Place, p.title = title ∧ Write p f

theorem EntryChange.commute {title key key' : String} {f g : Task α → Task α} (hne : key ≠ key')
    (hf : EntryChange title key f) (hg : EntryChange title key' g) : Function.Commute f g := by
  obtain ⟨p, _, hp, hf⟩ := hf
  obtain ⟨q, _, hq, hg⟩ := hg
  refine hf.commute (fun h => hne ?_) hg
  rw [h, hq] at hp
  exact (Option.some.inj hp).symm

theorem SectionChange.commute {title title' : String} {f g : Task α → Task α}
    (hne : title ≠ title') (hf : SectionChange title f) (hg : SectionChange title' g) :
    Function.Commute f g := by
  refine Composite.commute hf hg fun f g hf hg => ?_
  obtain ⟨p, hp, hf⟩ := hf
  obtain ⟨q, hq, hg⟩ := hg
  refine hf.commute (fun h => hne ?_) hg
  rw [← hp, ← hq, h]

theorem exists_sectionChange {title : String}
    {read : Task α → String → List (Value α) → Except (SolverError α) (Task α)}
    (hread : Changes read (EntryChange title)) {t u : Task α} {entries : Entries α}
    (h : readEntries read t entries = .ok u) :
    ∃ f, SectionChange title f ∧ ∀ t', readEntries read t' entries = .ok (f t') := by
  obtain ⟨f, hf, hall⟩ := hread.foldlM_composite h
  refine ⟨f, hf.mono fun f hf => ?_, hall⟩
  obtain ⟨key, p, hp, _, hwrite⟩ := hf
  exact ⟨p, hp, hwrite⟩

variable [Numeral α]

theorem readEquations_changes : Changes (readEquations (α := α)) (EntryChange "equations") := by
  intro b c key values h
  unfold readEquations at h
  split at h
  next hkey => exact ⟨_, ⟨.equations, rfl, hkey ▸ rfl, .equations _⟩, fun _ => if_pos hkey⟩
  next => cases h

theorem readSolver_changes : Changes (readSolver (α := α)) (EntryChange "solver") := by
  intro b c key values h
  unfold readSolver at h
  split at h
  next =>
    obtain ⟨x, hx, _⟩ := bind_eq_ok.mp h
    exact ⟨_, ⟨.adaptive, rfl, rfl, .adaptive x⟩, fun _ => bind_eq_ok.mpr ⟨x, hx, rfl⟩⟩
  next =>
    obtain ⟨x, hx, _⟩ := bind_eq_ok.mp h
    exact ⟨_, ⟨.logLevel, rfl, rfl, .logLevel x⟩, fun _ => bind_eq_ok.mpr ⟨x, hx, rfl⟩⟩
  next =>
    obtain ⟨x, hx, _⟩ := bind_eq_ok.mp h
    exact ⟨_, ⟨.logFile, rfl, rfl, .logFile x⟩, fun _ => bind_eq_ok.mpr ⟨x, hx, rfl⟩⟩
  next => cases h

theorem readOutput_changes : Changes (readOutput (α := α)) (EntryChange "output") := by
  intro b c key values h
  unfold readOutput at h
  split at h
  next =>
    obtain ⟨x, hx, _⟩ := bind_eq_ok.mp h
    exact ⟨_, ⟨.csv, rfl, rfl, .csv x⟩, fun _ => bind_eq_ok.mpr ⟨x, hx, rfl⟩⟩
  next => cases h

variable [Scalar α]

theorem readConditions_changes :
    Changes (readConditions (α := α)) (EntryChange "initial_conditions") := by
  intro b c key values h
  obtain ⟨x, hx, _⟩ := bind_eq_ok.mp h
  exact ⟨_, ⟨.condition key, rfl, rfl, .condition key x⟩, fun _ => bind_eq_ok.mpr ⟨x, hx, rfl⟩⟩

theorem readRange_changes : Changes (readRange (α := α)) Range.Write := by
  intro b c key values h
  unfold readRange at h
  split at h
  next =>
    obtain ⟨x, hx, _⟩ := bind_eq_ok.mp h
    exact ⟨_, .arg x, fun _ => bind_eq_ok.mpr ⟨x, hx, rfl⟩⟩
  next =>
    obtain ⟨x, hx, _⟩ := bind_eq_ok.mp h
    exact ⟨_, .start x, fun _ => bind_eq_ok.mpr ⟨x, hx, rfl⟩⟩
  next =>
    obtain ⟨x, hx, _⟩ := bind_eq_ok.mp h
    exact ⟨_, .finish x, fun _ => bind_eq_ok.mpr ⟨x, hx, rfl⟩⟩
  next =>
    obtain ⟨x, hx, _⟩ := bind_eq_ok.mp h
    exact ⟨_, .firstStep x, fun _ => bind_eq_ok.mpr ⟨x, hx, rfl⟩⟩
  next => cases h

theorem readTolerance_changes : Changes (readTolerance (α := α)) Tolerance.Write := by
  intro b c key values h
  unfold readTolerance at h
  dsimp only at h
  split at h
  next =>
    obtain ⟨x, hx, _⟩ := bind_eq_ok.mp h
    exact ⟨_, .absolute x, fun _ => bind_eq_ok.mpr ⟨x, hx, rfl⟩⟩
  next =>
    obtain ⟨x, hx, _⟩ := bind_eq_ok.mp h
    exact ⟨_, .relative x, fun _ => bind_eq_ok.mpr ⟨x, hx, rfl⟩⟩
  next =>
    obtain ⟨x, hx, _⟩ := bind_eq_ok.mp h
    exact ⟨_, .safety x, fun _ => bind_eq_ok.mpr ⟨x, hx, rfl⟩⟩
  next =>
    obtain ⟨x, hx, _⟩ := bind_eq_ok.mp h
    exact ⟨_, .minFactor x, fun _ => bind_eq_ok.mpr ⟨x, hx, rfl⟩⟩
  next =>
    obtain ⟨x, hx, _⟩ := bind_eq_ok.mp h
    exact ⟨_, .maxFactor x, fun _ => bind_eq_ok.mpr ⟨x, hx, rfl⟩⟩
  next =>
    obtain ⟨x, hx, _⟩ := bind_eq_ok.mp h
    exact ⟨_, .minStep x, fun _ => bind_eq_ok.mpr ⟨x, hx, rfl⟩⟩
  next =>
    obtain ⟨x, hx, _⟩ := bind_eq_ok.mp h
    exact ⟨_, .maxStep x, fun _ => bind_eq_ok.mpr ⟨x, hx, rfl⟩⟩
  next =>
    obtain ⟨x, hx, _⟩ := bind_eq_ok.mp h
    exact ⟨_, .norm x, fun _ => bind_eq_ok.mpr ⟨x, hx, rfl⟩⟩
  next => cases h

theorem readSection_changes : Changes (readSection (α := α)) SectionChange := by
  intro b c title entries h
  unfold readSection at h
  split at h
  next => exact exists_sectionChange readEquations_changes h
  next => exact exists_sectionChange readConditions_changes h
  next =>
    obtain ⟨r, hr, h⟩ := bind_eq_ok.mp h
    obtain ⟨checked, hchecked, _⟩ := bind_eq_ok.mp h
    exact ⟨_, .one ⟨.range, rfl, .range checked⟩, fun _ =>
      bind_eq_ok.mpr ⟨r, hr, bind_eq_ok.mpr ⟨checked, hchecked, rfl⟩⟩⟩
  next =>
    obtain ⟨tolerance, htolerance, h⟩ := bind_eq_ok.mp h
    obtain ⟨_, hvalid, _⟩ := bind_eq_ok.mp h
    exact ⟨_, .one ⟨.tolerance, rfl, .tolerance tolerance⟩, fun _ =>
      bind_eq_ok.mpr ⟨tolerance, htolerance, bind_eq_ok.mpr ⟨(), hvalid, rfl⟩⟩⟩
  next => exact exists_sectionChange readSolver_changes h
  next => exact exists_sectionChange readOutput_changes h
  next => cases h

theorem readSection_perm {t u : Task α} {title : String} {entries entries' : Entries α}
    (hkeys : (entries.list.map Prod.fst).Nodup) (h : entries.list.Perm entries'.list)
    (hread : readSection t title entries = .ok u) : readSection t title entries' = .ok u := by
  unfold readSection at hread ⊢
  split at hread
  next => exact readEquations_changes.foldlM_perm (fun _ _ _ _ => EntryChange.commute) h hkeys hread
  next => exact readConditions_changes.foldlM_perm (fun _ _ _ _ => EntryChange.commute) h hkeys hread
  next =>
    obtain ⟨r, hr, hrest⟩ := bind_eq_ok.mp hread
    have hr' := readRange_changes.foldlM_perm (fun _ _ _ _ => Range.Write.commute) h hkeys hr
    exact bind_eq_ok.mpr ⟨r, hr', hrest⟩
  next =>
    obtain ⟨tol, htol, hrest⟩ := bind_eq_ok.mp hread
    have htol' := readTolerance_changes.foldlM_perm (fun _ _ _ _ => Tolerance.Write.commute) h hkeys htol
    exact bind_eq_ok.mpr ⟨tol, htol', hrest⟩
  next => exact readSolver_changes.foldlM_perm (fun _ _ _ _ => EntryChange.commute) h hkeys hread
  next => exact readOutput_changes.foldlM_perm (fun _ _ _ _ => EntryChange.commute) h hkeys hread
  next => cases hread

end Task

end Trajectory
