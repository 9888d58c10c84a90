import Trajectory.Decimal.Binary64
import Trajectory.Proofs.OdeSystem.Reduction
import Trajectory.Proofs.Solver.Announcement
import Trajectory.Proofs.Solver.Stages
import Trajectory.Proofs.Task.Settings

namespace Trajectory

theorem Act.bind_congr {p : Protocol} {β γ : Type} {act act' : Act p β} {f : β → Act p γ}
    {w v : World p} (h : act w = act' v) : (act >>= f) w = (act' >>= f) v := by
  cases hact : act' v with
  | ok b u => rw [bind_of_ok (h.trans hact), bind_of_ok hact]
  | error halt u => rw [bind_of_error (h.trans hact), bind_of_error hact]

namespace Session

open Delivery (deliver)

variable {α μ : Type}

/-- Nobody is subscribed to anything. -/
def Deserted (w : World (protocol α μ)) : Prop := ∀ c, (w.hub c).subscribers = []

theorem Deserted.of_hub {w u : World (protocol α μ)} (hw : Deserted w) (h : u.hub = w.hub) :
    Deserted u := by
  unfold Deserted
  rw [h]
  exact hw

theorem hub_createLogFile (settings : LogSettings) :
    (createLogFile (α := α) (μ := μ) settings).Keeps fun w v => v.hub = w.hub := by
  have htrans (u v w : World (protocol α μ)) (huv : v.hub = u.hub) (hvw : w.hub = v.hub) :
      w.hub = u.hub := hvw.trans huv
  unfold createLogFile
  split
  next => exact fun _ => rfl
  next =>
    refine .bind htrans (fun _ => rfl) fun files => ?_
    split
    next => exact .bind htrans (fun _ => rfl) fun _ _ => rfl
    next => exact .bind htrans (fun _ => rfl) fun _ _ => rfl

theorem hub_changeLogSettings (f : LogSettings → LogSettings) :
    (changeLogSettings (α := α) (μ := μ) f).Keeps fun w v => v.hub = w.hub := by
  have htrans (u v w : World (protocol α μ)) (huv : v.hub = u.hub) (hvw : w.hub = v.hub) :
      w.hub = u.hub := hvw.trans huv
  refine .bind htrans (fun _ => rfl) fun _ => .bind htrans (fun _ => rfl) fun s => ?_
  refine .bind htrans (hub_createLogFile s.logSettings) fun location? => ?_
  split
  · exact fun _ => rfl
  · split <;> exact fun _ => rfl

theorem exists_changeLogSettings (fs : List (LogSettings → LogSettings))
    (w : World (protocol α μ)) :
    ∃ v, fs.forM changeLogSettings w = .ok () v ∧ Aside w v ∧ v.hub = w.hub := by
  induction fs generalizing w with
  | nil => exact ⟨w, rfl, ⟨rfl, rfl⟩, rfl⟩
  | cons f fs ih =>
    obtain ⟨_, u, hfirst, haside⟩ := quiet_changeLogSettings f w
    have hhub := hub_changeLogSettings f w
    rw [Act.after_of_ok hfirst] at hhub
    obtain ⟨v, hlater, haside', hhub'⟩ := ih u
    exact ⟨v, (Act.bind_of_ok hfirst).trans hlater, haside.trans haside', hhub'.trans hhub⟩

variable [Scalar α] [Numeral α]

theorem exists_setEquations (sources : List String) (w : World (protocol α μ)) :
    ∃ u, LogsMore w u ∧ ∀ publish : Publish α μ,
      setEquations publish sources w = change publish (fun s => s.setEquations sources) u := by
  cases hrunning : w.state.solver.running with
  | true =>
    refine ⟨w, .refl w, fun publish => ?_⟩
    refine (Act.bind_of_ok rfl).trans ?_
    rw [if_neg (by simp [hrunning])]
  | false =>
    let notices := OdeSystem.reductionNotices (α := α) sources
    refine ⟨{ w with log := w.log.addAll (notices.map OdeSystem.Notice.line) }, ⟨rfl, rfl, rfl⟩,
      fun publish => (Act.bind_of_ok rfl).trans ?_⟩
    rw [if_pos (by simp [hrunning])]
    exact Act.bind_of_ok rfl

theorem exists_apply (t : Task α) (w : World (protocol α μ)) :
    ∃ u, Aside w u ∧ u.hub = w.hub ∧ ∀ publish : Publish α μ,
      t.apply publish w = Task.inOrder (t.changes.map (change publish)) u := by
  obtain ⟨v, hlog, haside, hhub⟩ := exists_changeLogSettings t.logChanges w
  obtain ⟨u, hlogs, hset⟩ := exists_setEquations t.equations v
  refine ⟨u, haside.trans ⟨?_, hlogs.history⟩, hlogs.hub.trans hhub, fun publish => ?_⟩
  · rw [hlogs.state]
  · rw [t.apply_eq publish]
    exact (Act.bind_of_ok hlog).trans (Act.bind_congr (hset publish))

section Deserted

variable {calls d : Nat} {w : World (protocol α μ)}

theorem deliver_of_deserted (hw : Deserted w) (calls d : Nat) (c : Solver.Channel)
    (e : Solver.Payload α c) :
    deliver (answer α μ) calls d c e w = .ok 0 (w.record (.published d c e)) := by
  let v := w.record (.published d c e)
  have hrecord : (Act.record (.published d c e) : Action α μ Unit) w = .ok () v := rfl
  have hbus : (Act.bus c : Action α μ _) v = .ok (w.hub c) v := rfl
  cases calls with
  | zero =>
    refine (Act.bind_of_ok hrecord).trans ((Act.bind_of_ok hbus).trans ?_)
    rw [hw c]
    rfl
  | succ calls =>
    refine (Act.bind_of_ok hrecord).trans ((Act.bind_of_ok hbus).trans ?_)
    rw [hw c]
    rfl

theorem change_of_deserted (hw : Deserted w) {f : Solver α → Except (SolverError α) (Change α)}
    {c : Change α} (h : f w.state.solver = .ok c) :
    change (deliver (answer α μ) calls d) f w = .ok (.ok ())
      ((withSolver w c.solver).record (.published d c.event.channel c.event.payload)) := by
  have hdesert : Deserted (withSolver w c.solver) := hw
  exact (change_of_ok h).trans (Act.bind_of_ok (deliver_of_deserted hdesert calls d _ _))

/-- Where nobody is told of them, changes come to what they make of the solver. -/
theorem inOrder_of_deserted (fs : List (Solver α → Except (SolverError α) (Change α)))
    (hw : Deserted w) (calls d : Nat) : ∃ v,
      Task.inOrder (fs.map (change (deliver (answer α μ) calls d))) w =
        .ok ((w.state.solver.afterChanges fs).map fun _ => ()) v ∧
      ∀ s, w.state.solver.afterChanges fs = .ok s → v.state.solver = s := by
  induction fs generalizing w with
  | nil => exact ⟨w, rfl, fun s h => Except.ok.inj h⟩
  | cons f fs ih =>
    rw [List.map_cons, Solver.afterChanges, List.foldlM_cons]
    cases hf : f w.state.solver with
    | error e =>
      refine ⟨w, (Act.bind_of_ok (change_of_error hf)).trans rfl, fun s h => ?_⟩
      cases h
    | ok c =>
      obtain ⟨v, hlater, hafter⟩ := ih (w := (withSolver w c.solver).record
        (.published d c.event.channel c.event.payload)) hw
      exact ⟨v, (Act.bind_of_ok (change_of_deserted hw hf)).trans hlater, hafter⟩

/-- A task is accepted if its equations and its conditions are, as long as nobody is told of it. Then
the solver has what the task sets, and what it had where the task sets nothing. -/
theorem apply_of_deserted [Scalar.Usual α] {source : String} {t : Task α}
    (ht : Task.ofText source = .ok t) (hw : Reachable w) (hidle : w.state.solver.running = false)
    (hdeserted : Deserted w) (calls d : Nat) :
    ∃ r v, t.apply (deliver (answer α μ) calls d) w = .ok r v ∧
      (r = .ok () ↔ ∃ system : OdeSystem α, OdeSystem.reduce t.equations = .ok system ∧
        ∀ entry ∈ t.conditions.entries, entry.1 ∈ system.names ∧ Scalar.isFinite entry.2 = true) ∧
      (r = .ok () → ∃ system : OdeSystem α, OdeSystem.reduce t.equations = .ok system ∧
        v.state.solver.system? = some system ∧ v.state.solver.names = system.names ∧
        v.state.solver.conditions = t.conditions ∧
        v.state.solver.range = t.range?.getD w.state.solver.range ∧
        v.state.solver.tolerance = t.tolerance?.getD w.state.solver.tolerance) := by
  obtain ⟨u, haside, hhub, happly⟩ := exists_apply t w
  have hready : u.state.solver.Ready := by
    rw [haside.solver]
    exact ⟨hidle, lasting_validated.of_reachable hw⟩
  have hsound := Task.sound_of_ofText ht
  obtain ⟨v, hchanges, hafter⟩ := inOrder_of_deserted t.changes (hdeserted.of_hub hhub) calls d
  refine ⟨_, v, (happly _).trans hchanges, ?_⟩
  cases hall : u.state.solver.afterChanges t.changes with
  | error e =>
    refine ⟨iff_of_false nofun fun ⟨system, hreduce, hconditions⟩ => ?_, nofun⟩
    have hmade := (Task.afterChanges_changes hready hsound).mpr ⟨system, hreduce, hconditions, rfl⟩
    cases hall.symm.trans hmade
  | ok s =>
    obtain ⟨system, hreduce, hconditions, hs⟩ := (Task.afterChanges_changes hready hsound).mp hall
    refine ⟨iff_of_true rfl ⟨system, hreduce, hconditions⟩, fun _ => ⟨system, hreduce, ?_⟩⟩
    have hrange : u.state.solver.range = w.state.solver.range := by rw [haside.solver]
    have htolerance : u.state.solver.tolerance = w.state.solver.tolerance := by rw [haside.solver]
    rw [hafter s hall, hs, hrange, htolerance]
    exact ⟨rfl, rfl, rfl, rfl, rfl⟩

end Deserted

/-- An oscillator, with tolerances whose bounds are beyond the ones that a fresh solver has. -/
def coarseSource : String :=
  "equations\neq: y'' = -y\ninitial_conditions\ny: 1\ny_1: 0\nrange\nstart: 2\nend: 20\n" ++
    "tolerance\nmin_factor: 6\nmax_factor: 8\nmin_step: 1\nmax_step: 4\nerror_norm: max"

theorem apply_of_deserted_coarse : ∃ (t : Task Float) (v : World (protocol Float Unit)),
    Task.ofText coarseSource = .ok t ∧ Deserted (newWorld {} () : World (protocol Float Unit)) ∧
      t.apply (deliver (answer Float Unit) 0 0) (newWorld {} ()) = .ok (.ok ()) v ∧
        v.state.solver.names = ["y", "y_1"] ∧ t.tolerance? = some v.state.solver.tolerance := by
  have hcomputed : (Task.ofText coarseSource : Except (SolverError Float) (Task Float)).toOption.any
      (fun t => t.tolerance?.isSome &&
        (OdeSystem.reduce (α := Float) t.equations).toOption.any fun system =>
          system.names == ["y", "y_1"] && t.conditions.entries.all fun entry =>
            system.names.contains entry.1 && Scalar.isFinite entry.2) = true := by
    decide +kernel
  obtain ⟨t, ht, hcomputed⟩ := (Option.any_eq_true _ _).mp hcomputed
  have htask := toOption_eq_some ht
  obtain ⟨hsome, hcomputed⟩ := Bool.and_eq_true_iff.mp hcomputed
  obtain ⟨system, hsystem, hcomputed⟩ := (Option.any_eq_true _ _).mp hcomputed
  have hreduce := toOption_eq_some hsystem
  obtain ⟨hnames, hall⟩ := Bool.and_eq_true_iff.mp hcomputed
  have hconditions : ∀ entry ∈ t.conditions.entries,
      entry.1 ∈ system.names ∧ Scalar.isFinite entry.2 = true := fun entry hentry => by
    simpa using List.all_eq_true.mp hall entry hentry
  have hdeserted : Deserted (newWorld {} () : World (protocol Float Unit)) := fun _ => rfl
  obtain ⟨r, v, happly, hiff, hfields⟩ := apply_of_deserted htask (.new {} () .foreign) rfl hdeserted 0 0
  obtain rfl := hiff.mpr ⟨system, hreduce, hconditions⟩
  obtain ⟨system', hreduce', _, hnames', _, _, htolerance⟩ := hfields rfl
  obtain rfl := Except.ok.inj (hreduce.symm.trans hreduce')
  obtain ⟨tol, htol⟩ := Option.isSome_iff_exists.mp hsome
  refine ⟨t, v, htask, hdeserted, happly, hnames'.trans (eq_of_beq hnames), ?_⟩
  rw [htolerance, htol]
  rfl

section Refused

variable {calls d : Nat} {w : World (protocol α μ)}

omit [Scalar α] [Numeral α] in
theorem refused_of_inOrder {publish : Publish α μ}
    {fs : List (Solver α → Except (SolverError α) (Change α))} {v : World (protocol α μ)}
    {e : SolverError α} (h : Task.inOrder (fs.map (change publish)) w = .ok (.error e) v) :
    ∃ before f later, fs = before ++ f :: later ∧
      Task.inOrder (before.map (change publish)) w = .ok (.ok ()) v ∧ f v.state.solver = .error e := by
  induction fs generalizing w with
  | nil => cases h
  | cons f fs ih =>
    obtain ⟨done, u, hchange, h⟩ := Act.bind_eq_ok_iff.mp h
    cases hf : f w.state.solver with
    | error e' =>
      cases (change_of_error hf).symm.trans hchange
      cases h
      exact ⟨[], f, fs, rfl, rfl, hf⟩
    | ok c =>
      obtain ⟨n, u', _, hdone⟩ := Act.bind_eq_ok_iff.mp ((change_of_ok hf).symm.trans hchange)
      cases hdone
      obtain ⟨before, g, later, rfl, hbefore, hg⟩ := ih h
      exact ⟨f :: before, g, later, rfl, (Act.bind_of_ok hchange).trans hbefore, hg⟩

omit [Numeral α] in
theorem refused_equations {s : Solver α} {sources : List String} {e : SolverError α}
    (h : s.setEquations sources = .error e) :
    s.running = true ∨ ∃ fault, OdeSystem.reduce (α := α) sources = .error fault := by
  cases hrunning : s.running with
  | true => exact .inl rfl
  | false =>
    obtain ⟨fault, hfault, _⟩ := (OdeSystem.setEquations_eq_error_iff hrunning).mp h
    exact .inr ⟨fault, hfault⟩

/-- Past its equations a task can only be refused for its conditions. -/
theorem eq_of_refused [Scalar.Usual α] {t : Task α} (ht : t.Sound) (hw : w.state.solver.Ready)
    {before later : List (Solver α → Except (SolverError α) (Change α))}
    {f : Solver α → Except (SolverError α) (Change α)} {v : World (protocol α μ)} {e : SolverError α}
    (hlater : t.conditionChanges ++ t.settingChanges = before ++ f :: later)
    (hbefore : Task.inOrder (((fun s => s.setEquations t.equations) :: before).map
      (change (deliver (answer α μ) calls d))) w = .ok (.ok ()) v)
    (hf : f v.state.solver = .error e) :
    before = [] ∧ f = fun s => s.setConditions t.conditions := by
  have hready : v.state.solver.Ready := by
    refine ready_of_inOrder (fun g hg => Task.setting_of_changes (t := t) ?_) hbefore hw
    rw [Task.changes, hlater]
    exact List.mem_append_left _ hg
  refine Task.eq_of_conditionChanges hlater fun hmem => ?_
  obtain ⟨c, hc⟩ := Task.exists_settingChange hready ht hmem
  cases hf.symm.trans hc

/-- A task is refused at once, because of a run or its equations, and then nothing is changed, or else
for its conditions. Then its equations are there already, and the old conditions are gone. -/
theorem apply_refused [Scalar.Usual α] {source : String} {t : Task α}
    (ht : Task.ofText source = .ok t) (hw : Reachable w ∨ InProgress w) {v : World (protocol α μ)}
    {e : SolverError α} (h : t.apply (deliver (answer α μ) calls d) w = .ok (.error e) v) :
    ((w.state.solver.running = true ∨
          ∃ fault, OdeSystem.reduce (α := α) t.equations = .error fault) ∧
        SameSettings w.state.solver v.state.solver) ∨
      ∃ system, OdeSystem.reduce t.equations = .ok system ∧
        v.state.solver.setConditions t.conditions = .error e ∧
        (Deserted w → SameSettings { w.state.solver with system? := some system, conditions := .empty }
          v.state.solver) := by
  obtain ⟨u, haside, hhub, happly⟩ := exists_apply t w
  obtain ⟨before, f, later, hchanges, hbefore, hf⟩ := refused_of_inOrder ((happly _).symm.trans h)
  have hrunning : u.state.solver.running = w.state.solver.running := by rw [haside.solver]
  have hrange : u.state.solver.range = w.state.solver.range := by rw [haside.solver]
  have htolerance : u.state.solver.tolerance = w.state.solver.tolerance := by rw [haside.solver]
  cases before with
  | nil =>
    -- The first change is refused, which is that of the equations.
    left
    cases hbefore
    rw [← (List.cons.inj hchanges).1] at hf
    refine ⟨hrunning ▸ refused_equations hf, ?_⟩
    rw [haside.solver]
    exact ⟨rfl, rfl, rfl, rfl⟩
  | cons g before =>
    right
    obtain ⟨rfl, hlater⟩ := List.cons.inj hchanges
    obtain ⟨_, u', hset, hrest⟩ := Act.bind_eq_ok_iff.mp hbefore
    cases hequations : u.state.solver.setEquations t.equations with
    | error e' =>
      cases (change_of_error hequations).symm.trans hset
      cases hrest
    | ok c =>
      obtain ⟨hidle, _⟩ := (Setting.equations t.equations).changed hequations
      obtain ⟨system, hreduce, rfl⟩ := (Solver.setEquations_eq_ok_iff hidle).mp hequations
      -- Equations are refused during a run, so that none is in progress here.
      have hreachable : Reachable w := hw.resolve_right fun hprogress => by
        rw [hrunning, show w.state.solver.running = true from hprogress] at hidle
        cases hidle
      have hready : u.state.solver.Ready :=
        ⟨hidle, htolerance ▸ lasting_validated.of_reachable hreachable⟩
      obtain ⟨rfl, rfl⟩ := eq_of_refused (Task.sound_of_ofText ht) hready hlater hbefore hf
      refine ⟨system, hreduce, hf, fun hdeserted => ?_⟩
      cases (change_of_deserted (hdeserted.of_hub hhub) hequations).symm.trans hset
      cases hrest
      exact ⟨rfl, rfl, hrange, htolerance⟩

end Refused

/-- An equation with a condition that is no number to begin with. -/
def rashSource : String := "equations\neq: y' = y\ninitial_conditions\ny: inf"

/-- A session with another equation and a condition for it. -/
def settledWorld : World (protocol Float Unit) :=
  (ask 0 (.setConditions (.ofList [("z", Scalar.one)]))).after
    ((ask 0 (.setEquations ["z' = 1"])).after (newWorld {} ()))

theorem reachable_settledWorld : Reachable settledWorld :=
  .answered (.answered (.new {} () .foreign) 0 0 0 (.setEquations ["z' = 1"])) 0 0 0
    (.setConditions (.ofList [("z", Scalar.one)]))

/-- Why something is refused, with the world after it. -/
def refused? {β : Type} : EStateM.Result Halt (World (protocol α μ)) (Result α β) →
    Option (SolverError α × World (protocol α μ))
  | .ok (.error e) v => some (e, v)
  | _ => none

omit [Scalar α] [Numeral α] in
theorem eq_error_of_refused {β : Type} {r : EStateM.Result Halt (World (protocol α μ)) (Result α β)}
    {e : SolverError α} {v : World (protocol α μ)} (h : refused? r = some (e, v)) :
    r = .ok (.error e) v := by
  unfold refused? at h
  split at h
  next =>
    cases h
    rfl
  next => cases h

theorem exists_rash_apply : ∃ (t : Task Float) (e : SolverError Float)
    (v : World (protocol Float Unit)), Task.ofText rashSource = .ok t ∧
      t.apply (deliver (answer Float Unit) 0 0) settledWorld = .ok (.error e) v ∧
        v.state.solver.names = ["y"] := by
  have hcomputed : (Task.ofText rashSource : Except (SolverError Float) (Task Float)).toOption.any
      (fun t => (refused? (t.apply (deliver (answer Float Unit) 0 0) settledWorld)).any fun r =>
        r.2.state.solver.names == ["y"]) = true := by
    decide +kernel
  obtain ⟨t, ht, hcomputed⟩ := (Option.any_eq_true _ _).mp hcomputed
  obtain ⟨⟨e, v⟩, hrefused, hnames⟩ := (Option.any_eq_true _ _).mp hcomputed
  exact ⟨t, e, v, toOption_eq_some ht, eq_error_of_refused hrefused, eq_of_beq hnames⟩

theorem apply_refused_rash : ∃ (t : Task Float) (e : SolverError Float)
    (v : World (protocol Float Unit)) (system : OdeSystem Float),
    Task.ofText rashSource = .ok t ∧ Reachable settledWorld ∧ Deserted settledWorld ∧
      t.apply (deliver (answer Float Unit) 0 0) settledWorld = .ok (.error e) v ∧
        system.names = ["y"] ∧ v.state.solver.setConditions t.conditions = .error e ∧
          SameSettings { settledWorld.state.solver with system? := some system, conditions := .empty }
            v.state.solver := by
  obtain ⟨t, e, v, ht, happly, hnames⟩ := exists_rash_apply
  have hnobody (c : Solver.Channel) : (settledWorld.hub c).subscribers.isEmpty = true := by
    cases c <;> decide +kernel
  have hdeserted : Deserted settledWorld := fun c => List.isEmpty_iff.mp (hnobody c)
  have hbefore : settledWorld.state.solver.names = ["z"] := by decide +kernel
  rcases apply_refused ht (.inl reachable_settledWorld) happly with
    ⟨_, hsame⟩ | ⟨system, _, hrefused, hafter⟩
  · rw [Solver.names, hsame.system] at hnames
    exact absurd (hbefore.symm.trans hnames) (by decide)
  · have hsettings := hafter hdeserted
    rw [Solver.names, hsettings.system] at hnames
    exact ⟨t, e, v, system, ht, reachable_settledWorld, hdeserted, happly, hnames, hrefused, hsettings⟩

/-- A task that is refused can leave the solver with its own equations instead of the old ones. -/
theorem apply_half_done : ∃ (t : Task Float) (e : SolverError Float)
    (v : World (protocol Float Unit)), Task.ofText rashSource = .ok t ∧ Reachable settledWorld ∧
      t.apply (deliver (answer Float Unit) 0 0) settledWorld = .ok (.error e) v ∧
        ¬ SameSettings settledWorld.state.solver v.state.solver := by
  obtain ⟨t, e, v, ht, happly, hnames⟩ := exists_rash_apply
  have hbefore : settledWorld.state.solver.names = ["z"] := by decide +kernel
  refine ⟨t, e, v, ht, reachable_settledWorld, happly, fun hsame => ?_⟩
  rw [Solver.names, hsame.system] at hnames
  exact absurd (hbefore.symm.trans hnames) (by decide)

end Session

end Trajectory
