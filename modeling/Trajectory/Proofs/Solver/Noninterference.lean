import Trajectory.Proofs.OdeSystem.Subsystem
import Trajectory.Proofs.Solver.Running
import Trajectory.Proofs.Solver.Stages
import Trajectory.Proofs.Stepper.Evaluable

namespace Trajectory

variable {α : Type}

namespace Point

/-- Two points with one argument, and with one value for each of the names. -/
structure Agree (names : List String) (p p' : Point α) : Prop where
  argument : ∃ x, p.x? = some x ∧ p'.x? = some x
  values : ∀ name ∈ names, ∃ value, p.get? (ε := Empty) name = .ok (some value) ∧
    p'.get? (ε := Empty) name = .ok (some value)

theorem get?_of_map {ε : Type} {names : List String} {values : List α} {value? : String → Option α}
    (h : names.map value? = values.map some) {name : String} (hname : name ∈ names) :
    (Point.mk names values).get? (ε := ε) name = .ok (value? name) := by
  cases hfind : names.findIdx? (fun n => n == name) with
  | none => simpa using List.findIdx?_eq_none_iff.mp hfind name hname
  | some i =>
    obtain ⟨hi, hfound, _⟩ := List.findIdx?_eq_some_iff_getElem.mp hfind
    have hentry := congrArg (fun l => l[i]?) h
    simp only [List.getElem?_map, List.getElem?_eq_getElem hi, eq_of_beq hfound,
      Option.map_some] at hentry
    obtain ⟨v, hv, hvalue⟩ := Option.map_eq_some_iff.mp hentry.symm
    unfold get?
    rw [← hvalue]
    simp only [hfind]
    exact bind_eq_ok.mpr ⟨v, slot_eq_ok_iff.mpr hv, rfl⟩

end Point

theorem Solver.Prepared.slot [Scalar α] {t : Solver α} {setup : Setup α} (h : Prepared t setup)
    {v : Variable} (hv : v ∈ setup.system.vars) :
    setup.y[setup.system.slot v]? = t.conditions.get? v.name := by
  have hvar : setup.system.vars[setup.system.slot v]? = some v := List.getElem?_idxOf hv
  have hentry := congrArg (fun l => l[setup.system.slot v]?) h.state
  simp only [OdeSystem.names, List.getElem?_map, hvar, Option.map_some] at hentry
  obtain ⟨u, hu, hvalue⟩ := Option.map_eq_some_iff.mp hentry.symm
  rw [hu, hvalue]

namespace Controller

/-- Controllers in fixed steps that stand at one place of one range, the second with a system that takes
in that of the first. -/
structure Beside (c c' : Controller α) : Prop where
  subsystem : c.system.Subsystem c'.system
  arg : c'.arg = c.arg
  argument : c'.arg ∉ c'.system.names
  fixed : c.adaptive = false
  fixed' : c'.adaptive = false
  finish : c'.finish = c.finish
  x : c'.x = c.x
  h : c'.h = c.h
  y : OdeSystem.Shared c.system c'.system c.y c'.y

theorem get?_of_pointAt {c : Controller α} {p : Point α} (hs : c.system.Distinct)
    (harg : c.arg ∉ c.system.names) (hy : c.y.length = c.system.size)
    (h : Session.pointAt c = .ok p) {e : Equation α} (he : e ∈ c.system.equations) :
    p.get? (ε := Empty) e.base.toString = .ok c.y[c.system.slot ⟨e.base, 0⟩]? := by
  obtain ⟨values, hselect, rfl⟩ := Session.of_pointAt h
  have hvar : ⟨e.base, 0⟩ ∈ c.system.vars := OdeSystem.mem_vars.mpr ⟨e, he, rfl, e.order_pos⟩
  have hbases := OdeSystem.select_baseIndices (OdeSystem.scope_names (x := c.x) hs harg hy) hselect
  have hall : (Session.pointNames c).map (c.system.scope c.arg c.x c.y).get? =
      (c.x :: values).map some := by
    rw [Session.pointNames, List.map_cons, List.map_cons, hbases, OdeSystem.scope_argument hy]
  have hname : e.base.toString ∈ Session.pointNames c :=
    List.mem_cons_of_mem _ (List.mem_map_of_mem he)
  rw [Point.get?_of_map hall hname]
  exact congrArg _ (OdeSystem.scope_bound hs harg hy hvar)

theorem agree_of_shared {c c' : Controller α} {p p' : Point α} (hs : c.system.Subsystem c'.system)
    (harg : c'.arg = c.arg) (hargument : c'.arg ∉ c'.system.names) (hx : c'.x = c.x)
    (hy : OdeSystem.Shared c.system c'.system c.y c'.y) (hpoint : Session.pointAt c = .ok p)
    (hpoint' : Session.pointAt c' = .ok p') : p.Agree c.system.baseNames p' where
  argument := ⟨c.x, Session.eq_of_pointAt hpoint, hx ▸ Session.eq_of_pointAt hpoint'⟩
  values name hname := by
    obtain ⟨e, he, rfl⟩ := List.mem_map.mp hname
    have hvar : ⟨e.base, 0⟩ ∈ c.system.vars := OdeSystem.mem_vars.mpr ⟨e, he, rfl, e.order_pos⟩
    have hargument' : c.arg ∉ c.system.names := fun hmem => hargument (harg ▸ hs.names hmem)
    have hlt : c.system.slot ⟨e.base, 0⟩ < c.y.length :=
      hy.size ▸ List.idxOf_lt_length_iff.mpr hvar
    have hget := get?_of_pointAt hs.distinct hargument' hy.size hpoint he
    have hget' := get?_of_pointAt hs.distinct' hargument hy.size' hpoint' (hs.equations he)
    rw [← hy.slots _ hvar] at hget'
    rw [List.getElem?_eq_getElem hlt] at hget hget'
    exact ⟨_, hget, hget'⟩

theorem Beside.agree {c c' : Controller α} (h : c.Beside c') {p p' : Point α}
    (hpoint : Session.pointAt c = .ok p) (hpoint' : Session.pointAt c' = .ok p') :
    p.Agree c.system.baseNames p' :=
  agree_of_shared h.subsystem h.arg h.argument h.x h.y hpoint hpoint'

variable [Scalar α] {c c' : Controller α}

/-- Accepted steps of a fixed size keep controllers side by side: the larger system only has more slots
to fill. -/
theorem Beside.advance (h : c.Beside c') {tries tries' : Nat} {s s' : AcceptedStep α}
    (hstep : (c.advance tries).outcome = .step s) (hstep' : (c'.advance tries').outcome = .step s') :
    (c.advance tries).controller.Beside (c'.advance tries').controller := by
  obtain ⟨pair, hpair, hmoved, _⟩ := advance_of_fixed h.fixed hstep
  obtain ⟨pair', hpair', hmoved', _⟩ := advance_of_fixed h.fixed' hstep'
  have hsize : c'.nextSize = c.nextSize := by simp only [nextSize, h.finish, h.x, h.h]
  have hmade := step_of_nextPair hpair
  have hmade' := step_of_nextPair hpair'
  rw [hsize, h.x, h.arg] at hmade'
  rw [hmoved, hmoved', hsize]
  exact
    { subsystem := h.subsystem
      arg := h.arg
      argument := h.argument
      fixed := h.fixed
      fixed' := h.fixed'
      finish := h.finish
      x := by simp only [moved, h.finish, h.x]
      h := h.h
      y := OdeSystem.shared_of_step h.subsystem (h.arg ▸ h.argument) h.y hmade hmade' }

theorem Beside.finished (h : c.Beside c') : c'.finished = c.finished := by
  simp only [Controller.finished, h.finish, h.x]

theorem beside_of_start {s s' : OdeSystem α} {r : Range α} {t t' : Tolerance α} {y y' : List α}
    (hs : s.Subsystem s') (harg : r.arg ∉ s'.names) (hy : OdeSystem.Shared s s' y y')
    (h : start s r t y false = .ok c) (h' : start s' r t' y' false = .ok c') : c.Beside c' := by
  have hstarted := started_of_start h
  have hstarted' := started_of_start h'
  have hh : c'.h = c.h := (hstarted'.fixed rfl).trans (hstarted.fixed rfl).symm
  rw [hstarted.fields, hstarted'.fields]
  exact ⟨hs, rfl, harg, rfl, rfl, rfl, rfl, hh, hy⟩

end Controller

namespace Session

variable [Scalar α]

/-- Controllers that stand side by side go over points that agree, to the end of their range. -/
theorem Way.agree {c c' last last' : Controller α} {points points' : List (Point α)}
    (h : c.Beside c') (hway : Way c points last) (hway' : Way c' points' last')
    (hend : last.finished = true) (hend' : last'.finished = true) :
    List.Forall₂ (Point.Agree c.system.baseNames) points points' := by
  -- Both ways stop at the end of one range, so neither of them can be the longer one.
  induction hway generalizing c' points' with
  | refl c =>
    rw [hway'.eq_nil_of_finished (h.finished.trans hend)]
    exact .nil
  | @step c last tries s point points hgo houtcome hpoint _ ih =>
    cases hway' with
    | refl =>
      rw [h.finished, hgo] at hend'
      cases hend'
    | step _ houtcome' hpoint' hlater' =>
      have hnext := h.advance houtcome houtcome'
      rw [← (c.moves_advance tries).system]
      exact .cons (hnext.agree hpoint hpoint') (ih hnext hlater' hend)

variable [Numeral α] {μ μ' : Type}

/-- Two sessions, the second with further equations or with the equations in another order, give runs
in fixed steps whose points agree one by one, if both runs come to the end of the range. -/
theorem fixed_runs_agree {sources sources' : List String} {s s' : OdeSystem α}
    {w v : World (protocol α μ)} {w' v' : World (protocol α μ')} {calls calls' fuel fuel' d d' : Nat}
    {points points' : List (Point α)} (hsources : sources ⊆ sources')
    (hreduce : OdeSystem.reduce sources = .ok s) (hreduce' : OdeSystem.reduce sources' = .ok s')
    (hsystem : w.state.solver.system? = some s) (hsystem' : w'.state.solver.system? = some s')
    (hrange : w'.state.solver.range = w.state.solver.range)
    (hconditions : ∀ name ∈ s.names,
      w'.state.solver.conditions.get? name = w.state.solver.conditions.get? name)
    (hrun : run (Delivery.deliver (answer α μ) calls d) fuel false w = .ok (.ok points) v)
    (hrun' : run (Delivery.deliver (answer α μ') calls' d') fuel' false w' = .ok (.ok points') v')
    (hstatus : v.state.solver.status ≠ .canceled) (hstatus' : v'.state.solver.status ≠ .canceled) :
    List.Forall₂ (Point.Agree s.baseNames) points points' := by
  obtain ⟨setup, c, point, later, last, hprepare, hstart, hpoint, hpoints, hway, hend⟩ :=
    completed_of_run (idle_of_run hrun) hrun hstatus
  obtain ⟨setup', c', point', later', last', hprepare', hstart', hpoint', hpoints', hway', hend'⟩ :=
    completed_of_run (idle_of_run hrun') hrun' hstatus'
  have hprepared := Solver.prepared_of_prepare hprepare
  have hprepared' := Solver.prepared_of_prepare hprepare'
  obtain rfl : setup.system = s := Option.some.inj (hprepared.system.symm.trans hsystem)
  obtain rfl : setup'.system = s' := Option.some.inj (hprepared'.system.symm.trans hsystem')
  have hs : setup.system.Subsystem setup'.system :=
    OdeSystem.subsystem_of_reduce hsources hreduce hreduce'
  have hy : OdeSystem.Shared setup.system setup'.system setup.y setup'.y := by
    refine ⟨hprepared.size, hprepared'.size, fun v hv => ?_⟩
    rw [hprepared.slot hv, hprepared'.slot (hs.vars hv), hconditions _ (List.mem_map_of_mem hv)]
  have hsame : setup'.range = setup.range :=
    hprepared'.range.trans (hrange.trans hprepared.range.symm)
  have harg : setup.range.arg ∉ setup'.system.names := by
    rw [← hsame, hprepared'.range]
    exact hprepared'.argument
  rw [hsame] at hstart'
  have hbeside : c.Beside c' := Controller.beside_of_start hs harg hy hstart hstart'
  have hfirst : c.system = setup.system := by rw [(Controller.started_of_start hstart).fields]
  rw [hpoints, hpoints', ← hfirst]
  exact .cons (hbeside.agree hpoint hpoint') (hway.agree hbeside hway' hend hend')

/-- An equation of the second order. -/
def spring : OdeSystem Fraction where
  equations := [⟨'y', 2, .binary .sub (.var "x") (.var "y"), "y'' = x - y"⟩]

/-- The same equation after another one that reads its speed. -/
def towed : OdeSystem Fraction where
  equations := ⟨'z', 1, .binary .add (.var "y_1") (.var "z"), "z' = y_1 + z"⟩ :: spring.equations

def springWorld : World (protocol Fraction Unit) :=
  let stated := (ask 0 (.setEquations ["y'' = x - y"])).after (newWorld {} ())
  (ask 0 (.setConditions (.ofList [("y", Scalar.one), ("y_1", Scalar.zero)]))).after stated

def towedWorld : World (protocol Fraction Unit) :=
  let stated := (ask 0 (.setEquations ["z' = y_1 + z", "y'' = x - y"])).after (newWorld {} ())
  (ask 0 (.setConditions (.ofList
    [("z", Scalar.one), ("y", Scalar.one), ("y_1", Scalar.zero)]))).after stated

theorem fixed_runs_agree_towed : ∃ points v points' v',
    run (Delivery.deliver (answer Fraction Unit) 0 0) 20 false springWorld = .ok (.ok points) v ∧
    run (Delivery.deliver (answer Fraction Unit) 0 0) 20 false towedWorld =
      .ok (.ok points') v' ∧
    points.length = 11 ∧ List.Forall₂ (Point.Agree ["y"]) points points' := by
  have hspring : (returned? (run (Delivery.deliver (answer Fraction Unit) 0 0) 20 false
      springWorld)).any (fun r =>
        r.2.state.solver.status == .finished && r.1.length == 11) = true := by decide +kernel
  have htowed : (returned? (run (Delivery.deliver (answer Fraction Unit) 0 0) 20 false
      towedWorld)).any (fun r => r.2.state.solver.status == .finished) = true := by decide +kernel
  obtain ⟨points, v, hrun, hcomputed⟩ := exists_of_returned hspring
  obtain ⟨points', v', hrun', hstatus'⟩ := exists_of_returned htowed
  rw [Bool.and_eq_true, beq_iff_eq, beq_iff_eq] at hcomputed
  rw [beq_iff_eq] at hstatus'
  obtain ⟨hstatus, hlength⟩ := hcomputed
  refine ⟨points, v, points', v', hrun, hrun', hlength, ?_⟩
  have hreduce : OdeSystem.reduce ["y'' = x - y"] = .ok spring := by decide +kernel
  have hreduce' : OdeSystem.reduce ["z' = y_1 + z", "y'' = x - y"] = .ok towed := by decide +kernel
  exact fixed_runs_agree (by simp) hreduce hreduce' (by decide +kernel) (by decide +kernel)
    (by decide +kernel) (by decide +kernel) hrun hrun' (by rw [hstatus]; decide)
    (by rw [hstatus']; decide)

end Session

end Trajectory
