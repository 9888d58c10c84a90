import Trajectory.Proofs.Expr.Evaluation
import Trajectory.Proofs.Number.Fraction
import Trajectory.Proofs.OdeSystem.Names

namespace Trajectory

variable {α : Type}

namespace Equation

theorem order_pos (e : Equation α) : 0 < e.order := by
  unfold order
  omega

theorem chain_getElem? (e : Equation α) {k : Nat} (hk : k < e.order) :
    e.chain[k]? = some ⟨e.base, k⟩ := by
  rw [chain, List.getElem?_map, List.getElem?_range hk]
  rfl

theorem chain_length (e : Equation α) : e.chain.length = e.order := by simp [chain]

theorem derivatives_length (e : Equation α) : e.derivatives.length = e.chain.length := by
  have hpos := e.order_pos
  rw [← chain_length] at hpos
  rw [derivatives, List.length_append, List.length_map, List.length_tail, List.length_singleton]
  omega

theorem derivatives_next (e : Equation α) {k : Nat} (hk : k + 1 < e.order) :
    e.derivatives[k]? = some (.var (Variable.name ⟨e.base, k + 1⟩)) := by
  have hk' : k < (e.chain.tail.map fun v => Expr.var (α := α) v.name).length := by
    rw [List.length_map, List.length_tail, chain_length]
    omega
  rw [derivatives, List.getElem?_append_left hk', List.getElem?_map, List.getElem?_tail,
    e.chain_getElem? hk]
  rfl

theorem derivatives_top (e : Equation α) : e.derivatives[e.order - 1]? = some e.right := by
  have hlength : (e.chain.tail.map fun v => Expr.var (α := α) v.name).length = e.order - 1 := by
    rw [List.length_map, List.length_tail, chain_length]
  rw [derivatives, ← hlength, List.getElem?_concat_length]

end Equation

namespace OdeSystem

/-- The place of a variable in a state. -/
def slot (s : OdeSystem α) (v : Variable) : Nat := s.vars.idxOf v

/-- The first name that a right-hand side reads and that is neither the argument nor a variable. -/
def foreign? (s : OdeSystem α) (arg : String) : Option String :=
  (s.equations.flatMap fun e => e.right.occurrences).find? fun n => !(s.scopeNames arg).contains n

/-- What is bound while a system is evaluated: the argument, and each variable to its slot. -/
structure Assigns (s : OdeSystem α) (arg : String) (x : α) (y : List α) (env : String → α) : Prop where
  argument : env arg = x
  bound : ∀ v ∈ s.vars, y[s.slot v]? = some (env v.name)

/-- The derivatives at a state: one a slot, the next variable of the chain or the right-hand side. -/
structure Derives [Scalar α] (s : OdeSystem α) (env : String → α) (y dydx : List α) : Prop where
  size : dydx.length = s.size
  next : ∀ e ∈ s.equations, ∀ k, k + 1 < e.order →
    dydx[s.slot ⟨e.base, k⟩]? = y[s.slot ⟨e.base, k + 1⟩]?
  top : ∀ e ∈ s.equations, dydx[s.slot ⟨e.base, e.order - 1⟩]? = some (e.right.value env)

theorem idxOf_eq {β : Type} [DecidableEq β] {l : List β} (hl : l.Nodup) {i : Nat} {b : β}
    (h : l[i]? = some b) : l.idxOf b = i := by
  obtain ⟨hi, rfl⟩ := List.getElem?_eq_some_iff.mp h
  exact hl.idxOf_getElem i hi

/-- A list that is laid out like the variables has the entries of each chain in the chain's slots. -/
theorem getElem?_slot {β : Type} {s : OdeSystem α} (hs : s.Distinct) {f : Equation α → List β}
    (hlength : ∀ e, (f e).length = e.chain.length) {e : Equation α} (he : e ∈ s.equations)
    {k : Nat} (hk : k < e.order) : (s.equations.flatMap f)[s.slot ⟨e.base, k⟩]? = (f e)[k]? := by
  obtain ⟨before, after, heq⟩ := List.append_of_mem he
  have hat {γ : Type} (g : Equation α → List γ) (hg : ∀ d, (g d).length = d.chain.length) :
      (s.equations.flatMap g)[(before.flatMap Equation.chain).length + k]? = (g e)[k]? := by
    have hstart : (before.flatMap g).length = (before.flatMap Equation.chain).length := by
      simp only [List.length_flatMap, hg]
    have hinside : k < (g e).length := by rwa [hg, e.chain_length]
    rw [heq, List.flatMap_append, List.flatMap_cons, ← hstart,
      List.getElem?_append_right (Nat.le_add_right _ _), Nat.add_sub_cancel_left,
      List.getElem?_append_left hinside]
  have hslot : s.vars[(before.flatMap Equation.chain).length + k]? = some ⟨e.base, k⟩ :=
    (hat Equation.chain fun _ => rfl).trans (e.chain_getElem? hk)
  rw [slot, idxOf_eq (vars_nodup hs) hslot, hat f hlength]

theorem map_slots {β : Type} {s : OdeSystem α} {y : List β} (hs : s.Distinct) (hy : y.length = s.size) :
    s.vars.map (fun v => y[s.slot v]?) = y.map some := by
  refine List.ext_getElem (by rw [List.length_map, List.length_map, hy, size]) fun i hi hi' => ?_
  rw [List.length_map] at hi hi'
  rw [List.getElem_map, List.getElem_map, slot, (vars_nodup hs).idxOf_getElem i hi,
    List.getElem?_eq_getElem hi']

theorem find?_derivatives {p : String → Bool} {equations : List (Equation α)}
    (hp : ∀ e ∈ equations, ∀ v ∈ e.chain, p v.name = false) :
    ((equations.flatMap Equation.derivatives).flatMap Expr.occurrences).find? p =
      (equations.flatMap fun e => e.right.occurrences).find? p := by
  induction equations with
  | nil => rfl
  | cons e equations ih =>
    have hchain : (e.chain.tail.map Variable.name).find? p = none := by
      rw [List.find?_eq_none]
      intro name hname
      obtain ⟨v, hv, rfl⟩ := List.mem_map.mp hname
      simp [hp e List.mem_cons_self v (List.mem_of_mem_tail hv)]
    have hown : e.derivatives.flatMap Expr.occurrences =
        e.chain.tail.map Variable.name ++ e.right.occurrences := by
      rw [Equation.derivatives, List.flatMap_append, List.flatMap_map, List.flatMap_singleton,
        List.map_eq_flatMap]
      rfl
    rw [List.flatMap_cons, List.flatMap_append, hown, List.append_assoc, List.find?_append, hchain,
      Option.none_or, List.flatMap_cons, List.find?_append, List.find?_append,
      ih fun d hd => hp d (List.mem_cons_of_mem e hd)]

theorem names_idxOf {s : OdeSystem α} (hs : s.Distinct) {v : Variable} (hv : v ∈ s.vars) :
    s.names.idxOf v.name = s.slot v := by
  have hslot : s.vars[s.slot v]? = some v := List.getElem?_idxOf hv
  have hname : s.names[s.slot v]? = some v.name := by rw [names, List.getElem?_map, hslot]; rfl
  exact idxOf_eq (names_nodup hs) hname

def scope (s : OdeSystem α) (arg : String) (x : α) (y : List α) : Scope α :=
  ⟨(s.scopeNames arg).zip (x :: y)⟩

section Scope

variable {s : OdeSystem α} {arg : String} {x : α} {y : List α}

theorem scope_lengths (hy : y.length = s.size) : (s.scopeNames arg).length = (x :: y).length := by
  simp [scopeNames, names, hy, size]

theorem scope_lacks (hy : y.length = s.size) :
    (s.scope arg x y).lacks = fun n => !(s.scopeNames arg).contains n :=
  funext fun n => Scope.lacks_zip (scope_lengths hy) n

theorem scope_argument (hy : y.length = s.size) : (s.scope arg x y).get? arg = some x := by
  rw [scope, Scope.get?_zip (scope_lengths hy), scopeNames, List.idxOf_cons_self]
  rfl

theorem scope_bound (hs : s.Distinct) (harg : arg ∉ s.names) (hy : y.length = s.size) {v : Variable}
    (hv : v ∈ s.vars) : (s.scope arg x y).get? v.name = y[s.slot v]? := by
  have hne : arg ≠ v.name := fun heq => harg (heq ▸ List.mem_map_of_mem hv)
  rw [scope, Scope.get?_zip (scope_lengths hy), scopeNames, List.idxOf_cons_ne _ hne,
    List.getElem?_cons_succ, names_idxOf hs hv]

theorem scope_names (hs : s.Distinct) (harg : arg ∉ s.names) (hy : y.length = s.size) :
    s.names.map (s.scope arg x y).get? = y.map some := by
  rw [← map_slots hs hy, names, List.map_map]
  exact List.map_congr_left fun v hv => scope_bound hs harg hy hv

theorem exists_assigns (hs : s.Distinct) (harg : arg ∉ s.names) (hy : y.length = s.size) :
    ∃ env, s.Assigns arg x y env := by
  refine ⟨fun name => ((s.scope arg x y).get? name).getD x, ?_, fun v hv => ?_⟩
  · rw [scope_argument hy]
    rfl
  · have hlt : s.slot v < y.length := hy ▸ List.idxOf_lt_length_iff.mpr hv
    rw [scope_bound hs harg hy hv, List.getElem?_eq_getElem hlt]
    rfl

theorem extends_of_assigns (hs : s.Distinct) (harg : arg ∉ s.names) (hy : y.length = s.size)
    {env : String → α} (h : s.Assigns arg x y env) : Scope.Extends env (s.scope arg x y) := by
  intro name u hget
  have hname : name ∈ s.scopeNames arg := by
    have hbound : (s.scope arg x y).lacks name = false := by rw [Scope.lacks, hget]; rfl
    rw [scope_lacks hy] at hbound
    simpa using hbound
  rcases List.mem_cons.mp hname with rfl | hmem
  · rw [scope_argument hy] at hget
    exact h.argument.trans (Option.some.inj hget)
  · obtain ⟨v, hv, rfl⟩ := List.mem_map.mp hmem
    rw [scope_bound hs harg hy hv, h.bound v hv] at hget
    exact Option.some.inj hget

variable [Scalar α]

theorem evaluate_eq (hy : y.length = s.size) {env : String → α}
    (henv : Scope.Extends env (s.scope arg x y)) : s.evaluate arg x y =
      Checked.ofExcept
        (EvalError.unlessMissing (s.foreign? arg) (s.derivatives.map (Expr.value env))) := by
  have hforeign : (s.derivatives.flatMap Expr.occurrences).find? (s.scope arg x y).lacks =
      s.foreign? arg := by
    rw [foreign?, derivatives, scope_lacks hy]
    refine find?_derivatives fun e he v hv => ?_
    have hname : v.name ∈ s.names := List.mem_map_of_mem (List.mem_flatMap.mpr ⟨e, he, hv⟩)
    simp [scopeNames, hname]
  rw [evaluate, Scope.ofLists, Checked.sameSize, if_pos (scope_lengths hy)]
  exact (Expr.evals_eq henv s.derivatives).trans (by rw [hforeign])

theorem derives_of_assigns (hs : s.Distinct) {env : String → α} (h : s.Assigns arg x y env) :
    s.Derives env y (s.derivatives.map (Expr.value env)) where
  size := by
    simp only [derivatives, List.length_map, size, vars, List.length_flatMap,
      Equation.derivatives_length]
  next e he k hk := by
    have hnext : ⟨e.base, k + 1⟩ ∈ s.vars := mem_vars.mpr ⟨e, he, rfl, hk⟩
    rw [List.getElem?_map, derivatives,
      getElem?_slot hs Equation.derivatives_length he (Nat.lt_of_succ_lt hk), e.derivatives_next hk,
      h.bound _ hnext]
    rfl
  top e he := by
    have hlast : e.order - 1 < e.order := Nat.sub_lt e.order_pos Nat.one_pos
    rw [List.getElem?_map, derivatives, getElem?_slot hs Equation.derivatives_length he hlast,
      e.derivatives_top]
    rfl

end Scope

theorem foreign?_eq_none_iff {s : OdeSystem α} {arg : String} : s.foreign? arg = none ↔
    ¬ ∃ e ∈ s.equations, ∃ n ∈ e.right.occurrences, n ≠ arg ∧ n ∉ s.names := by
  simp only [foreign?, List.find?_eq_none, List.mem_flatMap, scopeNames]
  constructor
  · rintro h ⟨e, he, n, hn, hne, hout⟩
    exact h n ⟨e, he, hn⟩ (by simp [hne, hout])
  · rintro h n ⟨e, he, hn⟩ hout
    have hboth : n ≠ arg ∧ n ∉ s.names := by simpa using hout
    exact h ⟨e, he, n, hn, hboth⟩

/-- A reduced system is evaluated as its equations say. With the argument and every variable bound,
each derivative below the highest is the next variable and the highest is the right-hand side. Only a
right-hand side that reads another name makes it fail, and the first such name is reported. -/
theorem evaluate_of_reduce [Scalar α] {sources : List String} {s : OdeSystem α} {arg : String} {x : α}
    {y : List α} (hreduce : reduce sources = .ok s) (harg : arg ∉ s.names) (hy : y.length = s.size) :
    (∃ env, s.Assigns arg x y env) ∧
    (∀ dydx, s.evaluate arg x y = .ok dydx →
      ∀ env, s.Assigns arg x y env → s.Derives env y dydx) ∧
    ((∃ failure, s.evaluate arg x y = .error failure) ↔
      ∃ e ∈ s.equations, ∃ n ∈ e.right.occurrences, n ≠ arg ∧ n ∉ s.names) ∧
    ∀ failure, s.evaluate arg x y = .error failure →
      ∃ n, s.foreign? arg = some n ∧ failure = .cause (.unbound n) := by
  have hs := distinct_of_reduce hreduce
  have hvalue {env : String → α} (henv : s.Assigns arg x y env) :=
    evaluate_eq hy (extends_of_assigns hs harg hy henv)
  obtain ⟨env, henv⟩ := exists_assigns (x := x) hs harg hy
  have heq := hvalue henv
  cases hforeign : s.foreign? arg with
  | none =>
    have hok : s.evaluate arg x y = .ok (s.derivatives.map (Expr.value env)) := by
      rw [heq, hforeign]
      rfl
    have hread := foreign?_eq_none_iff.mp hforeign
    refine ⟨⟨env, henv⟩, fun dydx hdydx env' henv' => ?_, ?_, fun failure h => ?_⟩
    · rw [hvalue henv', hforeign] at hdydx
      cases hdydx
      exact derives_of_assigns hs henv'
    · exact iff_of_false (fun ⟨failure, h⟩ => by cases hok.symm.trans h) hread
    · cases hok.symm.trans h
  | some n =>
    have herror : s.evaluate arg x y = .error (.cause (.unbound n)) := by
      rw [heq, hforeign]
      rfl
    have hread := mt foreign?_eq_none_iff.mpr (by rw [hforeign]; exact Option.some_ne_none n)
    refine ⟨⟨env, henv⟩, fun dydx h => ?_, iff_of_true ⟨_, herror⟩ (not_not.mp hread),
      fun failure h => ⟨n, rfl, ?_⟩⟩
    · cases herror.symm.trans h
    · cases herror.symm.trans h
      rfl

/-- A pendulum, and a value that grows with its speed. -/
def pendulum : OdeSystem Fraction where
  equations := [⟨'y', 2, .binary .add (.neg (.var "y")) (.var "t"), "y'' = -y + t"⟩,
    ⟨'z', 1, .binary .mul (.var "y_1") (.var "z"), "z' = y_1 * z"⟩]

theorem evaluate_of_reduce_pendulum :
    reduce ["y'' = -y + t", "z' = y_1 * z"] = .ok pendulum ∧ "t" ∉ pendulum.names ∧
      ([⟨1⟩, ⟨2⟩, ⟨3⟩] : List Fraction).length = pendulum.size ∧
      pendulum.evaluate "t" ⟨5⟩ [⟨1⟩, ⟨2⟩, ⟨3⟩] = .ok [⟨2⟩, ⟨4⟩, ⟨6⟩] ∧
      ∃ env, pendulum.Assigns "t" ⟨5⟩ [⟨1⟩, ⟨2⟩, ⟨3⟩] env ∧
        pendulum.Derives env [⟨1⟩, ⟨2⟩, ⟨3⟩] [⟨2⟩, ⟨4⟩, ⟨6⟩] := by
  have hreduce : reduce ["y'' = -y + t", "z' = y_1 * z"] = .ok pendulum := by decide +kernel
  have harg : "t" ∉ pendulum.names := by decide +kernel
  have hy : ([⟨1⟩, ⟨2⟩, ⟨3⟩] : List Fraction).length = pendulum.size := by decide +kernel
  have hvalue : pendulum.evaluate "t" ⟨5⟩ [⟨1⟩, ⟨2⟩, ⟨3⟩] = .ok [⟨2⟩, ⟨4⟩, ⟨6⟩] := by
    decide +kernel
  obtain ⟨⟨env, henv⟩, hderives, _, _⟩ := evaluate_of_reduce (x := ⟨5⟩) hreduce harg hy
  exact ⟨hreduce, harg, hy, hvalue, env, henv, hderives _ hvalue env henv⟩

end OdeSystem

end Trajectory
