import Trajectory.Proofs.OdeSystem.Evaluation
import Trajectory.Proofs.Text
import Trajectory.Solver.Basic

namespace Trajectory

variable {α : Type}

namespace SyntaxFault

def equation? : SyntaxFault → Option String
  | noEquations => none
  | equalsSigns equation => some equation
  | leftSide _ equation => some equation
  | duplicate _ equation => some equation
  | rightSide equation _ => some equation

theorem message_shows {fault : SyntaxFault} {equation : String}
    (h : fault.equation? = some equation) :
    ∃ before after, fault.message = before ++ equation ++ after := by
  cases fault with
  | noEquations => cases h
  | equalsSigns _ =>
    cases h
    exact ⟨"'", "' must contain exactly one '='", rfl⟩
  | leftSide left _ =>
    cases h
    exact ⟨"left-hand side '" ++ left ++ "' of '",
      "' must be a single letter followed by primes", rfl⟩
  | duplicate base _ =>
    cases h
    exact ⟨"duplicate equation for '" ++ base.toString ++ "': '", "'", rfl⟩
  | rightSide _ cause =>
    cases h
    exact ⟨"cannot parse right-hand side of '", "': " ++ cause.message,
      String.append_assoc⟩

end SyntaxFault

namespace Equation

/-- What stands before and after the only `=` of a text. -/
structure Sides (s left right : List Char) : Prop where
  eq : s = left ++ '=' :: right
  left : '=' ∉ left
  right : '=' ∉ right

/-- A letter followed by primes. -/
structure Primed (s : List Char) (base : Char) (primes : Nat) : Prop where
  letter : Text.isLetter base = true
  eq : s = base :: List.replicate primes '\''

section Sides

variable {s left right : List Char} {base : Char} {primes : Nat}

theorem Sides.count (h : Sides s left right) : s.count '=' = 1 := by
  rw [h.eq, List.count_append, List.count_cons_self, List.count_eq_zero.mpr h.left,
    List.count_eq_zero.mpr h.right]

theorem Sides.takeWhile (h : Sides s left right) : s.takeWhile (fun c => c != '=') = left := by
  have hleft : ∀ c ∈ left, (c != '=') = true := fun c hc => by
    simpa using ne_of_mem_of_not_mem hc h.left
  rw [h.eq]
  exact Text.takeWhile_eq hleft (by simp)

theorem Sides.dropWhile (h : Sides s left right) :
    (s.dropWhile fun c => c != '=').tail = right := by
  have hleft : ∀ c ∈ left, (c != '=') = true := fun c hc => by
    simpa using ne_of_mem_of_not_mem hc h.left
  have hdrop : s.dropWhile (fun c => c != '=') = '=' :: right := by
    rw [h.eq]
    exact Text.dropWhile_eq hleft (by simp)
  rw [hdrop]
  rfl

theorem sides_of_count (h : s.count '=' = 1) :
    Sides s (s.takeWhile fun c => c != '=') (s.dropWhile fun c => c != '=').tail := by
  have hsplit := List.takeWhile_append_dropWhile (p := fun c => c != '=') (l := s)
  have hleft : '=' ∉ s.takeWhile (fun c => c != '=') := fun hmem => by
    simpa using List.all_eq_true.mp List.all_takeWhile _ hmem
  cases hdrop : s.dropWhile (fun c => c != '=') with
  | nil =>
    rw [hdrop, List.append_nil] at hsplit
    rw [hsplit] at hleft
    rw [List.count_eq_zero.mpr hleft] at h
    cases h
  | cons c rest =>
    obtain rfl : c = '=' := by
      have hc := Text.dropWhile_head (p := fun c => c != '=') (s := s) c (by rw [hdrop]; rfl)
      simpa using hc
    rw [hdrop] at hsplit
    rw [← hsplit, List.count_append, List.count_cons_self, List.count_eq_zero.mpr hleft] at h
    have hright : '=' ∉ rest := List.count_eq_zero.mp (by omega)
    exact ⟨hsplit.symm, hleft, hright⟩

theorem leftSide?_eq_some_iff : leftSide? s = some (base, primes) ↔ Primed s base primes := by
  cases s with
  | nil => exact iff_of_false (by simp [leftSide?]) fun h => by simpa using h.eq
  | cons c rest =>
    have hall : rest.all (fun p => p == '\'') = true ↔ rest = List.replicate rest.length '\'' := by
      simp [List.eq_replicate_iff]
    constructor
    · intro h
      rw [leftSide?] at h
      split at h
      next hprimed =>
        cases h
        rw [Bool.and_eq_true, hall] at hprimed
        exact ⟨hprimed.1, congrArg _ hprimed.2⟩
      next => cases h
    · rintro ⟨hletter, heq⟩
      obtain ⟨rfl, rfl⟩ := List.cons.inj heq
      simp [leftSide?, hletter]

end Sides

variable [Scalar α]

/-- The equation that a text stands for. -/
structure Stands (source : String) (e : Equation α) : Prop where
  sides : ∃ left right, Sides (Text.trim source.toList) left right ∧
    Primed (Text.trim left) e.base e.primes ∧ Expr.parse right = .ok e.right
  source : e.source = Text.trimmed source

/-- What is wrong with a text among equations for the letters that are taken. -/
inductive Flaw (α : Type) [Scalar α] (taken : List Char) (source : String) : SyntaxFault → Prop
  | equalsSigns (h : ¬ ∃ left right, Sides (Text.trim source.toList) left right) :
      Flaw α taken source (.equalsSigns (Text.trimmed source))
  | leftSide {left right : List Char} (hsides : Sides (Text.trim source.toList) left right)
      (h : ¬ ∃ base primes, Primed (Text.trim left) base primes) :
      Flaw α taken source (.leftSide (String.ofList (Text.trim left)) (Text.trimmed source))
  | duplicate {left right : List Char} {base : Char} {primes : Nat}
      (hsides : Sides (Text.trim source.toList) left right)
      (hprimed : Primed (Text.trim left) base primes) (h : base ∈ taken) :
      Flaw α taken source (.duplicate base (Text.trimmed source))
  | rightSide {left right : List Char} {base : Char} {primes : Nat} {cause : ParseError}
      (hsides : Sides (Text.trim source.toList) left right)
      (hprimed : Primed (Text.trim left) base primes) (hnew : base ∉ taken)
      (h : Expr.parse (α := α) right = .error cause) :
      Flaw α taken source (.rightSide (Text.trimmed source) cause)

variable {taken : List Char} {source : String} {fault : SyntaxFault}

theorem Flaw.equation (h : Flaw α taken source fault) :
    fault.equation? = some (Text.trimmed source) := by cases h <;> rfl

theorem Flaw.congr {taken' : List Char} (hsame : ∀ base, base ∈ taken ↔ base ∈ taken')
    (h : Flaw α taken source fault) : Flaw α taken' source fault := by
  cases h with
  | equalsSigns h => exact .equalsSigns h
  | leftSide hsides h => exact .leftSide hsides h
  | duplicate hsides hprimed h => exact .duplicate hsides hprimed ((hsame _).mp h)
  | rightSide hsides hprimed hnew h =>
    exact .rightSide hsides hprimed (fun hmem => hnew ((hsame _).mpr hmem)) h

theorem read_of_stands {e : Equation α} (h : Stands source e) (hnew : e.base ∉ taken) :
    read taken source = .ok e := by
  obtain ⟨⟨left, right, hsides, hprimed, hright⟩, hsource⟩ := h
  have hleft := leftSide?_eq_some_iff.mpr hprimed
  unfold read
  dsimp only
  rw [if_neg (by simp [hsides.count]), hsides.takeWhile, hleft]
  dsimp only
  rw [if_neg (by simpa using hnew), hsides.dropWhile, hright]
  obtain ⟨base, primes, e, source'⟩ := e
  cases hsource
  rfl

/-- A text is read as the equation it stands for, or its flaw is reported. -/
theorem read_cases (taken : List Char) (source : String) :
    (∃ e : Equation α, read taken source = .ok e ∧ Stands source e ∧ e.base ∉ taken) ∨
      ∃ fault, read (α := α) taken source = .error fault ∧ Flaw α taken source fault := by
  unfold read
  dsimp only
  split
  next hcount =>
    refine .inr ⟨_, rfl, .equalsSigns fun ⟨left, right, hsides⟩ => hcount hsides.count⟩
  next hcount =>
    have hsides := sides_of_count (not_not.mp hcount)
    split
    next hleft =>
      refine .inr ⟨_, rfl, .leftSide hsides fun ⟨base, primes, hprimed⟩ => ?_⟩
      rw [leftSide?_eq_some_iff.mpr hprimed] at hleft
      cases hleft
    next base primes hleft =>
      have hprimed := leftSide?_eq_some_iff.mp hleft
      split
      next htaken => exact .inr ⟨_, rfl, .duplicate hsides hprimed (by simpa using htaken)⟩
      next hnew =>
        have hnew : base ∉ taken := by simpa using hnew
        split
        next cause hright => exact .inr ⟨_, rfl, .rightSide hsides hprimed hnew hright⟩
        next right hright =>
          exact .inl ⟨_, rfl, ⟨⟨_, _, hsides, hprimed, hright⟩, rfl⟩, hnew⟩

/-- Texts that stand for equations, each for a letter of its own that is not taken. -/
structure StandFor (taken : List Char) (sources : List String) (equations : List (Equation α)) :
    Prop where
  each : List.Forall₂ Stands sources equations
  letters : (equations.map base).Nodup
  untaken : ∀ e ∈ equations, e.base ∉ taken

theorem StandFor.cons {sources : List String} {e : Equation α} {equations : List (Equation α)}
    (hstands : Stands source e) (hnew : e.base ∉ taken)
    (h : StandFor (e.base :: taken) sources equations) :
    StandFor taken (source :: sources) (e :: equations) := by
  refine ⟨.cons hstands h.each, List.nodup_cons.mpr ⟨fun hmem => ?_, h.letters⟩, fun d hd => ?_⟩
  · obtain ⟨d, hd, hbase⟩ := List.mem_map.mp hmem
    exact h.untaken d hd (hbase ▸ List.mem_cons_self)
  · rcases List.mem_cons.mp hd with rfl | hd
    · exact hnew
    · exact fun htaken => h.untaken d hd (List.mem_cons_of_mem _ htaken)

theorem StandFor.tail {sources : List String} {e : Equation α} {equations : List (Equation α)}
    (h : StandFor taken (source :: sources) (e :: equations)) :
    Stands source e ∧ e.base ∉ taken ∧ StandFor (e.base :: taken) sources equations := by
  obtain ⟨heach, hletters, huntaken⟩ := h
  obtain ⟨hstands, hlater⟩ := List.forall₂_cons.mp heach
  obtain ⟨hown, hletters⟩ := List.nodup_cons.mp hletters
  refine ⟨hstands, huntaken e List.mem_cons_self, hlater, hletters, fun d hd htaken => ?_⟩
  rcases List.mem_cons.mp htaken with heq | htaken
  · exact hown (heq ▸ List.mem_map_of_mem hd)
  · exact huntaken d (List.mem_cons_of_mem e hd) htaken

theorem readAll_of_standFor {sources : List String} {equations : List (Equation α)}
    (h : StandFor taken sources equations) : readAll taken sources = (equations, none) := by
  induction sources generalizing taken equations with
  | nil =>
    cases h.each
    rfl
  | cons source sources ih =>
    cases equations with
    | nil => cases h.each
    | cons e equations =>
      obtain ⟨hstands, hnew, hlater⟩ := h.tail
      rw [readAll, read_of_stands hstands hnew]
      simp only [ih hlater]

/-- The first text that is no equation for a new letter, after the equations of those before it. -/
def FirstFlaw (taken : List Char) (sources : List String) (equations : List (Equation α))
    (fault : SyntaxFault) : Prop :=
  ∃ before source after, sources = before ++ source :: after ∧ StandFor taken before equations ∧
    Flaw α (equations.map base ++ taken) source fault

theorem readAll_cases (taken : List Char) (sources : List String) :
    (∃ equations : List (Equation α), readAll taken sources = (equations, none) ∧
        StandFor taken sources equations) ∨
      ∃ equations fault, readAll (α := α) taken sources = (equations, some fault) ∧
        FirstFlaw taken sources equations fault := by
  induction sources generalizing taken with
  | nil => exact .inl ⟨[], rfl, .nil, .nil, by simp⟩
  | cons source sources ih =>
    unfold readAll
    rcases read_cases (α := α) taken source with ⟨e, hread, hstands, hnew⟩ | ⟨fault, hread, hflaw⟩
    · rw [hread]
      rcases ih (e.base :: taken) with ⟨equations, hlater, hall⟩ | ⟨equations, fault, hlater, hfirst⟩
      · exact .inl ⟨e :: equations, by simp only [hlater], hall.cons hstands hnew⟩
      · obtain ⟨before, source', after, rfl, hbefore, hflaw⟩ := hfirst
        have hsame (base : Char) : base ∈ equations.map Equation.base ++ e.base :: taken ↔
            base ∈ (e :: equations).map Equation.base ++ taken := by
          simp [or_left_comm]
        exact .inr ⟨e :: equations, fault, by simp only [hlater], source :: before, source', after,
          rfl, hbefore.cons hstands hnew, hflaw.congr hsame⟩
    · rw [hread]
      exact .inr ⟨[], fault, rfl, [], source, sources, rfl, ⟨.nil, .nil, by simp⟩, hflaw⟩

end Equation

namespace OdeSystem

/-- The slots of a system, as its equations are given. -/
structure LaidOut (s : OdeSystem α) (sources : List String) : Prop where
  vars : s.vars = s.equations.flatMap fun e =>
    (List.range (max 1 e.primes)).map fun k => ⟨e.base, k⟩
  names : s.names = s.equations.flatMap fun e =>
    e.base.toString :: (List.range (max 1 e.primes - 1)).map fun k => s!"{e.base}_{k + 1}"
  distinct : s.names.Nodup
  derivatives : s.derivatives.length = s.vars.length
  increasing : s.baseIndices.Pairwise (· < ·)
  bases : List.Forall₂ (fun i e => s.vars[i]? = some ⟨e.base, 0⟩) s.baseIndices s.equations
  sources : s.sources = sources.map Text.trimmed

theorem names_chain (e : Equation α) : e.chain.map Variable.name =
    e.base.toString :: (List.range (max 1 e.primes - 1)).map fun k => s!"{e.base}_{k + 1}" := by
  obtain ⟨n, hn⟩ : ∃ n, e.order = n + 1 := ⟨e.order - 1, by have := e.order_pos; omega⟩
  have hlater : max 1 e.primes - 1 = n := by rw [← Equation.order, hn, Nat.add_sub_cancel]
  rw [Equation.chain, hn, hlater, List.range_succ_eq_map, List.map_cons, List.map_cons,
    List.map_map, List.map_map]
  rfl

theorem le_of_mem_offsets {start i : Nat} {equations : List (Equation α)}
    (h : i ∈ offsets start equations) : start ≤ i := by
  induction equations generalizing start with
  | nil => cases h
  | cons e equations ih =>
    rcases List.mem_cons.mp h with rfl | h
    · exact Nat.le_refl _
    · exact Nat.le_of_add_right_le (ih h)

theorem lt_of_mem_offsets {start i : Nat} {equations : List (Equation α)}
    (h : i ∈ offsets start equations) : i < start + (equations.flatMap Equation.chain).length := by
  induction equations generalizing start with
  | nil => cases h
  | cons e equations ih =>
    have hpos := e.order_pos
    rw [List.flatMap_cons, List.length_append, e.chain_length]
    rcases List.mem_cons.mp h with rfl | h
    · omega
    · have hlater := ih h
      omega

theorem length_offsets (start : Nat) (equations : List (Equation α)) :
    (offsets start equations).length = equations.length := by
  induction equations generalizing start with
  | nil => rfl
  | cons e equations ih => rw [offsets, List.length_cons, ih, List.length_cons]

theorem offsets_pairwise (start : Nat) (equations : List (Equation α)) :
    (offsets start equations).Pairwise (· < ·) := by
  induction equations generalizing start with
  | nil => exact .nil
  | cons e equations ih =>
    refine List.pairwise_cons.mpr ⟨fun i hi => ?_, ih _⟩
    exact Nat.lt_of_lt_of_le (Nat.lt_add_of_pos_right e.order_pos) (le_of_mem_offsets hi)

theorem offsets_bases (before : List Variable) (equations : List (Equation α)) :
    List.Forall₂ (fun i e => (before ++ equations.flatMap Equation.chain)[i]? = some ⟨e.base, 0⟩)
      (offsets before.length equations) equations := by
  induction equations generalizing before with
  | nil => exact .nil
  | cons e equations ih =>
    have hfirst : (e.chain ++ equations.flatMap Equation.chain)[0]? = some ⟨e.base, 0⟩ := by
      rw [List.getElem?_append_left (by rw [e.chain_length]; exact e.order_pos)]
      exact e.chain_getElem? e.order_pos
    have hlater := ih (before ++ e.chain)
    rw [List.length_append, e.chain_length, List.append_assoc] at hlater
    refine .cons ?_ hlater
    rw [List.flatMap_cons, List.getElem?_append_right (Nat.le_refl _), Nat.sub_self, hfirst]

variable [Scalar α]

theorem sources_of_stands {sources : List String} {equations : List (Equation α)}
    (h : List.Forall₂ Equation.Stands sources equations) :
    equations.map Equation.source = sources.map Text.trimmed := by
  induction h with
  | nil => rfl
  | cons hstands _ ih => rw [List.map_cons, List.map_cons, ih, hstands.source]

theorem laidOut {s : OdeSystem α} {sources : List String} (hdistinct : s.Distinct)
    (h : List.Forall₂ Equation.Stands sources s.equations) : s.LaidOut sources where
  vars := rfl
  names := by
    rw [OdeSystem.names, OdeSystem.vars, List.map_flatMap]
    exact congrArg (fun f => s.equations.flatMap f) (funext names_chain)
  distinct := names_nodup hdistinct
  derivatives := by
    simp only [OdeSystem.derivatives, OdeSystem.vars, List.length_flatMap,
      Equation.derivatives_length]
  increasing := offsets_pairwise 0 s.equations
  bases := offsets_bases [] s.equations
  sources := sources_of_stands h

theorem reduce_of_stands {sources : List String} {s : OdeSystem α} (hsome : sources ≠ [])
    (h : List.Forall₂ Equation.Stands sources s.equations) (hdistinct : s.Distinct) :
    reduce sources = .ok s := by
  have hread : Equation.readAll [] sources = (s.equations, none) :=
    Equation.readAll_of_standFor ⟨h, hdistinct, by simp⟩
  unfold reduce
  rw [if_neg (by simpa using hsome), hread]

/-- Texts are reduced to their equations, or the first flaw is reported. -/
theorem reduce_cases {sources : List String} (hsome : sources ≠ []) :
    (∃ s : OdeSystem α, reduce sources = .ok s ∧ Equation.StandFor [] sources s.equations) ∨
      ∃ (equations : List (Equation α)) (fault : SyntaxFault),
        reduce (α := α) sources = .error fault ∧ Equation.FirstFlaw [] sources equations fault := by
  unfold reduce
  rw [if_neg (by simpa using hsome)]
  rcases Equation.readAll_cases (α := α) [] sources with
    ⟨equations, hread, hall⟩ | ⟨equations, fault, hread, hfirst⟩
  · exact .inl ⟨⟨equations⟩, by rw [hread], hall⟩
  · exact .inr ⟨equations, fault, by rw [hread], hfirst⟩

theorem stands_of_reduce {sources : List String} {s : OdeSystem α} (h : reduce sources = .ok s) :
    sources ≠ [] ∧ List.Forall₂ Equation.Stands sources s.equations ∧ s.Distinct := by
  have hsome : sources ≠ [] := by
    rintro rfl
    cases h
  rcases reduce_cases (α := α) hsome with ⟨t, ht, hall⟩ | ⟨_, fault, hfault, _⟩
  · cases h.symm.trans ht
    exact ⟨hsome, hall.each, hall.letters⟩
  · cases h.symm.trans hfault

theorem flaw_of_reduce {sources : List String} {fault : SyntaxFault}
    (h : reduce (α := α) sources = .error fault) : sources = [] ∧ fault = .noEquations ∨
      ∃ before source after, ∃ equations : List (Equation α),
        sources = before ++ source :: after ∧ List.Forall₂ Equation.Stands before equations ∧
          (equations.map Equation.base).Nodup ∧
            Equation.Flaw α (equations.map Equation.base) source fault := by
  by_cases hsome : sources = []
  · rw [hsome] at h
    cases h
    exact .inl ⟨hsome, rfl⟩
  · rcases reduce_cases (α := α) hsome with ⟨t, ht, _⟩ | ⟨equations, fault', hfault, hfirst⟩
    · cases h.symm.trans ht
    · cases h.symm.trans hfault
      obtain ⟨before, source, after, heq, hbefore, hflaw⟩ := hfirst
      rw [List.append_nil] at hflaw
      exact .inr ⟨before, source, after, equations, heq, hbefore.each, hbefore.letters, hflaw⟩

theorem setEquations_eq_error_iff {t : Solver α} {sources : List String} {e : SolverError α}
    (hidle : t.running = false) : t.setEquations sources = .error e ↔
      ∃ fault, reduce (α := α) sources = .error fault ∧ e = .equationSyntax fault := by
  have hcheck : t.checkIdle = .ok () := if_neg (by simp [hidle])
  unfold Solver.setEquations
  rw [hcheck]
  cases reduce (α := α) sources with
  | ok s => exact iff_of_false (fun h => by cases h) fun ⟨fault, h, _⟩ => by cases h
  | error fault =>
    constructor
    · intro h
      cases h
      exact ⟨fault, rfl, rfl⟩
    · rintro ⟨_, hfault, rfl⟩
      cases hfault
      rfl

/-- Texts are reduced if and only if there are any, each is an equation and no two of them are for
one letter. The variables are then the chains of the equations in their order, and otherwise the
first text at which this fails is reported. -/
theorem reduces_iff (sources : List String) :
    (∀ s : OdeSystem α, reduce sources = .ok s ↔
      sources ≠ [] ∧ List.Forall₂ Equation.Stands sources s.equations ∧ s.Distinct) ∧
    (∀ s : OdeSystem α, reduce sources = .ok s → s.LaidOut sources) ∧
    (∀ fault, reduce (α := α) sources = .error fault → sources = [] ∧ fault = .noEquations ∨
      ∃ before source after, ∃ equations : List (Equation α),
        sources = before ++ source :: after ∧ List.Forall₂ Equation.Stands before equations ∧
          (equations.map Equation.base).Nodup ∧
            Equation.Flaw α (equations.map Equation.base) source fault ∧
              fault.equation? = some (Text.trimmed source) ∧
                ∃ start rest, fault.message = start ++ Text.trimmed source ++ rest) ∧
    ∀ (t : Solver α) (e : SolverError α), t.running = false →
      (t.setEquations sources = .error e ↔
        ∃ fault, reduce (α := α) sources = .error fault ∧ e = .equationSyntax fault) := by
  refine ⟨fun s => ⟨stands_of_reduce, ?_⟩, fun s h => ?_, fun fault h => ?_, fun t e hidle => ?_⟩
  · rintro ⟨hsome, hstands, hdistinct⟩
    exact reduce_of_stands hsome hstands hdistinct
  · obtain ⟨_, hstands, hdistinct⟩ := stands_of_reduce h
    exact laidOut hdistinct hstands
  · rcases flaw_of_reduce h with hnone | ⟨before, source, after, equations, heq, hbefore, hletters,
      hflaw⟩
    · exact .inl hnone
    · exact .inr ⟨before, source, after, equations, heq, hbefore, hletters, hflaw, hflaw.equation,
        SyntaxFault.message_shows hflaw.equation⟩
  · exact setEquations_eq_error_iff hidle

/-- A letter that grows with another one, which is of the third order. -/
def coupled : OdeSystem Fraction where
  equations := [⟨'z', 1, .var "y", "z' = y"⟩,
    ⟨'y', 3, .binary .sub (.binary .mul (.var "x") (.var "z")) (.var "y_2"),
      "y''' = x*z - y_2"⟩]

theorem reduces_iff_coupled :
    reduce [" z' = y", "y''' = x*z - y_2"] = .ok coupled ∧
      coupled.LaidOut [" z' = y", "y''' = x*z - y_2"] ∧
        coupled.names = ["z", "y", "y_1", "y_2"] ∧ coupled.baseIndices = [0, 1] ∧
    ∃ fault, reduce (α := Fraction) ["y' = 1", " y = 2 ", "= ("] = .error fault ∧
      fault.equation? = some "y = 2" := by
  have hreduce : reduce [" z' = y", "y''' = x*z - y_2"] = .ok coupled := by decide +kernel
  have hfault : reduce (α := Fraction) ["y' = 1", " y = 2 ", "= ("] =
      .error (.duplicate 'y' "y = 2") := by decide +kernel
  obtain ⟨_, hlaid, _⟩ := reduces_iff (α := Fraction) [" z' = y", "y''' = x*z - y_2"]
  exact ⟨hreduce, hlaid coupled hreduce, by decide +kernel, by decide +kernel, _, hfault, rfl⟩

end OdeSystem

end Trajectory
