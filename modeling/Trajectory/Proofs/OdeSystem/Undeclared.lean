import Trajectory.Proofs.Expr.Reading
import Trajectory.Proofs.Expr.Variables
import Trajectory.Proofs.OdeSystem.Reduction
import Trajectory.Proofs.OdeSystem.Step
import Trajectory.Proofs.Settings.Standard

namespace Trajectory

variable {α : Type} [Scalar α]

theorem Range.Valid.renamed {r : Range α} (h : r.Valid) {name : String}
    (hname : Text.isIdentifier name.toList = true) : ({ r with arg := name } : Range α).Valid := by
  unfold Valid make at h ⊢
  dsimp only at h ⊢
  rw [trimmed_of_isIdentifier hname, hname]
  split at h
  next => cases h
  next =>
    split at h
    next => cases h
    next hfinite =>
      split at h
      next => cases h
      next horder =>
        split at h
        next => cases h
        next hstep => rw [if_neg (by simp), if_neg hfinite, if_neg horder, if_neg hstep]

namespace Grammar

theorem isIdentifier_of_derives {k : Category} {ts : List Token} {e : Expr α} (h : Derives k ts e) :
    ∀ n ∈ e.occurrences, Text.isIdentifier n.toList = true := by
  have happlied {w : List Char} {e f : Expr α} (hf : Applied w e f) : f.occurrences = e.occurrences := by
    cases hf with
    | sqrt => exact List.append_nil _
    | func => rfl
  induction h with
  | product _ ih | unary _ ih | power _ ih | positive _ ih | atom _ ih | bracketed _ ih => exact ih
  | sum _ _ _ iha ihb | factor _ _ _ iha ihb | raised _ _ iha ihb =>
    intro n hn
    rcases List.mem_append.mp hn with hn | hn
    · exact iha n hn
    · exact ihb n hn
  | negative _ hf ih =>
    cases hf with
    | const => exact nofun
    | product => exact ih
  | number => exact nofun
  | @name w proper e he =>
    cases he with
    | pi => exact nofun
    | var =>
      intro n hn
      rw [List.mem_singleton.mp hn, String.toList_ofList]
      exact proper
  | call _ hf ih =>
    rw [happlied hf]
    exact ih

end Grammar

namespace OdeSystem

variable {s : OdeSystem α} {arg n : String}

/-- A right-hand side reads the name, and it is no variable. -/
def Lacks (s : OdeSystem α) (n : String) : Prop :=
  (∃ e ∈ s.equations, n ∈ e.right.occurrences) ∧ n ∉ s.names

/-- With this argument the derivatives exist at every state. -/
def EvaluatesWith (s : OdeSystem α) (arg : String) : Prop :=
  ∀ x y, y.length = s.size → ∃ dydx, s.evaluate arg x y = .ok dydx

omit [Scalar α] in
theorem mem_undeclared : n ∈ s.undeclared ↔ s.Lacks n := by
  simp [undeclared, Lacks, Expr.vars]

omit [Scalar α] in
theorem undeclared_nodup (s : OdeSystem α) : s.undeclared.Nodup := (appearances_eraseDups _).nodup

omit [Scalar α] in
theorem foreign?_eq_none_iff_lacks : s.foreign? arg = none ↔ ∀ n, s.Lacks n → n = arg := by
  rw [foreign?_eq_none_iff]
  constructor
  · rintro h n ⟨⟨e, he, hn⟩, hout⟩
    by_contra hne
    exact h ⟨e, he, n, hn, hne, hout⟩
  · rintro h ⟨e, he, n, hn, hne, hout⟩
    exact hne (h n ⟨⟨e, he, hn⟩, hout⟩)

/-- No state makes a difference to whether the derivatives exist. -/
theorem lacks_of_evaluate {x : α} {y dydx : List α} (h : s.evaluate arg x y = .ok dydx) :
    ∀ n, s.Lacks n → n = arg :=
  foreign?_eq_none_iff_lacks.mp (evaluable_of_evaluate h).bound

theorem evaluatesWith_of_lacks (h : ∀ n, s.Lacks n → n = arg) : s.EvaluatesWith arg := by
  intro x y hy
  obtain ⟨dydx, hdydx, _⟩ := exists_evaluate (x := x) ⟨hy, foreign?_eq_none_iff_lacks.mpr h⟩
  exact ⟨dydx, hdydx⟩

theorem exists_evaluate_of_evaluatesWith (h : s.EvaluatesWith arg) :
    ∃ x y dydx, s.evaluate arg x y = .ok dydx := by
  obtain ⟨dydx, hdydx⟩ := h Scalar.zero (List.replicate s.size Scalar.zero) List.length_replicate
  exact ⟨_, _, dydx, hdydx⟩

theorem evaluatesWith_iff_lacks : s.EvaluatesWith arg ↔ ∀ n, s.Lacks n → n = arg := by
  refine ⟨fun h => ?_, evaluatesWith_of_lacks⟩
  obtain ⟨x, y, dydx, hdydx⟩ := exists_evaluate_of_evaluatesWith h
  exact lacks_of_evaluate hdydx

theorem exists_right {sources : List String} {equations : List (Equation α)}
    (h : List.Forall₂ Equation.Stands sources equations) {e : Equation α} (he : e ∈ equations) :
    ∃ right, Expr.parse right = .ok e.right := by
  induction h with
  | nil => cases he
  | cons hstands _ ih =>
    rcases List.mem_cons.mp he with rfl | he
    · obtain ⟨_, right, _, _, hright⟩ := hstands.sides
      exact ⟨right, hright⟩
    · exact ih he

theorem isIdentifier_of_lacks {sources : List String} (h : reduce sources = .ok s) (hn : s.Lacks n) :
    Text.isIdentifier n.toList = true := by
  obtain ⟨⟨e, he, hn⟩, _⟩ := hn
  obtain ⟨_, hstands, _⟩ := stands_of_reduce h
  obtain ⟨right, hright⟩ := exists_right hstands he
  obtain ⟨ts, _, hderives⟩ := Expr.reads_of_parse hright
  exact Grammar.isIdentifier_of_derives hderives n hn

omit [Scalar α] in
theorem mem_ofUndeclared {names undeclared : List String} :
    (Notice.undeclared names : Notice α) ∈ Notice.ofUndeclared undeclared ↔
      names = undeclared ∧ 1 < undeclared.length := by
  match undeclared with
  | [] => simp [Notice.ofUndeclared]
  | [n] => simp [Notice.ofUndeclared]
  | m :: n :: later => simp [Notice.ofUndeclared]

theorem notices_of_reduce {sources : List String} (h : reduce sources = .ok s) :
    reductionNotices sources = s.equations.map Notice.chain ++ Notice.ofUndeclared s.undeclared ++
      [Notice.reduced s.names] := by
  unfold reduce at h
  split at h
  next => cases h
  next hsome =>
    split at h
    next equations hread =>
      cases h
      simp [reductionNotices, hread, hsome]
    next => cases h

/-- The only line that warns is the one about several undeclared names. -/
theorem warns_iff [Numeral α] {sources : List String} (h : reduce sources = .ok s) (line : LogLine) :
    (line ∈ (reductionNotices (α := α) sources).map Notice.line ∧ line.level = .warn) ↔
      line = (Notice.undeclared (α := α) s.undeclared).line ∧ 1 < s.undeclared.length := by
  rw [notices_of_reduce h]
  constructor
  · rintro ⟨hline, hlevel⟩
    obtain ⟨notice, hmem, rfl⟩ := List.mem_map.mp hline
    cases notice with
    | undeclared names =>
      have hnames : Notice.undeclared names ∈ Notice.ofUndeclared (α := α) s.undeclared := by
        simpa using hmem
      obtain ⟨rfl, hseveral⟩ := mem_ofUndeclared.mp hnames
      exact ⟨rfl, hseveral⟩
    | chain e => cases hlevel
    | argument name => cases hlevel
    | reduced names => cases hlevel
  · rintro ⟨rfl, hseveral⟩
    have hnames : Notice.undeclared s.undeclared ∈ Notice.ofUndeclared (α := α) s.undeclared :=
      mem_ofUndeclared.mpr ⟨rfl, hseveral⟩
    exact ⟨List.mem_map_of_mem (List.mem_append_left _ (List.mem_append_right _ hnames)), rfl⟩

theorem exists_argument_iff [Scalar.Usual α] {sources : List String} (h : reduce sources = .ok s) :
    (∃ r : Range α, r.Valid ∧ s.EvaluatesWith r.arg) ↔ s.undeclared.length ≤ 1 := by
  have hstandard : (Range.standard : Range α).Valid := Scalar.Usual.range
  have hnodup := s.undeclared_nodup
  simp only [evaluatesWith_iff_lacks, ← mem_undeclared]
  constructor
  · rintro ⟨r, _, hall⟩
    match hundeclared : s.undeclared with
    | [] => exact Nat.zero_le 1
    | [n] => exact Nat.le_refl 1
    | m :: n :: later =>
      rw [hundeclared] at hall hnodup
      have hm : m = r.arg := hall m List.mem_cons_self
      have hn : n = r.arg := hall n (List.mem_cons_of_mem _ List.mem_cons_self)
      have hne : m ≠ n := by
        rintro rfl
        exact (List.nodup_cons.mp hnodup).1 List.mem_cons_self
      exact absurd (hm.trans hn.symm) hne
  · intro hfew
    match hundeclared : s.undeclared with
    | [] => exact ⟨_, hstandard, nofun⟩
    | [n] =>
      have hlacks : s.Lacks n := mem_undeclared.mp (by rw [hundeclared]; exact List.mem_cons_self)
      exact ⟨_, hstandard.renamed (isIdentifier_of_lacks h hlacks), fun m hm => List.mem_singleton.mp hm⟩
    | m :: n :: later =>
      rw [hundeclared] at hfew
      simp at hfew

/-- A system is reduced with a warning exactly if no argument of a range lets its derivatives exist, at
any state. The warning tells the names that are read and not declared, and if there is only one such
name, it is the only argument that lets the derivatives exist. -/
theorem warned_iff_no_argument [Scalar.Usual α] [Numeral α] {sources : List String}
    (h : reduce sources = .ok s) :
    ((∃ line ∈ (reductionNotices (α := α) sources).map Notice.line, line.level = .warn) ↔
      ¬ ∃ r : Range α, r.Valid ∧ s.EvaluatesWith r.arg) ∧
    (∀ line ∈ (reductionNotices (α := α) sources).map Notice.line, line.level = .warn →
      line = (Notice.undeclared (α := α) s.undeclared).line) ∧
    (∀ n, n ∈ s.undeclared ↔ s.Lacks n) ∧
    (∀ arg, s.EvaluatesWith arg ↔ ∃ x y dydx, s.evaluate arg x y = .ok dydx) ∧
    ∀ name, (∀ n, s.Lacks n ↔ n = name) →
      (∃ r : Range α, r.Valid ∧ r.arg = name) ∧ ∀ arg, s.EvaluatesWith arg ↔ arg = name := by
  refine ⟨?_, fun line hline hlevel => ((warns_iff h line).mp ⟨hline, hlevel⟩).1,
    fun n => mem_undeclared, fun arg => ⟨exists_evaluate_of_evaluatesWith, ?_⟩, fun name hname => ?_⟩
  · rw [exists_argument_iff h, Nat.not_le]
    constructor
    · rintro ⟨line, hline, hlevel⟩
      exact ((warns_iff h line).mp ⟨hline, hlevel⟩).2
    · intro hseveral
      obtain ⟨hline, hlevel⟩ := (warns_iff h _).mpr ⟨rfl, hseveral⟩
      exact ⟨_, hline, hlevel⟩
  · rintro ⟨x, y, dydx, hdydx⟩
    exact evaluatesWith_of_lacks (lacks_of_evaluate hdydx)
  · have hlacks : s.Lacks name := (hname name).mpr rfl
    have hstandard : (Range.standard : Range α).Valid := Scalar.Usual.range
    refine ⟨⟨_, hstandard.renamed (isIdentifier_of_lacks h hlacks), rfl⟩, fun arg => ?_⟩
    rw [evaluatesWith_iff_lacks]
    constructor
    · intro hall
      exact (hall name hlacks).symm
    · rintro rfl n hn
      exact (hname n).mp hn

/-- A value that follows the argument, but not at a known rate. -/
def following : OdeSystem Fraction where
  equations := [⟨'y', 1, .binary .mul (.var "k") (.binary .sub (.var "t") (.var "y")), "y' = k*(t - y)"⟩]

theorem warned_iff_no_argument_following :
    (reduce ["y' = k*(t - y)"] = .ok following ∧ following.undeclared = ["k", "t"] ∧
      (∃ line ∈ (reductionNotices (α := Fraction) ["y' = k*(t - y)"]).map Notice.line,
        line.level = .warn) ∧
      ¬ ∃ r : Range Fraction, r.Valid ∧ following.EvaluatesWith r.arg) ∧
    reduce ["y'' = -y + t", "z' = y_1 * z"] = .ok pendulum ∧ (∀ n, pendulum.Lacks n ↔ n = "t") ∧
      ∀ arg, pendulum.EvaluatesWith arg ↔ arg = "t" := by
  have hfollowing : reduce ["y' = k*(t - y)"] = .ok following := by decide +kernel
  have hnames : following.undeclared = ["k", "t"] := by decide +kernel
  have hpendulum : reduce ["y'' = -y + t", "z' = y_1 * z"] = .ok pendulum := by decide +kernel
  have hname : pendulum.undeclared = ["t"] := by decide +kernel
  obtain ⟨hwarned, _⟩ := warned_iff_no_argument hfollowing
  obtain ⟨_, _, hlacks, _, honly⟩ := warned_iff_no_argument hpendulum
  have hwarns : ∃ line ∈ (reductionNotices (α := Fraction) ["y' = k*(t - y)"]).map Notice.line,
      line.level = .warn := by
    obtain ⟨hline, hlevel⟩ := (warns_iff hfollowing _).mpr ⟨rfl, by rw [hnames]; decide⟩
    exact ⟨_, hline, hlevel⟩
  have hsingle : ∀ n, pendulum.Lacks n ↔ n = "t" := by
    intro n
    rw [← hlacks n, hname, List.mem_singleton]
  exact ⟨⟨hfollowing, hnames, hwarns, hwarned.mp hwarns⟩, hpendulum, hsingle, (honly "t" hsingle).2⟩

end OdeSystem

end Trajectory
