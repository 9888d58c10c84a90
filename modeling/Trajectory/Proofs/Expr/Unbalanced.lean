import Mathlib.Logic.Relation
import Trajectory.Number.Binary64
import Trajectory.Proofs.Expr.Balance
import Trajectory.Proofs.Expr.Parts
import Trajectory.Proofs.Expr.Reading

namespace Trajectory

open Text (size trim)

namespace Form

open Trajectory.Bracket

variable {s p : List Char} {c : Cut} {f : Form}

theorem IsPart.balanced (hs : balanced s = true) (h : IsPart s p) : Bracket.balanced p = true := by
  cases h with
  | before hc => exact (balanced_sides hs hc).1
  | after hc => exact (balanced_sides hs hc).2
  | @inner u v _ heq hp =>
    rw [heq] at hs
    exact balanced_inner hs hp

theorem balanced_of_mem_parts (hp : p ∈ (of s).parts) : balanced p = true := by
  obtain ⟨hs, hpart⟩ := isPart_of_mem_parts hp
  exact hpart.balanced hs

theorem of_unbalanced (hs : balanced s = false) : of s = fault (.unbalanced s) := by
  have hne : s ≠ [] := by
    rintro rfl
    cases hs
  simp [of, hne, hs]

section Refusal

variable {t : List Char}

theorem ofSign_ne_unbalanced : ofSign s c ≠ fault (.unbalanced t) := by
  unfold ofSign
  split <;> simp

theorem ofOperator_ne_unbalanced {op : BinaryOp} : ofOperator op s c ≠ fault (.unbalanced t) := by
  unfold ofOperator
  split <;> simp

theorem ofFactor_ne_unbalanced : ofFactor s ≠ fault (.unbalanced t) := by
  have htoken : ofToken s ≠ fault (.unbalanced t) := by
    unfold ofToken
    split
    · simp
    · split <;> simp
  have hcall : ofCall? s ≠ some (fault (.unbalanced t)) := by
    simp only [ofCall?]
    split <;> simp
  unfold ofFactor
  split
  next => simp
  next => simp
  next =>
    split
    next => exact ofOperator_ne_unbalanced
    next =>
      split
      next => simp
      next =>
        cases h : ofCall? s with
        | none => exact htoken
        | some f => exact fun hf => hcall (h.trans (congrArg some hf))

theorem of_ne_unbalanced (hs : balanced s = true) : of s ≠ fault (.unbalanced t) := by
  unfold of
  rw [hs]
  split
  next => simp
  next =>
    split
    next h => cases h
    next =>
      split
      next => exact ofSign_ne_unbalanced
      next =>
        split
        next => exact ofOperator_ne_unbalanced
        next => exact ofFactor_ne_unbalanced

variable {α : Type} [Scalar α] {read : List Char → Except ParseError (Expr α)}

theorem tree_ne_unbalanced (hf : f ≠ fault (.unbalanced t))
    (hparts : ∀ p ∈ f.parts, read p ≠ .error (.unbalanced t)) :
    f.tree read ≠ .error (.unbalanced t) := by
  cases f with
  | binary op left right =>
    refine bind_ne_error (hparts left (by simp [parts])) fun a => ?_
    exact bind_ne_error (hparts right (by simp [parts])) fun b => by simp [pure, Except.pure]
  | negative operand =>
    exact bind_ne_error (hparts operand (by simp [parts])) fun e => by simp [pure, Except.pure]
  | positive operand => exact hparts operand (by simp [parts])
  | bracketed inner => exact hparts inner (by simp [parts])
  | call name argument =>
    refine bind_ne_error (hparts argument (by simp [parts])) fun e => ?_
    unfold Expr.ofCall
    split
    · simp
    · split <;> simp
  | number digits =>
    simp only [tree, Expr.ofNumber]
    split <;> simp
  | name identifier => simp [tree]
  | fault e => exact fun h => hf (congrArg fault (Except.error.inj h))

end Refusal

end Form

namespace Expr

open Trajectory.Bracket (balanced balanced_trim lastBinarySign? lastOf? first? pair? SplitsAt ClosedAt)

variable {α : Type} [Scalar α] {s t : List Char}

/-- Reading a text goes on to the parts of its form. -/
def GoesOn (s p : List Char) : Prop := p ∈ (Form.of (trim s)).parts

theorem parse_ne_unbalanced (hs : balanced (trim s) = true) :
    (parse s : Except ParseError (Expr α)) ≠ .error (.unbalanced t) := by
  induction hn : s.length using Nat.strongRecOn generalizing s with
  | ind n ih =>
    subst hn
    rw [parse_eq]
    refine Form.tree_ne_unbalanced (Form.of_ne_unbalanced hs) fun p hp => ?_
    exact ih p.length (Form.length_part_lt rfl hp) (balanced_trim (Form.balanced_of_mem_parts hp)) rfl

theorem parse_eq_unbalanced_iff : (parse s : Except ParseError (Expr α)) = .error (.unbalanced t) ↔
    balanced (trim s) = false ∧ t = trim s := by
  cases hs : balanced (trim s) with
  | true => exact iff_of_false (parse_ne_unbalanced hs) (by simp)
  | false =>
    rw [parse_eq, Form.of_unbalanced hs, Form.tree]
    simp [eq_comm]

theorem balanced_of_goesOn {p : List Char} (h : Relation.TransGen GoesOn s p) :
    balanced (trim p) = true := by
  cases h with
  | single hp => exact balanced_trim (Form.balanced_of_mem_parts hp)
  | tail _ hp => exact balanced_trim (Form.balanced_of_mem_parts hp)

variable (α) in
/-- Every search cuts a balanced text into balanced texts, and each opening bracket of it is closed at one offset
only. So no text that reading goes on to is refused as unbalanced, at any depth: only the one that is given can be. -/
theorem splitting_keeps_balance (s : List Char) :
    (balanced s = true →
      (∀ c, lastBinarySign? s = some c → SplitsAt s c.position) ∧
      (∀ marks c, lastOf? marks s = some c → SplitsAt s c.position) ∧
      (∀ mark c, first? mark s = some c → SplitsAt s c.position) ∧
      ∀ u t, s = u ++ '(' :: t →
        ∃ j, pair? s (size u) = some j ∧ ∀ k, ClosedAt s (size u) k ↔ k = j) ∧
    (∀ t, (parse s : Except ParseError (Expr α)) = .error (.unbalanced t) ↔
      balanced (trim s) = false ∧ t = trim s) ∧
    ∀ p, Relation.TransGen GoesOn s p → balanced (trim p) = true ∧
      ∀ t, (parse p : Except ParseError (Expr α)) ≠ .error (.unbalanced t) := by
  refine ⟨fun hs => ⟨?_, ?_, ?_, ?_⟩, fun t => parse_eq_unbalanced_iff, ?_⟩
  · exact fun c hc => Bracket.splitsAt_of_mem hs (Bracket.mem_of_lastBinarySign hc)
  · exact fun marks c hc => Bracket.splitsAt_of_mem hs (Bracket.mem_of_lastOf hc)
  · exact fun mark c hc => Bracket.splitsAt_of_mem hs (Bracket.mem_of_first hc)
  · rintro u t rfl
    obtain ⟨j, hj⟩ := Bracket.exists_closedAt hs
    have hpair := Bracket.pair_of_closedAt hj
    refine ⟨j, hpair, fun k => ⟨fun hk => ?_, fun hk => hk ▸ hj⟩⟩
    have hsame := Bracket.pair_of_closedAt hk
    rw [hpair] at hsame
    exact (Option.some.inj hsame).symm
  · intro p hp
    have hbalanced := balanced_of_goesOn hp
    exact ⟨hbalanced, fun t => parse_ne_unbalanced hbalanced⟩

/-- Operators of every level beside brackets. -/
def fencedExample : List Char := "(a-b)*c-(d)^2".toList

theorem splitting_keeps_balance_fenced : balanced fencedExample = true ∧
    (lastBinarySign? fencedExample).map Cut.position = some 7 ∧ SplitsAt fencedExample 7 ∧
    (lastOf? ['*', '/'] fencedExample).map Cut.position = some 5 ∧ SplitsAt fencedExample 5 ∧
    (first? '^' fencedExample).map Cut.position = some 11 ∧ SplitsAt fencedExample 11 ∧
    (∀ k, ClosedAt fencedExample 8 k ↔ k = 10) ∧
    Relation.TransGen GoesOn fencedExample "(d)^2".toList ∧
    ∀ t, (parse "(d)^2".toList : Except ParseError (Expr Float)) ≠ .error (.unbalanced t) := by
  have hs : balanced fencedExample = true := by decide +kernel
  have hsign : (lastBinarySign? fencedExample).map Cut.position = some 7 := by decide +kernel
  have hproduct : (lastOf? ['*', '/'] fencedExample).map Cut.position = some 5 := by decide +kernel
  have hpower : (first? '^' fencedExample).map Cut.position = some 11 := by decide +kernel
  have hpair : pair? fencedExample 8 = some 10 := by decide +kernel
  have hpart : Relation.TransGen GoesOn fencedExample "(d)^2".toList := by
    have hmem : "(d)^2".toList ∈ (Form.of (trim fencedExample)).parts := by decide +kernel
    exact .single hmem
  obtain ⟨hsplits, _, hread⟩ := splitting_keeps_balance Float fencedExample
  obtain ⟨hsigns, hproducts, hpowers, hpairs⟩ := hsplits hs
  obtain ⟨c, hc, hseven⟩ := Option.map_eq_some_iff.mp hsign
  obtain ⟨d, hd, hfive⟩ := Option.map_eq_some_iff.mp hproduct
  obtain ⟨b, hb, heleven⟩ := Option.map_eq_some_iff.mp hpower
  obtain ⟨j, hj, hclosed⟩ := hpairs "(a-b)*c-".toList "d)^2".toList (by decide +kernel)
  have hsize : size "(a-b)*c-".toList = 8 := by decide +kernel
  rw [hsize] at hj hclosed
  obtain rfl : 10 = j := Option.some.inj (hpair.symm.trans hj)
  refine ⟨hs, hsign, ?_, hproduct, ?_, hpower, ?_, hclosed, hpart, (hread _ hpart).2⟩
  · exact hseven ▸ hsigns c hc
  · exact hfive ▸ hproducts _ d hd
  · exact heleven ▸ hpowers _ b hb

end Expr

end Trajectory
