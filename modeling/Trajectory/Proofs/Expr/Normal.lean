import Trajectory.Expr.Basic
import Trajectory.Proofs.Number.Sign

namespace Trajectory.Expr

open Binary64 (signBit)

/-- An expression and all of its parts. -/
def nodes {α : Type} : Expr α → List (Expr α)
  | var name => [var name]
  | const c => [const c]
  | binary op left right => binary op left right :: (left.nodes ++ right.nodes)
  | apply f argument => apply f argument :: argument.nodes

/-- A power with a minus before its base becomes a minus before the power. -/
def pullSign : Expr Float → Expr Float
  | binary .power (const c) right =>
    if signBit c then binary .mul (const (-Scalar.one)) (binary .power (const (-c)) right)
    else binary .power (const c) right
  | e => e

/-- Every sign before the base of a power pulled out, from the inside to the outside. -/
def normal : Expr Float → Expr Float
  | var name => var name
  | const c => const c
  | binary op left right => pullSign (binary op left.normal right.normal)
  | apply f argument => apply f argument.normal

theorem mem_nodes {α : Type} (e : Expr α) : e ∈ e.nodes := by cases e <;> simp [nodes]

/-- The base of a power that a minus is written before. -/
def SignedBase (op : BinaryOp) (left : Expr Float) : Prop :=
  op = .power ∧ ∃ c, left = const c ∧ signBit c = true

theorem pullSign_signed {c : Float} (hc : signBit c = true) (right : Expr Float) :
    pullSign (binary .power (const c) right) =
      binary .mul (const (-Scalar.one)) (binary .power (const (-c)) right) := if_pos hc

theorem pullSign_plain {op : BinaryOp} {left : Expr Float} (h : ¬ SignedBase op left)
    (right : Expr Float) : pullSign (binary op left right) = binary op left right := by
  unfold pullSign
  split
  next c _ heq =>
    split
    next hc =>
      cases heq
      exact absurd ⟨rfl, c, rfl, hc⟩ h
    next => exact heq.symm
  next => rfl

theorem pullSign_binary (op : BinaryOp) (left right : Expr Float) :
    ∃ op' left' right', pullSign (binary op left right) = binary op' left' right' := by
  by_cases h : SignedBase op left
  · obtain ⟨rfl, c, rfl, hc⟩ := h
    exact ⟨_, _, _, pullSign_signed hc right⟩
  · exact ⟨op, left, right, pullSign_plain h right⟩

theorem normal_eq_const {e : Expr Float} {c : Float} : e.normal = const c ↔ e = const c := by
  cases e with
  | var name => exact Iff.rfl
  | const d => exact Iff.rfl
  | apply f argument => simp [normal]
  | binary op left right =>
    obtain ⟨op', left', right', h⟩ := pullSign_binary op left.normal right.normal
    simp [normal, h]

theorem signedBase_normal {op : BinaryOp} {left : Expr Float} :
    SignedBase op left.normal ↔ SignedBase op left := by simp [SignedBase, normal_eq_const]

theorem normal_signed {c : Float} (hc : signBit c = true) (right : Expr Float) :
    (binary .power (const c) right).normal =
      binary .mul (const (-Scalar.one)) (binary .power (const (-c)) right.normal) :=
  pullSign_signed hc right.normal

theorem normal_plain {op : BinaryOp} {left : Expr Float} (h : ¬ SignedBase op left)
    (right : Expr Float) : (binary op left right).normal = binary op left.normal right.normal :=
  pullSign_plain (mt signedBase_normal.mp h) right.normal

/-- Nothing is pulled out if and only if no power has a base with a minus. -/
theorem normal_eq_iff {e : Expr Float} : e.normal = e ↔
    ∀ c right, binary .power (const c) right ∈ e.nodes → signBit c = false := by
  induction e with
  | var name => simp [normal, nodes]
  | const c => simp [normal, nodes]
  | apply f argument ih => simp [normal, nodes, ih]
  | binary op left right ihl ihr =>
    by_cases h : SignedBase op left
    · obtain ⟨rfl, c, rfl, hc⟩ := h
      rw [normal_signed hc]
      refine iff_of_false (by simp) fun hall => ?_
      rw [hall c right (mem_nodes _)] at hc
      cases hc
    · rw [normal_plain h, binary.injEq, ihl, ihr]
      constructor
      · rintro ⟨_, hl, hr⟩ c r hmem
        rcases List.mem_cons.mp hmem with heq | hmem
        · cases heq
          exact Bool.eq_false_iff.mpr fun hc => h ⟨rfl, c, rfl, hc⟩
        · rcases List.mem_append.mp hmem with hmem | hmem
          · exact hl c r hmem
          · exact hr c r hmem
      · intro hall
        refine ⟨rfl, fun c r hmem => hall c r ?_, fun c r hmem => hall c r ?_⟩
        · exact List.mem_cons_of_mem _ (List.mem_append_left _ hmem)
        · exact List.mem_cons_of_mem _ (List.mem_append_right _ hmem)

end Trajectory.Expr
