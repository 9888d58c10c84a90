import Mathlib.Data.List.Basic
import Trajectory.Expr.Basic

namespace Trajectory

variable {α β γ : Type}

/-- A computation that needs every name bound: its value, or the first name that is not. -/
def EvalError.unlessMissing (missing? : Option String) (b : β) : Except EvalError β :=
  match missing? with
  | some name => .error (.unbound name)
  | none => .ok b

namespace EvalError

theorem unlessMissing_bind (m n : Option String) (a : α) (b : β) (f : α → β → γ) :
    (do let a ← unlessMissing m a; let b ← unlessMissing n b; pure (f a b)) =
      unlessMissing (m.or n) (f a b) := by
  cases m <;> cases n <;> rfl

theorem unlessMissing_map (m : Option String) (a : α) (f : α → β) :
    (do let a ← unlessMissing m a; pure (f a)) = unlessMissing m (f a) := by cases m <;> rfl

end EvalError

namespace Scope

/-- Whether a name has no value. -/
def lacks (s : Scope α) (name : String) : Bool := (s.get? name).isNone

/-- An assignment of values to all names that gives each name of the scope its value there. -/
def Extends (env : String → α) (s : Scope α) : Prop := ∀ name v, s.get? name = some v → env name = v

theorem get?_zip {names : List String} {values : List α} (h : names.length = values.length)
    (name : String) : (Scope.mk (names.zip values)).get? name = values[names.idxOf name]? := by
  induction names generalizing values with
  | nil =>
    cases values with
    | nil => rfl
    | cons v values => simp at h
  | cons first names ih =>
    cases values with
    | nil => simp at h
    | cons v values =>
      by_cases hname : first = name
      · simp [get?, hname]
      · have hlength : names.length = values.length := by simpa using h
        rw [List.idxOf_cons_ne _ hname, List.getElem?_cons_succ, ← ih hlength]
        simp [get?, List.find?_cons_of_neg, hname]

theorem lacks_zip {names : List String} {values : List α} (h : names.length = values.length)
    (name : String) : (Scope.mk (names.zip values)).lacks name = !names.contains name := by
  rw [lacks, get?_zip h, Bool.eq_iff_iff]
  simp [← h, ← List.idxOf_lt_length_iff]

end Scope

namespace Expr

variable [Scalar α]

/-- The value of an expression when every name has one. -/
def value (env : String → α) : Expr α → α
  | var name => env name
  | const v => v
  | binary op left right =>
    match integerExponent? op right with
    | some n => Scalar.integerPower (left.value env) n
    | none => op.apply (left.value env) (right.value env)
  | apply f argument => f.apply (argument.value env)

/-- An exponent that is multiplied out reads no names. -/
theorem occurrences_of_integerExponent {op : BinaryOp} {e : Expr α} {n : Int}
    (h : integerExponent? op e = some n) : e.occurrences = [] := by
  unfold integerExponent? at h
  split at h
  next => rfl
  next => cases h

theorem eval_eq {s : Scope α} {env : String → α} (henv : Scope.Extends env s) (e : Expr α) :
    e.eval s = EvalError.unlessMissing (e.occurrences.find? s.lacks) (e.value env) := by
  induction e with
  | var name =>
    unfold eval
    cases hget : s.get? name with
    | none => simp [occurrences, Scope.lacks, hget, EvalError.unlessMissing]
    | some v =>
      simp [occurrences, Scope.lacks, hget, EvalError.unlessMissing, value, henv name v hget]
  | const v => rfl
  | apply f argument ih =>
    rw [eval, ih, EvalError.unlessMissing_map]
    rfl
  | binary op left right ihl ihr =>
    rw [eval, value, occurrences, List.find?_append, ihl]
    cases hexponent : integerExponent? op right with
    | some n =>
      rw [occurrences_of_integerExponent hexponent, List.find?_nil, Option.or_none]
      exact EvalError.unlessMissing_map _ _ _
    | none =>
      rw [ihr]
      exact EvalError.unlessMissing_bind _ _ _ _ _

/-- Expressions are evaluated one after the other, up to the first name without a value. -/
theorem evals_eq {s : Scope α} {env : String → α} (henv : Scope.Extends env s)
    (es : List (Expr α)) : es.mapM (fun e => Checked.ofExcept (e.eval s)) =
      Checked.ofExcept
        (EvalError.unlessMissing ((es.flatMap occurrences).find? s.lacks) (es.map (value env))) := by
  induction es with
  | nil => rfl
  | cons e es ih =>
    rw [List.mapM_cons, ih, List.flatMap_cons, List.find?_append, eval_eq henv]
    cases e.occurrences.find? s.lacks with
    | some name => rfl
    | none => cases (es.flatMap occurrences).find? s.lacks <;> rfl

end Expr

end Trajectory
