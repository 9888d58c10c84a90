import Trajectory.Expr.Parser
import Trajectory.Proofs.Expr.Token

namespace Trajectory

namespace Mark

/-- The operator of a sum that a mark stands for. -/
def sumOp? : Mark → Option BinaryOp
  | plus => some .add
  | minus => some .sub
  | _ => none

def productOp? : Mark → Option BinaryOp
  | times => some .mul
  | slash => some .div
  | _ => none

end Mark

/-- The functions by all of their names. -/
def Func.spellings : List (String × Func) :=
  [("exp", exp), ("ln", ln), ("log", ln), ("abs", abs), ("sin", sin), ("cos", cos), ("tg", tg),
   ("tan", tg), ("ctg", ctg), ("cot", ctg), ("arcsin", arcsin), ("asin", arcsin),
   ("arccos", arccos), ("acos", arccos), ("arctg", arctg), ("atan", arctg), ("arctan", arctg),
   ("arcctg", arcctg), ("acot", arcctg)]

namespace Grammar

variable {α : Type} [Scalar α]

/-- The tree of a name that stands alone. -/
inductive Named : List Char → Expr α → Prop
  | pi : Named ['p', 'i'] (.const Scalar.pi)
  | var {n : List Char} (hn : n ≠ ['p', 'i']) : Named n (.var (String.ofList n))

/-- The tree of a function's name before an argument. -/
inductive Applied : List Char → Expr α → Expr α → Prop
  | sqrt {e : Expr α} : Applied ['s', 'q', 'r', 't'] e (.binary .power e (.const Scalar.half))
  | func {n : List Char} {f : Func} {e : Expr α} (hn : (String.ofList n, f) ∈ Func.spellings) :
      Applied n e (.apply f e)

/-- The tree of a minus before an operand. -/
inductive Negated : Expr α → Expr α → Prop
  | const {v : α} : Negated (.const v) (.const (-v))
  | product {e : Expr α} (he : ∀ v, e ≠ .const v) :
      Negated e (.binary .mul (.const (-Scalar.one)) e)

inductive Category where
  | sum
  | product
  | unary
  | power
  | atom

/-- The words that make up an expression of a category, and its tree. -/
inductive Derives : Category → List Token → Expr α → Prop
  | product {ts : List Token} {e : Expr α} (h : Derives .product ts e) : Derives .sum ts e
  | sum {m : Mark} {op : BinaryOp} {ts us : List Token} {a b : Expr α} (hm : m.sumOp? = some op)
      (ha : Derives .sum ts a) (hb : Derives .product us b) :
      Derives .sum (ts ++ .mark m :: us) (.binary op a b)
  | unary {ts : List Token} {e : Expr α} (h : Derives .unary ts e) : Derives .product ts e
  | factor {m : Mark} {op : BinaryOp} {ts us : List Token} {a b : Expr α}
      (hm : m.productOp? = some op) (ha : Derives .product ts a) (hb : Derives .unary us b) :
      Derives .product (ts ++ .mark m :: us) (.binary op a b)
  | power {ts : List Token} {e : Expr α} (h : Derives .power ts e) : Derives .unary ts e
  | positive {ts : List Token} {e : Expr α} (h : Derives .unary ts e) :
      Derives .unary (.mark .plus :: ts) e
  | negative {ts : List Token} {e f : Expr α} (h : Derives .unary ts e) (hf : Negated e f) :
      Derives .unary (.mark .minus :: ts) f
  | atom {ts : List Token} {e : Expr α} (h : Derives .atom ts e) : Derives .power ts e
  | raised {ts us : List Token} {a b : Expr α} (ha : Derives .atom ts a)
      (hb : Derives .unary us b) : Derives .power (ts ++ .mark .caret :: us) (.binary .power a b)
  | number {digits : List Char} {proper : Decimal.NumberText digits} {v : α}
      (hv : Scalar.ofDecimalText? digits = some v) :
      Derives .atom [.number digits proper] (.const v)
  | name {n : List Char} {proper : Text.isIdentifier n = true} {e : Expr α} (he : Named n e) :
      Derives .atom [.name n proper] e
  | bracketed {ts : List Token} {e : Expr α} (h : Derives .sum ts e) :
      Derives .atom (.mark .opening :: ts ++ [.mark .closing]) e
  | call {n : List Char} {proper : Text.isIdentifier n = true} {ts : List Token} {e f : Expr α}
      (h : Derives .sum ts e) (hf : Applied n e f) :
      Derives .atom (.name n proper :: .mark .opening :: ts ++ [.mark .closing]) f

/-- A text is an expression with a tree if its words are a sum with that tree. -/
def Reads (s : List Char) (e : Expr α) : Prop := ∃ ts, Spells ts s ∧ Derives .sum ts e

theorem named_iff {n : List Char} {e : Expr α} : Named n e ↔ e = Expr.ofName n := by
  unfold Expr.ofName
  constructor
  · intro h
    cases h with
    | pi => rfl
    | var hn => rw [if_neg hn]
  · rintro rfl
    split
    next hn => exact hn ▸ .pi
    next hn => exact .var hn

theorem negated_iff {e f : Expr α} : Negated e f ↔ f = e.negated := by
  constructor
  · intro h
    cases h with
    | const => rfl
    | product he =>
      cases e with
      | const v => exact absurd rfl (he v)
      | _ => rfl
  · rintro rfl
    cases e with
    | const v => exact .const
    | _ => exact .product (by simp)

theorem ofName_of_spelling : ∀ p ∈ Func.spellings, Func.ofName? p.1.toList = some p.2 := by
  decide +kernel

theorem ofName_eq_some_iff {n : List Char} {f : Func} :
    Func.ofName? n = some f ↔ (String.ofList n, f) ∈ Func.spellings := by
  constructor
  · intro h
    unfold Func.ofName? at h
    generalize String.ofList n = w at h
    split at h <;> cases h <;> decide
  · intro h
    simpa using ofName_of_spelling _ h

theorem applied_iff {n : List Char} {e f : Expr α} : Applied n e f ↔ Expr.ofCall n e = .ok f := by
  unfold Expr.ofCall
  constructor
  · intro h
    cases h with
    | sqrt => rfl
    | @func _ f _ hn =>
      have hsqrt : n ≠ ['s', 'q', 'r', 't'] := by
        rintro rfl
        revert hn
        cases f <;> decide
      rw [if_neg hsqrt, ofName_eq_some_iff.mpr hn]
  · intro h
    split at h
    next hn =>
      cases h
      exact hn ▸ .sqrt
    next =>
      split at h
      next f hf =>
        cases h
        exact .func (ofName_eq_some_iff.mp hf)
      next => cases h

end Grammar

end Trajectory
