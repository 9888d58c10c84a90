import Trajectory.Expr.Printer
import Trajectory.Expr.Sign

namespace Trajectory

inductive ParseError where
  | empty
  | unbalanced (input : List Char)
  /-- Nothing stands after a sign. -/
  | missingAfter (op : Char) (input : List Char)
  /-- Nothing stands on one side of an operator. -/
  | missingAround (op : Char) (input : List Char)
  | unknownFunction (name : List Char)
  | invalidNumber (input : List Char)
  | invalidFormat (input : List Char)
deriving Repr, DecidableEq

namespace ParseError

def message : ParseError → String
  | empty => "empty expression"
  | unbalanced input => s!"unbalanced brackets in '{String.ofList input}'"
  | missingAfter op input => s!"missing operand after '{op}' in '{String.ofList input}'"
  | missingAround op input => s!"missing operand around '{op}' in '{String.ofList input}'"
  | unknownFunction name => s!"unknown function '{String.ofList name}'"
  | invalidNumber input => s!"invalid number '{String.ofList input}'"
  | invalidFormat input => s!"Invalid expression format: '{String.ofList input}'"

end ParseError

/-- The outermost form of a text, with the texts of its parts. -/
inductive Form where
  | binary (op : BinaryOp) (left right : List Char)
  | negative (operand : List Char)
  | positive (operand : List Char)
  | bracketed (inner : List Char)
  | call (name argument : List Char)
  | number (digits : List Char)
  | name (identifier : List Char)
  | fault (e : ParseError)
deriving Repr, DecidableEq

namespace Form

open Text (trim isBlankText isIdentifier)

def parts : Form → List (List Char)
  | binary _ left right => [left, right]
  | negative operand => [operand]
  | positive operand => [operand]
  | bracketed inner => [inner]
  | call _ argument => [argument]
  | _ => []

def ofSign (s : List Char) (c : Cut) : Form :=
  if isBlankText c.after then fault (.missingAfter c.mark s)
  else binary (if c.mark = '+' then .add else .sub) c.before c.after

/-- An operator that needs a text on both sides. -/
def ofOperator (op : BinaryOp) (s : List Char) (c : Cut) : Form :=
  if isBlankText c.before || isBlankText c.after then fault (.missingAround c.mark s)
  else binary op c.before c.after

/-- A name with brackets that span the rest of the text. -/
def ofCall? (s : List Char) : Option Form :=
  let name := trim (s.takeWhile fun c => c != '(')
  if isIdentifier name then
    (Bracket.inner? (s.dropWhile fun c => c != '(')).map fun argument => call name argument
  else none

/-- A text without an operator or bracket of its own. -/
def ofToken (s : List Char) : Form :=
  if (s.head?.map Cut.isNumberChar).getD false then number s
  else if isIdentifier s then name s
  else fault (.invalidFormat s)

/-- A text without a sum or a product outside its brackets. -/
def ofFactor (s : List Char) : Form :=
  match s with
  | '-' :: operand => negative operand
  | '+' :: operand => positive operand
  | _ =>
    match Bracket.first? '^' s with
    | some c => ofOperator .power s c
    | none =>
      match Bracket.inner? s with
      | some inner => bracketed inner
      | none => (ofCall? s).getD (ofToken s)

/-- The form of a text that is trimmed. -/
def of (s : List Char) : Form :=
  if s.isEmpty then fault .empty
  else if !Bracket.balanced s then fault (.unbalanced s)
  else
    match Bracket.lastBinarySign? s with
    | some c => ofSign s c
    | none =>
      match Bracket.lastOf? ['*', '/'] s with
      | some c => ofOperator (if c.mark = '*' then .mul else .div) s c
      | none => ofFactor s

/-- Every part of a form is shorter than `n` characters. -/
def Below (n : Nat) (f : Form) : Prop := ∀ p ∈ f.parts, p.length < n

theorem below_ofSign {s : List Char} {c : Cut} (h : c.whole = s) :
    (ofSign s c).Below s.length := by
  have hbefore := c.length_before_lt
  have hafter := c.length_after_lt
  rw [h] at hbefore hafter
  unfold ofSign Below
  split <;> simp [parts, hbefore, hafter]

theorem below_ofOperator {op : BinaryOp} {s : List Char} {c : Cut} (h : c.whole = s) :
    (ofOperator op s c).Below s.length := by
  have hbefore := c.length_before_lt
  have hafter := c.length_after_lt
  rw [h] at hbefore hafter
  unfold ofOperator Below
  split <;> simp [parts, hbefore, hafter]

theorem below_ofToken (s : List Char) : (ofToken s).Below s.length := by
  unfold ofToken Below
  split
  · simp [parts]
  · split <;> simp [parts]

theorem below_ofCall {s : List Char} {f : Form} (h : ofCall? s = some f) :
    f.Below s.length := by
  simp only [ofCall?] at h
  split at h
  next =>
    obtain ⟨argument, hinner, rfl⟩ := Option.map_eq_some_iff.mp h
    have hlt := Bracket.length_inner_lt hinner
    have hle := (List.dropWhile_sublist (fun c => c != '(') (l := s)).length_le
    simpa [Below, parts] using Nat.lt_of_lt_of_le hlt hle
  next => cases h

theorem below_ofFactor (s : List Char) : (ofFactor s).Below s.length := by
  unfold ofFactor
  split
  next => simp [Below, parts]
  next => simp [Below, parts]
  next =>
    split
    next hcut => exact below_ofOperator (Bracket.whole_first hcut)
    next =>
      split
      next hinner => simpa [Below, parts] using Bracket.length_inner_lt hinner
      next =>
        cases hcall : ofCall? s with
        | none => exact below_ofToken s
        | some f => exact below_ofCall hcall

theorem below_of (s : List Char) : (of s).Below s.length := by
  unfold of
  split
  next => simp [Below, parts]
  next =>
    split
    next => simp [Below, parts]
    next =>
      split
      next hcut => exact below_ofSign (Bracket.whole_lastBinarySign hcut)
      next =>
        split
        next hcut => exact below_ofOperator (Bracket.whole_lastOf hcut)
        next => exact below_ofFactor s

theorem length_part_lt {s p : List Char} {f : Form} (h : of (trim s) = f) (hp : p ∈ f.parts) :
    p.length < s.length := by
  subst h
  exact Nat.lt_of_lt_of_le (below_of (trim s) p hp) (Text.length_trim_le s)

end Form

end Trajectory
