import Trajectory.Decimal.Reading
import Trajectory.Expr.Form

namespace Trajectory

/-- The function that a name stands for. Some functions have several names. -/
def Func.ofName? (name : List Char) : Option Func :=
  match String.ofList name with
  | "exp" => some exp
  | "ln" | "log" => some ln
  | "abs" => some abs
  | "sin" => some sin
  | "cos" => some cos
  | "tg" | "tan" => some tg
  | "ctg" | "cot" => some ctg
  | "arcsin" | "asin" => some arcsin
  | "arccos" | "acos" => some arccos
  | "arctg" | "atan" | "arctan" => some arctg
  | "arcctg" | "acot" => some arcctg
  | _ => none

namespace Expr

variable {α : Type} [Scalar α]

/-- A leading minus: it changes a constant and makes a product of anything else. -/
def negated : Expr α → Expr α
  | const v => const (-v)
  | e => neg e

def ofCall (name : List Char) (argument : Expr α) : Except ParseError (Expr α) :=
  if name = ['s', 'q', 'r', 't'] then .ok (sqrt argument)
  else
    match Func.ofName? name with
    | some f => .ok (apply f argument)
    | none => .error (.unknownFunction name)

def ofNumber (digits : List Char) : Except ParseError (Expr α) :=
  match Scalar.ofDecimalText? digits with
  | some v => .ok (const v)
  | none => .error (.invalidNumber digits)

/-- A variable, or the constant with a name. -/
def ofName (name : List Char) : Expr α :=
  if name = ['p', 'i'] then const Scalar.pi else var (String.ofList name)

def parse (s : List Char) : Except ParseError (Expr α) :=
  match _form : Form.of (Text.trim s) with
  | .binary op left right => do
    let a ← parse left
    let b ← parse right
    pure (binary op a b)
  | .negative operand => do
    let e ← parse operand
    pure (negated e)
  | .positive operand => parse operand
  | .bracketed inner => parse inner
  | .call name argument => do
    let e ← parse argument
    ofCall name e
  | .number digits => ofNumber digits
  | .name identifier => .ok (ofName identifier)
  | .fault e => .error e
termination_by s.length
decreasing_by all_goals exact Form.length_part_lt ‹_› (by simp [Form.parts])

def ofText (s : String) : Except ParseError (Expr α) := parse s.toList

end Expr

/-- The variables named in a list with commas between the names. -/
def Expr.symbols {α : Type} (s : String) : List (Expr α) :=
  (s.split (fun c => c == ',')).toList.filterMap fun part =>
    let name := Text.trimmed part.toString
    if name.isEmpty then none else some (var name)

end Trajectory
