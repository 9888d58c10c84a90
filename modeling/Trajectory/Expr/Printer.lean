import Trajectory.Expr.Basic

namespace Trajectory

def BinaryOp.symbol : BinaryOp → Char
  | add => '+'
  | sub => '-'
  | mul => '*'
  | div => '/'
  | power => '^'

def Func.name : Func → String
  | exp => "exp"
  | ln => "ln"
  | abs => "abs"
  | sin => "sin"
  | cos => "cos"
  | tg => "tg"
  | ctg => "ctg"
  | arcsin => "arcsin"
  | arccos => "arccos"
  | arctg => "arctg"
  | arcctg => "arcctg"

namespace Expr

variable {α : Type} [Numeral α]

/-- The characters of the written form, put before `rest`. -/
def writeBefore (rest : List Char) : Expr α → List Char
  | var name => name.toList ++ rest
  | const v => (text v).toList ++ rest
  | binary op left right =>
    '(' :: left.writeBefore (' ' :: op.symbol :: ' ' :: right.writeBefore (')' :: rest))
  | apply f argument => f.name.toList ++ '(' :: argument.writeBefore (')' :: rest)

def written (e : Expr α) : List Char := e.writeBefore []

def toText (e : Expr α) : String := String.ofList e.written

end Expr

end Trajectory
