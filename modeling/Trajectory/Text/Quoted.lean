import Trajectory.Text.Unprintable

namespace Trajectory.Text

def hexDigits (n : Nat) : List Char := Nat.toDigits 16 n

def quoteChar (c : Char) : List Char :=
  match c with
  | '\x00' => ['\\', '0']
  | '\t' => ['\\', 't']
  | '\r' => ['\\', 'r']
  | '\n' => ['\\', 'n']
  | '"' => ['\\', '"']
  | '\\' => ['\\', '\\']
  | c => if isUnprintable c then ['\\', 'u', '\x7b'] ++ hexDigits c.toNat ++ ['\x7d'] else [c]

def quoted (s : List Char) : String := String.ofList ('"' :: s.flatMap quoteChar ++ ['"'])

/-- A list of names in brackets, each name in quotes. -/
def quotedNames (names : List String) : String :=
  "[" ++ ", ".intercalate (names.map fun name => quoted name.toList) ++ "]"

end Trajectory.Text
