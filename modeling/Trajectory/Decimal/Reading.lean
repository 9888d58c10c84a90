import Trajectory.Decimal.Basic
import Trajectory.Number.Scalar
import Trajectory.Text.Identifier

namespace Trajectory

open Text (isDigit)

namespace Decimal

/-- The natural number that a list of digits stands for. -/
def ofDigits (s : List Char) : Nat := s.foldl (fun n c => 10 * n + (c.toNat - '0'.toNat)) 0

def natural? (s : List Char) : Option Nat :=
  if !s.isEmpty && s.all isDigit then some (ofDigits s) else none

/-- Digits with an optional sign. -/
def integer? : List Char → Option Int
  | '-' :: s => (natural? s).map fun n => -(n : Int)
  | '+' :: s => (natural? s).map fun n => (n : Int)
  | s => (natural? s).map fun n => (n : Int)

/-- The exponent that ends a decimal, zero where there is none. -/
def exponent? : List Char → Option Int
  | [] => some 0
  | c :: s => if c == 'e' || c == 'E' then integer? s else none

/-- The digits after a point, if there is one, and the text after them. -/
def fraction : List Char → List Char × List Char
  | '.' :: s => (s.takeWhile isDigit, s.dropWhile isDigit)
  | s => ([], s)

/-- A decimal without a sign. -/
def read? (s : List Char) : Option Decimal :=
  let whole := s.takeWhile isDigit
  let (places, rest) := fraction (s.dropWhile isDigit)
  if whole.isEmpty && places.isEmpty then none
  else (exponent? rest).map fun e => ⟨ofDigits (whole ++ places), e - places.length⟩

end Decimal

namespace Scalar

variable {α : Type} [Scalar α]

def ofDecimalText? (s : List Char) : Option α :=
  (Decimal.read? s).map fun d => ofDecimal d.mantissa d.exponent

/-- The words for infinity and for no number, in letters of either case. -/
def ofWord? (s : List Char) : Option α :=
  let word := s.map Char.toLower
  if word = ['i', 'n', 'f'] || word = ['i', 'n', 'f', 'i', 'n', 'i', 't', 'y'] then some infinity
  else if word = ['n', 'a', 'n'] then some notANumber
  else none

def ofUnsignedText? (s : List Char) : Option α :=
  match ofDecimalText? s with
  | some a => some a
  | none => ofWord? s

def ofText? : List Char → Option α
  | '-' :: s => (ofUnsignedText? s).map fun a => -a
  | '+' :: s => ofUnsignedText? s
  | s => ofUnsignedText? s

end Scalar

end Trajectory
