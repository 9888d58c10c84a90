namespace Trajectory.Text

def isLetter (c : Char) : Bool := c.isAlpha

def isDigit (c : Char) : Bool := c.isDigit

/-- The characters that may follow the first one of an identifier. -/
def isWordChar (c : Char) : Bool := isLetter c || isDigit c || c == '_'

def isIdentifierStart (c : Char) : Bool := isLetter c || c == '_'

def isIdentifier : List Char → Bool
  | [] => false
  | c :: rest => isIdentifierStart c && rest.all isWordChar

/-- The longest identifier a text begins with, and the text after it. -/
def takeIdentifier? : List Char → Option (List Char × List Char)
  | [] => none
  | c :: rest =>
    if isIdentifierStart c then some (c :: rest.takeWhile isWordChar, rest.dropWhile isWordChar)
    else none

theorem length_takeIdentifier_lt {s : List Char} {found : List Char × List Char}
    (h : takeIdentifier? s = some found) : found.2.length < s.length := by
  unfold takeIdentifier? at h
  split at h
  next => cases h
  next c rest =>
    split at h
    next =>
      cases h
      exact Nat.lt_succ_of_le (List.dropWhile_sublist isWordChar (l := rest)).length_le
    next => cases h

end Trajectory.Text
