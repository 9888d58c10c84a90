import Trajectory.Document.Fault
import Trajectory.Outcome
import Trajectory.Text.Blank
import Trajectory.Text.Identifier

namespace Trajectory

namespace Line

open Text (takeIdentifier?)

def isSpace (c : Char) : Bool := c == ' ' || c == '\t'

def skipSpaces (s : List Char) : List Char := s.dropWhile isSpace

def skipSemicolon : List Char → List Char
  | ';' :: s => s
  | s => s

/-- The text after the end of a line, which may stand after spaces and a semicolon. -/
def finish (s : List Char) : Except LineFault (List Char) :=
  match skipSpaces (skipSemicolon (skipSpaces s)) with
  | [] => .ok []
  | '\n' :: rest => .ok rest
  | '\r' :: '\n' :: rest => .ok rest
  | rest => .error ⟨rest, .lineEnd⟩

/-- The identifier that a line begins with after its spaces. -/
def identifier (s : List Char) : Except LineFault (List Char × List Char) :=
  match takeIdentifier? (skipSpaces s) with
  | some found => .ok found
  | none => .error ⟨skipSpaces s, .identifier⟩

/-- A title and the text after its line. -/
def title (s : List Char) : Except LineFault (List Char × List Char) := do
  let (name, rest) ← identifier s
  let rest ← finish rest
  pure (name, rest)

def isFieldChar (c : Char) : Bool := c != ',' && c != ';' && c != '\n' && c != '\r'

/-- The field that a text begins with, without the blanks around it. -/
def field? (s : List Char) : Option (List Char × List Char) :=
  let field := Text.trim (s.takeWhile isFieldChar)
  if field.isEmpty then none else some (field, s.dropWhile isFieldChar)

theorem length_field_le {s field rest : List Char} (h : field? s = some (field, rest)) :
    rest.length ≤ s.length := by
  simp only [field?] at h
  split at h
  · cases h
  · cases h
    exact (List.dropWhile_sublist isFieldChar (l := s)).length_le

theorem length_skipSpaces_le (s : List Char) : (skipSpaces s).length ≤ s.length :=
  (List.dropWhile_sublist isSpace (l := s)).length_le

/-- The fields after the first one, each with a comma before it, and the text after them. A comma
without a field after it is left unread. -/
def moreFields (s : List Char) : List (List Char) × List Char :=
  match s with
  | ',' :: later =>
    match _found : field? (skipSpaces later) with
    | some (field, rest) =>
      let (fields, rest) := moreFields rest
      (field :: fields, rest)
    | none => ([], s)
  | _ => ([], s)
termination_by s.length
decreasing_by
  have hfield := length_field_le ‹_›
  have hspaces := length_skipSpaces_le later
  simp only [List.length_cons]
  omega

/-- The fields of a line, and the text after them. -/
def fields (s : List Char) : List (List Char) × List Char :=
  match field? (skipSpaces s) with
  | some (field, rest) =>
    let (fields, rest) := moreFields rest
    (field :: fields, rest)
  | none => ([], skipSpaces s)

def colon (s : List Char) : Except LineFault (List Char) :=
  match skipSpaces s with
  | ':' :: rest => .ok rest
  | rest => .error ⟨rest, .colon⟩

/-- A key with its fields, and the text after its line. -/
def entry (s : List Char) : Except LineFault ((List Char × List (List Char)) × List Char) := do
  let (key, rest) ← identifier s
  let rest ← colon rest
  let (fields, rest) := fields rest
  let rest ← finish rest
  pure ((key, fields), rest)

theorem length_identifier_lt {s : List Char} {found : List Char × List Char}
    (h : identifier s = .ok found) : found.2.length < s.length := by
  have hspaces := length_skipSpaces_le s
  unfold identifier at h
  split at h
  next name hname =>
    cases h
    exact Nat.lt_of_lt_of_le (Text.length_takeIdentifier_lt hname) hspaces
  next => cases h

theorem length_finish_le {s rest : List Char} (h : finish s = .ok rest) :
    rest.length ≤ s.length := by
  have hle : (skipSpaces (skipSemicolon (skipSpaces s))).length ≤ s.length := by
    have hfirst := length_skipSpaces_le s
    have hmiddle : (skipSemicolon (skipSpaces s)).length ≤ (skipSpaces s).length := by
      unfold skipSemicolon
      split
      next heq => simp [heq]
      next => exact Nat.le_refl _
    have hlast := length_skipSpaces_le (skipSemicolon (skipSpaces s))
    omega
  unfold finish at h
  split at h
  next => cases h; exact Nat.zero_le _
  next heq => cases h; simp only [heq, List.length_cons] at hle; omega
  next heq => cases h; simp only [heq, List.length_cons] at hle; omega
  next => cases h

theorem length_moreFields_le (s : List Char) : (moreFields s).2.length ≤ s.length := by
  fun_induction moreFields s with
  | case1 later field rest found fields rest' more ih =>
    have hfield := length_field_le found
    have hspaces := length_skipSpaces_le later
    simp only [List.length_cons, more] at ih ⊢
    omega
  | case2 => exact Nat.le_refl _
  | case3 => exact Nat.le_refl _

theorem length_fields_le (s : List Char) : (fields s).2.length ≤ s.length := by
  have hspaces := length_skipSpaces_le s
  unfold fields
  split
  next field rest found =>
    have hfield := length_field_le found
    have hmore := length_moreFields_le rest
    exact Nat.le_trans hmore (Nat.le_trans hfield hspaces)
  next => exact hspaces

theorem length_colon_le {s rest : List Char} (h : colon s = .ok rest) :
    rest.length ≤ s.length := by
  have hspaces := length_skipSpaces_le s
  unfold colon at h
  split at h
  next heq => cases h; simp only [heq, List.length_cons] at hspaces; omega
  next => cases h

theorem length_title_lt {s : List Char} {found : List Char × List Char}
    (h : title s = .ok found) : found.2.length < s.length := by
  obtain ⟨⟨name, rest⟩, hname, h⟩ := bind_eq_ok.mp h
  obtain ⟨rest', hfinish, h⟩ := bind_eq_ok.mp h
  cases h
  exact Nat.lt_of_le_of_lt (length_finish_le hfinish) (length_identifier_lt hname)

theorem length_entry_lt {s : List Char} {found : (List Char × List (List Char)) × List Char}
    (h : entry s = .ok found) : found.2.length < s.length := by
  obtain ⟨⟨key, afterKey⟩, hkey, h⟩ := bind_eq_ok.mp h
  obtain ⟨afterColon, hcolon, h⟩ := bind_eq_ok.mp h
  obtain ⟨rest, hfinish, h⟩ := bind_eq_ok.mp h
  cases h
  have h1 := length_identifier_lt hkey
  have h2 := length_colon_le hcolon
  have h3 := length_fields_le afterColon
  have h4 : rest.length ≤ (fields afterColon).2.length := length_finish_le hfinish
  exact Nat.lt_of_le_of_lt (Nat.le_trans h4 (Nat.le_trans h3 h2)) h1

end Line

end Trajectory
