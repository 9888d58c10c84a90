import Trajectory.Document.Line

namespace Trajectory

/-- A title with its keys and their fields, in the order of the lines. -/
structure Section where
  title : List Char
  entries : List (List Char × List (List Char))
deriving Repr, DecidableEq

namespace Section

/-- The key lines that a text begins with, and the text after them. -/
def moreEntries (s : List Char) : List (List Char × List (List Char)) × List Char :=
  match _found : Line.entry s with
  | .ok (entry, rest) =>
    let (entries, rest) := moreEntries rest
    (entry :: entries, rest)
  | .error _ => ([], s)
termination_by s.length
decreasing_by exact Line.length_entry_lt ‹_›

/-- A section, which has at least one key, and the text after it. -/
def read (s : List Char) : Except LineFault (Section × List Char) := do
  let (title, rest) ← Line.title s
  let (first, rest) ← Line.entry rest
  let (entries, rest) := moreEntries rest
  pure (⟨title, first :: entries⟩, rest)

theorem length_moreEntries_le (s : List Char) : (moreEntries s).2.length ≤ s.length := by
  fun_induction moreEntries s with
  | case1 s entry rest found entries rest' more ih =>
    have hentry := Line.length_entry_lt found
    simp only [more] at ih hentry ⊢
    omega
  | case2 => exact Nat.le_refl _

theorem length_read_lt {s : List Char} {found : Section × List Char} (h : read s = .ok found) :
    found.2.length < s.length := by
  obtain ⟨⟨title, afterTitle⟩, htitle, h⟩ := bind_eq_ok.mp h
  obtain ⟨⟨first, afterFirst⟩, hfirst, h⟩ := bind_eq_ok.mp h
  cases h
  have h1 := Line.length_title_lt htitle
  have h2 := Line.length_entry_lt hfirst
  have h3 := length_moreEntries_le afterFirst
  simp only at h1 h2 h3 ⊢
  omega

/-- The sections that a text begins with, and the text after them. -/
def readMore (s : List Char) : List Section × List Char :=
  match _found : read s with
  | .ok (first, rest) =>
    let (sections, rest) := readMore rest
    (first :: sections, rest)
  | .error _ => ([], s)
termination_by s.length
decreasing_by exact length_read_lt ‹_›

/-- At least one section, and the text after all that can be read. -/
def readAll (s : List Char) : Except LineFault (List Section × List Char) := do
  let (first, rest) ← read s
  let (sections, rest) := readMore rest
  pure (first :: sections, rest)

end Section

end Trajectory
