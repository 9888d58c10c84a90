import Trajectory.Document.Comment
import Trajectory.Document.Section
import Trajectory.Document.Value

namespace Trajectory

/-- The values of each key, keys in the order of their first appearance. -/
structure Entries (α : Type) where
  list : List (String × List (Value α)) := []
deriving Repr, DecidableEq

/-- The entries of each title, titles in the order of their first appearance. -/
structure Document (α : Type) where
  sections : List (String × Entries α) := []
deriving Repr, DecidableEq

/-- Changes the item that stands under a key, or puts a new one after all others. -/
def alter {β : Type} (key : String) (f : Option β → β) : List (String × β) → List (String × β)
  | [] => [(key, f none)]
  | item :: items =>
    if item.1 == key then (key, f (some item.2)) :: items else item :: alter key f items

namespace Document

variable {α : Type}

def addValues (entries : Entries α) (key : String) (values : List (Value α)) : Entries α :=
  ⟨alter key (fun old? => old?.getD [] ++ values) entries.list⟩

def add (d : Document α) (title key : String) (values : List (Value α)) : Document α :=
  ⟨alter title (fun old? => addValues (old?.getD {}) key values) d.sections⟩

variable [Scalar α]

def addSection (d : Document α) (s : Section) : Document α :=
  s.entries.foldl
    (fun d entry =>
      d.add (String.ofList s.title) (String.ofList entry.1) (entry.2.map Value.ofField)) d

def ofSections (sections : List Section) : Document α := sections.foldl addSection {}

/-- A document without comments, and the text after it. -/
def readFirst (s : List Char) : Except LineFault (Document α × List Char) := do
  let (sections, rest) ← Section.readAll s
  pure (ofSections sections, rest)

/-- A whole document. Comments and blank lines are dropped, and nothing but blanks may be left over
after its last section. -/
def ofText (s : String) : Except DocumentFault (Document α) := do
  let (d, rest) ← (readFirst (Comment.remove s.toList)).mapError .line
  if Text.isBlankText rest then pure d else throw (.remaining rest)

end Document

end Trajectory
