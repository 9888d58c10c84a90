import Trajectory.Number.Failure

namespace Trajectory

structure Scope (α : Type) where
  bindings : List (String × α)
deriving Repr

namespace Scope

variable {α : Type}

/-- One value for each name; the caller promises equally many of both. -/
def ofLists {ε : Type} (names : List String) (values : List α) : Checked ε (Scope α) := do
  Checked.sameSize names.length values.length
  pure ⟨names.zip values⟩

/-- The value bound to a name. Of two bindings of one name the first counts. -/
def get? (s : Scope α) (name : String) : Option α :=
  (s.bindings.find? fun b => b.1 == name).map Prod.snd

def names (s : Scope α) : List String := s.bindings.map Prod.fst

def values (s : Scope α) : List α := s.bindings.map Prod.snd

def size (s : Scope α) : Nat := s.bindings.length

end Scope

end Trajectory
