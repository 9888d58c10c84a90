import Trajectory.Number.Failure

namespace Trajectory

/-- The first name is that of the argument. -/
structure Point (α : Type) where
  names : List String
  values : List α
deriving Repr

namespace Point

variable {α ε : Type}

/-- A point with one value for each name, as its maker promises. -/
def make (names : List String) (values : List α) : Checked ε (Point α) := do
  Checked.sameSize names.length values.length
  pure ⟨names, values⟩

def arg? (p : Point α) : Option String := p.names.head?

def x? (p : Point α) : Option α := p.values.head?

def bindings (p : Point α) : List (String × α) := p.names.zip p.values

/-- The entry in a slot, which the caller promises to be there. -/
def slot (y : List α) (i : Nat) : Checked ε α :=
  match y[i]? with
  | some v => pure v
  | none => Checked.breach (.sizes (i + 1) y.length)

/-- The value of the argument or of a variable. The first of equal names counts, and there is
promised to be a value for it. -/
def get? (p : Point α) (name : String) : Checked ε (Option α) :=
  match p.names.findIdx? fun n => n == name with
  | none => pure none
  | some i => do
    let v ← slot p.values i
    pure (some v)

def select (indices : List Nat) (y : List α) : Checked ε (List α) := indices.mapM (slot y)

/-- The point at `x` that shows the slots `indices` of the state `y`. -/
def project (names : List String) (indices : List Nat) (x : α) (y : List α) :
    Checked ε (Point α) := do
  let values ← select indices y
  make names (x :: values)

end Point

end Trajectory
