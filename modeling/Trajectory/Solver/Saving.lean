import Trajectory.Solver.Session

namespace Trajectory

namespace Point

variable {α : Type} [Numeral α]

def valueFields (p : Point α) : List (List Char) := p.values.map fun v => (text v).toList

/-- The records of a table, none where there are no points. -/
def records : List (Point α) → List (List (List Char))
  | [] => []
  | p :: points => p.names.map String.toList :: (p :: points).map valueFields

def save (points : List (Point α)) (files : FileTree) (file : String) :
    Except TableFault FileTree := do
  let _ ← (files.write file "").mapError .file
  let table ← Record.write (records points)
  (files.write file (String.ofList table)).mapError .file

end Point

namespace Session

variable {α μ : Type} [Numeral α]

def save (file : String) : Action α μ (Result α Unit) := do
  let files ← flushLog
  let s : Session α μ ← Act.getState
  match Point.save s.solver.result files file with
  | .error fault => pure (.error (.table fault))
  | .ok files => do
    Act.modifyState fun s : Session α μ => { s with files }
    Act.log ⟨.info, s!"{s.solver.result.length} points saved to {file}"⟩
    pure (.ok ())

end Session

end Trajectory
