import Trajectory.Decimal.Binary64
import Trajectory.Solver.Answer

namespace Trajectory

namespace Cli

structure Outcome where
  succeeded : Bool
  output : List String
  complaints : List String
  files : FileTree

/-- The session of a program counts the steps of its run. -/
abbrev Call := Session.Action Float Nat

abbrev Solution := Except (SolverError Float) (List (Point Float))

/-- More than any run needs. -/
def budget : Nat := Nat.pow 10 18

def ask (q : Session.Request Float Nat) : Call (Session.Answer q) := Session.ask budget q

def countStep : Script (Session.protocol Float Nat) := Program.script do
  let n ← Program.request (p := Session.protocol Float Nat) .recall
  Program.request (p := Session.protocol Float Nat) (.remember (n + 1))

/-- A damped oscillator that is let go at one. -/
def oscillator : Task Float where
  equations := ["y'' = -0.1*y_1 - y"]
  conditions := Conditions.ofList [("y", 1), ("y_1", 0)]

/-- Solves the oscillator: the number of steps, and the points. -/
def solveOscillator : Call (List String × Solution) := do
  let settings : List (Call (Except (SolverError Float) Unit)) :=
    [ask (.setEquations oscillator.equations),
     ask (.setConditions oscillator.conditions),
     ask (.setRange "t" 0 20 (Scalar.ofDecimal 1 (-2))),
     ask (.setTolerance (Scalar.ofDecimal 1 (-8)) (Scalar.ofDecimal 1 (-8)))]
  match ← Task.inOrder settings with
  | .error e => pure ([], .error e)
  | .ok _ => do
    let _ ← Act.subscribe (p := Session.protocol Float Nat) .progress fun _ => countStep
    match ← ask (.run true) with
    | .error e => pure ([], .error e)
    | .ok points => do
      let steps ← ask .recall
      let line := s!"{steps} steps accepted"
      match ← ask (.save "oscillator.csv") with
      | .error e => pure ([line], .error e)
      | .ok _ => pure ([line], .ok points)

def solveFile (path : String) (content : Except FileFault String) :
    Call (List String × Solution) := do
  let loaded : Except (SolverError Float) (Task Float) ← Task.load path content
  match loaded with
  | .error e => pure ([], .error e)
  | .ok task => do
    let solution ← ask (.solveTask task)
    pure ([], solution)

def pointLine (p : Point Float) : String :=
  ", ".intercalate (p.bindings.map fun b => s!"{b.1} = {Binary64.fixedText 6 b.2}")

/-- Every `step + 1`-th element, from the first one on. -/
def everyNth {β : Type} (step : Nat) : Nat → List β → List β
  | _, [] => []
  | 0, b :: bs => b :: everyNth step step bs
  | skip + 1, _ :: bs => everyNth step skip bs

/-- About ten points of a solution, and its last one. -/
def summary (points : List (Point Float)) : List String :=
  (everyNth (max (points.length / 10) 1 - 1) 0 points ++ points.getLast?.toList).map pointLine

/-- The lines of a text in which every line is ended. -/
def endedLines (s : String) : List String := (s.splitOn "\n").dropLast

/-- What a run prints, after what it has written to the standard streams by their paths. -/
def outcomeOf (succeeded : Bool) (output complaints : List String)
    (w : World (Session.protocol Float Nat)) : Outcome :=
  let files := Session.filesIn w
  { succeeded
    output := endedLines files.printed ++ output
    complaints := w.state.complaints ++ endedLines files.complained ++ complaints
    files }

/-- Runs the program among files: on the one with the given path and content, if one is given. -/
def run (source? : Option (String × Except FileFault String)) (files : FileTree) : Outcome :=
  let program : Call (List String × Solution) := do
    Session.applyLogSettings
    match source? with
    | some (path, content) => solveFile path content
    | none => solveOscillator
  -- The first logger has no file, so it does not matter what its entries would be.
  match program (Session.newWorld files 0 (.vacant fun _ line => line.text)) with
  | .ok (lines, .ok points) w => outcomeOf true (lines ++ summary points) [] w
  | .ok (lines, .error e) w => outcomeOf false lines [s!"error: {e.message}"] w
  | .error _ w => outcomeOf false [] ["error: out of budget"] w

end Cli

end Trajectory
