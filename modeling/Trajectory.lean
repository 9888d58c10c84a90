import Trajectory.Event.Broadcast
import Trajectory.Main
import Trajectory.Proofs.Decimal.NumberText
import Trajectory.Proofs.Expr.Alphabet
import Trajectory.Proofs.Expr.Matched
import Trajectory.Proofs.Expr.Token
import Trajectory.Proofs.Expr.Grammar
import Trajectory.Proofs.Expr.Operand
import Trajectory.Proofs.Expr.Level
import Trajectory.Proofs.Expr.Search
import Trajectory.Proofs.Expr.Outermost
import Trajectory.Proofs.Expr.Reading
import Trajectory.Proofs.Event.Keeps
import Trajectory.Proofs.Solver.Requests
import Trajectory.Proofs.Solver.Frame
import Trajectory.Proofs.Stepper.Attempt
import Trajectory.Proofs.Stepper.Advance
import Trajectory.Proofs.Solver.Running
import Trajectory.Proofs.Solver.FirstPoint
import Trajectory.Proofs.Stepper.Start
import Trajectory.Proofs.Solver.Protocol
import Trajectory.Proofs.Number.Exact
import Trajectory.Proofs.Number.Fraction
import Trajectory.Proofs.Settings.Checks
import Trajectory.Proofs.Stepper.Termination
import Trajectory.Proofs.Solver.Reachable
import Trajectory.Proofs.Stepper.Course
import Trajectory.Proofs.Solver.Points
import Trajectory.Proofs.Decimal.WrittenNumber
import Trajectory.Proofs.Expr.Normal
import Trajectory.Proofs.Expr.Written
import Trajectory.Proofs.Expr.Evaluation
import Trajectory.Proofs.OdeSystem.Evaluation
import Trajectory.Proofs.Document.LineGrammar
import Trajectory.Proofs.Document.FieldList
import Trajectory.Proofs.Document.Sections
import Trajectory.Proofs.Document.Tables
import Trajectory.Proofs.Document.Reading
import Trajectory.Proofs.Solver.Cancellation
import Trajectory.Proofs.Solver.Way
import Trajectory.Proofs.Solver.Stages
import Trajectory.Proofs.Event.Agreement
import Trajectory.Proofs.Solver.Kinds
import Trajectory.Proofs.Solver.Nested
import Trajectory.Proofs.OdeSystem.Reduction
import Trajectory.Proofs.Solver.Along
import Trajectory.Proofs.Settings.Standard
import Trajectory.Proofs.Solver.Soundness
import Trajectory.Proofs.Solver.Exclusion
import Trajectory.Proofs.OdeSystem.Step
import Trajectory.Proofs.Stepper.Evaluable
import Trajectory.Proofs.Solver.FirstStep
import Trajectory.Proofs.Event.Orderly
import Trajectory.Proofs.Event.Nesting
import Trajectory.Proofs.Event.Reentrancy
import Trajectory.Proofs.Solver.Announcement
import Trajectory.Proofs.Number.Comparable
import Trajectory.Proofs.Stepper.Bounds
import Trajectory.Proofs.Solver.Refusal
import Trajectory.Proofs.OdeSystem.Subsystem
import Trajectory.Proofs.Solver.Noninterference
import Trajectory.Proofs.Task.Order
import Trajectory.Proofs.Task.Changes
import Trajectory.Proofs.Task.Reading
import Trajectory.Proofs.Solver.Ready
import Trajectory.Proofs.Task.Settings
import Trajectory.Proofs.Task.Applying
import Trajectory.Proofs.Event.Promises
import Trajectory.Proofs.Stepper.Promises
import Trajectory.Proofs.Solver.Promises
import Trajectory.Proofs.Stepper.Tries
import Trajectory.Proofs.Stepper.Sizes
import Trajectory.Proofs.Solver.Forgetting
import Trajectory.Proofs.Number.Special
import Trajectory.Proofs.Number.Rounding
import Trajectory.Proofs.Stepper.Finite
import Trajectory.Proofs.Solver.Finite
import Trajectory.Proofs.Stepper.Grid
import Trajectory.Proofs.Solver.Grid
import Trajectory.Proofs.Event.Chronicle
import Trajectory.Proofs.Event.Dealings
import Trajectory.Proofs.Decimal.PlainInteger
import Trajectory.Proofs.Document.Trimmed
import Trajectory.Proofs.Task.Texts
import Trajectory.Proofs.Expr.Variables
import Trajectory.Proofs.OdeSystem.Linear
import Trajectory.Proofs.Stepper.Combination
import Trajectory.Proofs.Stepper.Stability
import Trajectory.Proofs.Stepper.Quadrature
import Trajectory.Proofs.Solver.Returning
import Trajectory.Proofs.OdeSystem.Reordered
import Trajectory.Proofs.Stepper.Reordered
import Trajectory.Proofs.Solver.Reordered
import Trajectory.Proofs.Number.Rooted
import Trajectory.Proofs.Stepper.Norms
import Trajectory.Proofs.Stepper.Policies
import Trajectory.Proofs.OdeSystem.Undeclared
import Trajectory.Proofs.Text.Offset
import Trajectory.Proofs.Expr.Offset
import Trajectory.Proofs.Expr.Parts
import Trajectory.Proofs.Expr.Placement
import Trajectory.Proofs.Expr.Balance
import Trajectory.Proofs.Expr.Unbalanced
import Trajectory.Proofs.Expr.Depth
import Trajectory.Proofs.Expr.Place
import Trajectory.Proofs.Expr.Joining
import Trajectory.Proofs.Solver.Saving
import Trajectory.Proofs.Task.Saving
