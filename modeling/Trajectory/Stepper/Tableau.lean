import Trajectory.Number.Scalar

namespace Trajectory

/-- An explicit method: where each stage stands, how it is composed of the stages before it, and two
ways to weight all stages. -/
structure Tableau (α : Type) where
  nodes : List α
  rows : List (List α)
  fifth : List α
  fourth : List α

namespace Tableau

variable {α : Type} [Scalar α]

def nodeRatios : List (Int × Nat) := [(0, 1), (1, 5), (3, 10), (4, 5), (8, 9), (1, 1), (1, 1)]

def rowRatios : List (List (Int × Nat)) :=
  [[(0, 1), (0, 1), (0, 1), (0, 1), (0, 1), (0, 1)],
   [(1, 5), (0, 1), (0, 1), (0, 1), (0, 1), (0, 1)],
   [(3, 40), (9, 40), (0, 1), (0, 1), (0, 1), (0, 1)],
   [(44, 45), (-56, 15), (32, 9), (0, 1), (0, 1), (0, 1)],
   [(19372, 6561), (-25360, 2187), (64448, 6561), (-212, 729), (0, 1), (0, 1)],
   [(9017, 3168), (-355, 33), (46732, 5247), (49, 176), (-5103, 18656), (0, 1)],
   [(35, 384), (0, 1), (500, 1113), (125, 192), (-2187, 6784), (11, 84)]]

/-- The weights of order five: those of the last stage, which stands at the end of the step. -/
def fifthRatios : List (Int × Nat) :=
  [(35, 384), (0, 1), (500, 1113), (125, 192), (-2187, 6784), (11, 84), (0, 1)]

def fourthRatios : List (Int × Nat) :=
  [(5179, 57600), (0, 1), (7571, 16695), (393, 640), (-92097, 339200), (187, 2100), (1, 40)]

def ofRatios (ratios : List (Int × Nat)) : List α := ratios.map fun r => Scalar.ratio r.1 r.2

def embedded : Tableau α where
  nodes := ofRatios nodeRatios
  rows := rowRatios.map ofRatios
  fifth := ofRatios fifthRatios
  fourth := ofRatios fourthRatios

end Tableau

end Trajectory
