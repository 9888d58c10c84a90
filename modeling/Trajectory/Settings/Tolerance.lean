import Trajectory.Settings.Range

namespace Trajectory

/-- How the errors of the components are combined into one number. -/
inductive ErrorNorm where
  /-- The root of the mean square. -/
  | rms
  | max
deriving Repr, DecidableEq

namespace ErrorNorm

def text : ErrorNorm → String
  | rms => "rms"
  | max => "max"

def ofText? (s : String) : Option ErrorNorm :=
  [rms, max].find? fun n => n.text == s.map Char.toLower

end ErrorNorm

structure Tolerance (α : Type) where
  absolute : α
  relative : α
  safety : α
  minFactor : α
  maxFactor : α
  /-- The least step, if it is not the usual one. -/
  minStep? : Option α
  /-- The largest step, if it is not the usual part of the range. -/
  maxStep? : Option α
  norm : ErrorNorm
deriving Repr, DecidableEq

inductive ToleranceFault (α : Type) where
  | notPositive (setting : String) (value : α)
  | factors (minFactor maxFactor : α)
  | steps (minStep maxStep : α)
deriving Repr

def ToleranceFault.message {α : Type} [Numeral α] : ToleranceFault α → String
  | notPositive setting value => s!"{setting} must be finite and positive, got {text value}"
  | factors minFactor maxFactor =>
    s!"min factor {text minFactor} is greater than max factor {text maxFactor}"
  | steps minStep maxStep =>
    s!"min step {text minStep} is greater than max step {text maxStep}"

namespace Tolerance

variable {α : Type} [Scalar α]

/-- One part in a million, and steps that change by at most five. -/
def standard : Tolerance α where
  absolute := Scalar.ofDecimal 1 (-6)
  relative := Scalar.ofDecimal 1 (-6)
  safety := Scalar.ofDecimal 9 (-1)
  minFactor := Scalar.ofDecimal 2 (-1)
  maxFactor := Scalar.ofNat 5
  minStep? := none
  maxStep? := none
  norm := .rms

def minStep (t : Tolerance α) : α := t.minStep?.getD (Scalar.ofDecimal 1 (-10))

/-- The largest step over a range, a tenth of it unless it is set. -/
def maxStep (t : Tolerance α) (r : Range α) : α :=
  t.maxStep?.getD (Scalar.ofDecimal 1 (-1) * r.length)

def checkPositive (setting : String) (value : α) : Except (ToleranceFault α) Unit :=
  if Scalar.isFinite value && Scalar.zero < value then .ok ()
  else .error (.notPositive setting value)

/-- The check of a setting that may be left open. -/
def checkPositive? (setting : String) : Option α → Except (ToleranceFault α) Unit
  | none => .ok ()
  | some value => checkPositive setting value

def checkSteps (minStep maxStep : α) : Except (ToleranceFault α) Unit :=
  if maxStep < minStep then .error (.steps minStep maxStep) else .ok ()

/-- Every value is finite and positive, and no lower bound is above its upper bound. -/
def validate (t : Tolerance α) : Except (ToleranceFault α) Unit := do
  checkPositive "atol" t.absolute
  checkPositive "rtol" t.relative
  checkPositive "safety factor" t.safety
  checkPositive "min factor" t.minFactor
  checkPositive "max factor" t.maxFactor
  if t.maxFactor < t.minFactor then throw (.factors t.minFactor t.maxFactor)
  checkPositive? "min step" t.minStep?
  checkPositive? "max step" t.maxStep?
  match t.minStep?, t.maxStep? with
  | some low, some high => checkSteps low high
  | _, _ => pure ()

end Tolerance

end Trajectory
