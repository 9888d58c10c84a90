import Trajectory.Event.Script
import Trajectory.Log
import Trajectory.Number.Failure

namespace Trajectory

/-- Something that happened to an event. The depth counts the calls of subscribers that were going
on at the time. -/
inductive Occurrence (p : Protocol) where
  | published (depth : Nat) (c : p.Channel) (event : p.Payload c)
  | called (depth : Nat) (c : p.Channel) (id : SubscriptionId)
  /-- A call came to its end, with a reason if the subscriber gave up. -/
  | returned (depth : Nat) (c : p.Channel) (id : SubscriptionId) (reason? : Option Reason)

structure World (p : Protocol) where
  hub : (c : p.Channel) → Bus (Callback p c)
  log : Log
  /-- The newest occurrence first. -/
  history : List (Occurrence p)
  state : p.State

/-- What ends an action before it has an answer. -/
inductive Halt where
  | aborted (reason : Reason)
  | breach (b : Breach)
  /-- More steps or deeper calls are needed than were allowed. -/
  | exhausted
deriving Repr, DecidableEq

/-- An action in the world. One that halts leaves the changes it has made. -/
abbrev Act (p : Protocol) := EStateM Halt (World p)

namespace World

variable {p : Protocol}

def quiet (s : p.State) : World p := ⟨fun _ => {}, {}, [], s⟩

/-- Puts another bus in the place of a channel's. -/
def setBus (w : World p) (c : p.Channel) (b : Bus (Callback p c)) : World p :=
  let _ := p.decideChannel
  { w with hub := fun other => if h : c = other then h ▸ b else w.hub other }

end World

namespace Act

variable {p : Protocol}

def getState : Act p p.State := do
  let w ← get
  pure w.state

def modifyState (f : p.State → p.State) : Act p Unit :=
  modify fun w => { w with state := f w.state }

def record (o : Occurrence p) : Act p Unit :=
  modify fun w => { w with history := o :: w.history }

def log (line : LogLine) : Act p Unit := modify fun w => { w with log := w.log.add line }

def logAll (lines : List LogLine) : Act p Unit :=
  modify fun w => { w with log := w.log.addAll lines }

def bus (c : p.Channel) : Act p (Bus (Callback p c)) := do
  let w ← get
  pure (w.hub c)

def setBus (c : p.Channel) (b : Bus (Callback p c)) : Act p Unit := modify fun w => w.setBus c b

def subscribe (c : p.Channel) (callback : Callback p c) : Act p SubscriptionId := do
  let b ← bus c
  setBus c (b.subscribe callback)
  pure b.nextId

/-- Whether the subscriber was there to be removed. -/
def unsubscribe (c : p.Channel) (id : SubscriptionId) : Act p Bool := do
  let b ← bus c
  setBus c (b.unsubscribe id)
  pure (b.contains id)

def clear (c : p.Channel) : Act p Unit := do
  let b ← bus c
  setBus c b.clear

/-- A computation whose broken promises halt the action. -/
def keep {ε β : Type} (c : Checked ε β) : Act p (Except ε β) :=
  match c with
  | .ok b => pure (.ok b)
  | .error (.cause e) => pure (.error e)
  | .error (.breach b) => throw (.breach b)

/-- A computation that only a broken promise can end. -/
def promised {β : Type} (c : Checked Empty β) : Act p β :=
  match c with
  | .ok b => pure b
  | .error (.breach b) => throw (.breach b)

end Act

end Trajectory
