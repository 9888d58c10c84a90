import Trajectory.Event.Bus

namespace Trajectory

/-- What can happen between a state and its subscribers: the channels with the type of event that
each of them carries, and the requests with the type of answer that each of them gets. -/
structure Protocol where
  Channel : Type
  decideChannel : DecidableEq Channel
  Payload : Channel → Type
  Request : Type
  Answer : Request → Type
  State : Type

inductive Reason where
  | text (s : String)
  | other
deriving Repr, DecidableEq

def Reason.message : Reason → String
  | text s => s
  | other => "unknown panic"

/-- What a subscriber does when it is called: the tree of its requests, in which each answer leads to the
rest. Every behaviour that comes to an end is a script. -/
inductive Script (p : Protocol) : Type where
  | done
  | abort (reason : Reason)
  | subscribe (c : p.Channel) (callback : p.Payload c → Script p)
      (next : SubscriptionId → Script p)
  | request (q : p.Request) (next : p.Answer q → Script p)

/-- What a channel's bus holds for each subscriber. -/
abbrev Callback (p : Protocol) (c : p.Channel) : Type := p.Payload c → Script p

/-- A script that yields a value: it goes on with what is made of the value. -/
def Program (p : Protocol) (β : Type) : Type := (β → Script p) → Script p

namespace Program

variable {p : Protocol} {β γ : Type}

instance : Monad (Program p) where
  pure b next := next b
  bind m f next := m fun b => f b next

def request (q : p.Request) : Program p (p.Answer q) := Script.request q

def subscribe (c : p.Channel) (callback : Callback p c) : Program p SubscriptionId :=
  Script.subscribe c callback

def abort (reason : Reason) : Program p β := fun _ => .abort reason

/-- The script that does what the program does and then is done. -/
def script (m : Program p Unit) : Script p := m fun _ => .done

end Program

end Trajectory
