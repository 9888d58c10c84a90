import Trajectory.Event.World

namespace Trajectory

/-- Publishes an event on a channel and counts the subscribers that took it. -/
abbrev Publisher (p : Protocol) := (c : p.Channel) → p.Payload c → Act p Nat

/-- Answers the requests of scripts. It may publish events, and take as many steps as its first
argument allows. -/
abbrev Handler (p : Protocol) :=
  Nat → Publisher p → (q : p.Request) → Act p (p.Answer q)

variable {p : Protocol}

def Script.run (answer : (q : p.Request) → Act p (p.Answer q)) : Script p → Act p Unit
  | done => pure ()
  | abort reason => throw (.aborted reason)
  | subscribe c callback next => do
    let id ← Act.subscribe c callback
    (next id).run answer
  | request q next => do
    let a ← answer q
    (next a).run answer

namespace Delivery

/-- The reason for which an action was given up, if it was. Other halts go on. -/
def reasonOf (act : Act p Unit) : Act p (Option Reason) := fun w =>
  match act w with
  | .ok _ after => .ok none after
  | .error (.aborted reason) after => .ok (some reason) after
  | .error halt after => .error halt after

def abortLine (id : SubscriptionId) (reason : Reason) : LogLine :=
  ⟨.error, s!"subscriber {id.text} panicked: {reason.message}"⟩

/-- One call of a subscriber; true if it took the event. -/
def call (depth : Nat) (c : p.Channel) (id : SubscriptionId) (act : Act p Unit) : Act p Bool := do
  Act.record (.called depth c id)
  let reason? ← reasonOf act
  Act.record (.returned depth c id reason?)
  match reason? with
  | none => pure true
  | some reason =>
    Act.log (abortLine id reason)
    pure false

/-- Calls subscribers in order and counts those that took the event. -/
def callEach (depth : Nat) (c : p.Channel) (act : Callback p c → Act p Unit) :
    List (SubscriptionId × Callback p c) → Act p Nat
  | [] => pure 0
  | (id, callback) :: later => do
    let taken ← call depth c id (act callback)
    let n ← callEach depth c act later
    pure (if taken then n + 1 else n)

/-- Delivers an event inside `depth` other calls, with calls at most `fuel` deep inside it, to those that
are subscribed when it begins. -/
def deliver (answer : Handler p) : Nat → Nat → Publisher p
  | 0, depth, c, event => do
    Act.record (.published depth c event)
    let b ← Act.bus c
    if b.subscribers.isEmpty then pure 0 else throw .exhausted
  | fuel + 1, depth, c, event => do
    Act.record (.published depth c event)
    let b ← Act.bus c
    callEach depth c (fun callback =>
      (callback event).run (answer fuel (deliver answer fuel (depth + 1)))) b.subscribers

/-- The answer to a request that no subscriber makes. -/
def ask (answer : Handler p) (fuel : Nat) (q : p.Request) : Act p (p.Answer q) :=
  answer fuel (deliver answer fuel 0) q

/-- Does what a script says that no subscriber runs. -/
def perform (answer : Handler p) (fuel : Nat) (s : Script p) : Act p Unit :=
  s.run (ask answer fuel)

end Delivery

end Trajectory
