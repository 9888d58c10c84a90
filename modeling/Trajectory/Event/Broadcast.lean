import Trajectory.Event.Delivery

namespace Trajectory

namespace Broadcast

inductive Request (ε μ : Type) where
  | publish (bus : Nat) (event : ε)
  | unsubscribe (bus : Nat) (id : SubscriptionId)
  | clear (bus : Nat)
  | count (bus : Nat)
  | describe (bus : Nat)
  | recall
  | remember (memory : μ)

@[reducible]
def Answer {ε μ : Type} : Request ε μ → Type
  | .publish _ _ => Nat
  | .unsubscribe _ _ => Bool
  | .clear _ => Unit
  | .count _ => Nat
  | .describe _ => String
  | .recall => μ
  | .remember _ => Unit

/-- Buses that carry events of type `ε`, with a memory of type `μ`. -/
abbrev protocol (ε μ : Type) : Protocol where
  Channel := Nat
  decideChannel := inferInstance
  Payload _ := ε
  Request := Request ε μ
  Answer := Answer
  State := μ

def answer (ε μ : Type) : Handler (protocol ε μ) := fun _ publish q =>
  match q with
  | .publish bus event => publish bus event
  | .unsubscribe bus id => Act.unsubscribe (p := protocol ε μ) bus id
  | .clear bus => Act.clear (p := protocol ε μ) bus
  | .count bus => do
    let b ← Act.bus (p := protocol ε μ) bus
    pure b.size
  | .describe bus => do
    let b ← Act.bus (p := protocol ε μ) bus
    pure b.description
  | .recall => Act.getState
  | .remember memory => Act.modifyState fun _ => memory

end Broadcast

end Trajectory
