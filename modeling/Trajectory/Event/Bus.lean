namespace Trajectory

/-- Names a subscriber of one bus. -/
structure SubscriptionId where
  number : Nat
deriving Repr, DecidableEq

def SubscriptionId.text (id : SubscriptionId) : String := s!"SubscriptionId({id.number})"

/-- The subscribers of a bus in the order of their subscription, and how many numbers were given
out. -/
structure Bus (κ : Type) where
  subscribers : List (SubscriptionId × κ) := []
  issued : Nat := 0

namespace Bus

variable {κ : Type}

def size (b : Bus κ) : Nat := b.subscribers.length

def ids (b : Bus κ) : List SubscriptionId := b.subscribers.map Prod.fst

def nextId (b : Bus κ) : SubscriptionId := ⟨b.issued⟩

def subscribe (b : Bus κ) (callback : κ) : Bus κ :=
  ⟨b.subscribers ++ [(b.nextId, callback)], b.issued + 1⟩

def unsubscribe (b : Bus κ) (id : SubscriptionId) : Bus κ :=
  { b with subscribers := b.subscribers.filter fun s => s.1 ≠ id }

def contains (b : Bus κ) (id : SubscriptionId) : Bool := b.ids.contains id

/-- Without subscribers; the numbers given out stay used. -/
def clear (b : Bus κ) : Bus κ := { b with subscribers := [] }

def description (b : Bus κ) : String := s!"EventBus \x7b subscribers: {b.size} \x7d"

end Bus

end Trajectory
