import Trajectory.Event.Broadcast
import Trajectory.Proofs.Event.Keeps

namespace Trajectory

namespace Bus

variable {κ : Type}

/-- The subscribers stand in the order of their numbers, which the bus has given out. -/
structure Orderly (b : Bus κ) : Prop where
  sorted : b.ids.Pairwise fun i j => i.number < j.number
  issued : ∀ id ∈ b.ids, id.number < b.issued

namespace Orderly

variable {b : Bus κ}

theorem empty : ({} : Bus κ).Orderly := ⟨.nil, fun _ h => by cases h⟩

theorem subscribe (h : b.Orderly) (callback : κ) : (b.subscribe callback).Orderly := by
  have hids : (b.subscribe callback).ids = b.ids ++ [b.nextId] := List.map_append
  refine ⟨?_, fun id hid => ?_⟩
  · rw [hids]
    refine List.pairwise_append.mpr ⟨h.sorted, List.pairwise_singleton _ _, fun i hi j hj => ?_⟩
    cases List.mem_singleton.mp hj
    exact h.issued i hi
  · rw [hids] at hid
    rcases List.mem_append.mp hid with hold | hnew
    · exact Nat.lt_succ_of_lt (h.issued id hold)
    · cases List.mem_singleton.mp hnew
      exact Nat.lt_succ_self b.issued

theorem of_sublist {b' : Bus κ} (h : b.Orderly) (hsub : b'.subscribers.Sublist b.subscribers)
    (hissued : b'.issued = b.issued) : b'.Orderly := by
  have hids : b'.ids.Sublist b.ids := hsub.map Prod.fst
  refine ⟨h.sorted.sublist hids, fun id hid => ?_⟩
  rw [hissued]
  exact h.issued id (hids.subset hid)

theorem unsubscribe (h : b.Orderly) (id : SubscriptionId) : (b.unsubscribe id).Orderly :=
  h.of_sublist List.filter_sublist rfl

theorem clear (h : b.Orderly) : b.clear.Orderly := h.of_sublist (List.nil_sublist _) rfl

theorem not_mem_of_issued_le (h : b.Orderly) {id : SubscriptionId} (hid : b.issued ≤ id.number) :
    id ∉ b.ids := fun hmem => Nat.not_le_of_lt (h.issued id hmem) hid

end Orderly

end Bus

variable {p : Protocol}

namespace World

def Orderly (w : World p) : Prop := ∀ c, (w.hub c).Orderly

namespace Orderly

variable {w : World p}

theorem quiet (s : p.State) : (World.quiet s).Orderly := fun _ => .empty

theorem setBus (h : w.Orderly) {c : p.Channel} {b : Bus (Callback p c)} (hb : b.Orderly) :
    (w.setBus c b).Orderly := by
  intro other
  unfold World.setBus
  dsimp only
  split
  next heq =>
    subst heq
    exact hb
  next => exact h other

end Orderly

def StayOrderly (_ : Nat) (w v : World p) : Prop := w.Orderly → v.Orderly

theorem stayOrderly_frame : Delivery.Frame (StayOrderly (p := p)) where
  refl _ _ h := h
  trans _ _ _ _ huv hvw h := hvw (huv h)
  called _ _ _ _ _ h := h
  returned _ _ _ _ _ _ h := h
  logged _ _ _ h := h
  subscribed _ _ c callback h := h.setBus ((h c).subscribe callback)

end World

namespace Broadcast

open World (StayOrderly stayOrderly_frame)

variable {ε μ : Type}

theorem answer_orderly {d fuel : Nat} {publish : Publisher (protocol ε μ)}
    (hpublish : Delivery.Frame.Publishes StayOrderly d publish) (q : Request ε μ) :
    (answer ε μ fuel publish q).Keeps (StayOrderly d) := by
  intro w hw
  cases q with
  | publish bus event => exact hpublish bus event w hw
  | unsubscribe bus id => exact World.Orderly.setBus hw ((hw bus).unsubscribe id)
  | clear bus => exact World.Orderly.setBus hw (hw bus).clear
  | _ => exact hw

theorem deliver_orderly (calls d : Nat) :
    Delivery.Frame.Publishes StayOrderly d (Delivery.deliver (answer ε μ) calls d) :=
  stayOrderly_frame.deliver (fun _ _ _ hpublish q => answer_orderly hpublish q) calls d

/-- The worlds that plain buses can be in, between the calls of subscribers and within them. -/
inductive Reachable : World (protocol ε μ) → Prop
  | quiet (memory : μ) : Reachable (World.quiet memory)
  | answered {w : World (protocol ε μ)} (h : Reachable w) (fuel calls depth : Nat)
      (q : Request ε μ) :
      Reachable ((answer ε μ fuel (Delivery.deliver (answer ε μ) calls depth) q).after w)
  | subscribed {w : World (protocol ε μ)} (h : Reachable w) (bus : Nat)
      (callback : Callback (protocol ε μ) bus) :
      Reachable (w.setBus bus ((w.hub bus).subscribe callback))
  | recorded {w : World (protocol ε μ)} (h : Reachable w) (o : Occurrence (protocol ε μ)) :
      Reachable (w.record o)
  | logged {w : World (protocol ε μ)} (h : Reachable w) (line : LogLine) : Reachable (w.addLog line)

theorem Reachable.orderly {w : World (protocol ε μ)} (h : Reachable w) : w.Orderly := by
  induction h with
  | quiet memory => exact .quiet memory
  | @answered w _ fuel calls depth q ih => exact answer_orderly (deliver_orderly calls depth) q w ih
  | subscribed _ bus callback ih => exact ih.setBus ((ih bus).subscribe callback)
  | recorded _ o ih => exact ih
  | logged _ line ih => exact ih

end Broadcast

end Trajectory
