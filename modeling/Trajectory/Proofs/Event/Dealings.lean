import Trajectory.Proofs.Event.Chronicle

namespace Trajectory

variable {p : Protocol} {β γ δ : Type}

/-- What is done from each world on, the oldest first. -/
abbrev Trail (p : Protocol) (δ : Type) : Type := World p → List δ

namespace Act

theorem hub_after_bind {act : Act p β} {f : β → Act p γ}
    (hf : ∀ b v, ((f b).after v).hub = v.hub) (w : World p) :
    ((act >>= f).after w).hub = (act.after w).hub := by
  cases h : act w with
  | ok b v => rw [after_bind_of_ok h, after_of_ok h, hf]
  | error halt v => rw [after_bind_of_error h]

end Act

theorem Delivery.after_reasonOf (act : Act p Unit) (w : World p) :
    (reasonOf act).after w = act.after w := by
  unfold Act.after reasonOf
  cases act w with
  | ok b v => rfl
  | error halt v => cases halt <;> rfl

namespace Trail

/-- What is done by an action alone, by its answer. -/
def answered (act : Act p β) (f : β → List δ) : Trail p δ := fun w =>
  match act w with
  | .ok b _ => f b
  | .error _ _ => []

/-- What is done by an action and, if it has an answer, by what comes after it. -/
def andThen (trail : Trail p δ) (act : Act p β) (next : β → Trail p δ) : Trail p δ := fun w =>
  trail w ++ match act w with
    | .ok b v => next b v
    | .error _ _ => []

end Trail

namespace Broadcast

open Bus (Deed Lived Chronicle Moment Removal issuedIds)
open Delivery (deliver call callEach ask perform)

variable {ε μ : Type}

/-- What a plain bus holds for each subscriber. -/
abbrev Listener (ε μ : Type) : Type := ε → Script (protocol ε μ)

section Trails

variable (bus : Nat)

def onBus (other : Nat) (d : Deed (Listener ε μ)) : List (Deed (Listener ε μ)) :=
  if other = bus then [d] else []

def requestTrail (answers : (q : Request ε μ) → Act (protocol ε μ) (Answer q))
    (published : Nat → ε → Trail (protocol ε μ) (Deed (Listener ε μ))) :
    Request ε μ → Trail (protocol ε μ) (Deed (Listener ε μ))
  | .publish c event => published c event
  | .unsubscribe c id => .answered (answers (.unsubscribe c id)) fun found =>
    onBus bus c (.unsubscribed id found)
  | .clear c => fun w => onBus bus c (.cleared (w.hub c).size)
  | .count c => .answered (answers (.count c)) fun n => onBus bus c (.counted n)
  | _ => fun _ => []

def scriptTrail (answers : (q : Request ε μ) → Act (protocol ε μ) (Answer q))
    (requested : Request ε μ → Trail (protocol ε μ) (Deed (Listener ε μ))) :
    Script (protocol ε μ) → Trail (protocol ε μ) (Deed (Listener ε μ))
  | .done => fun _ => []
  | .abort _ => fun _ => []
  | .subscribe c callback next =>
    .andThen
      (.answered (Act.subscribe c callback) fun id => onBus bus c (.subscribed id callback))
      (Act.subscribe c callback) fun id => scriptTrail answers requested (next id)
  | .request q next =>
    .andThen (requested q) (answers q) fun a => scriptTrail answers requested (next a)

def callsTrail (depth : Nat) (c : Nat) (act : Listener ε μ → Act (protocol ε μ) Unit)
    (inside : Listener ε μ → Trail (protocol ε μ) (Deed (Listener ε μ))) :
    List (SubscriptionId × Listener ε μ) → Trail (protocol ε μ) (Deed (Listener ε μ))
  | [] => fun _ => []
  | (id, callback) :: later =>
    .andThen (fun w => inside callback (w.record (.called depth c id)))
      (call (p := protocol ε μ) depth c id (act callback)) fun _ => callsTrail depth c act inside later

def deliveryTrail : Nat → Nat → Nat → ε → Trail (protocol ε μ) (Deed (Listener ε μ))
  | 0, _, _, _ => fun _ => []
  | fuel + 1, depth, c, event => fun w =>
    let told : World (protocol ε μ) := w.record (.published depth c event)
    let answers := answer ε μ fuel (deliver (answer ε μ) fuel (depth + 1))
    let requested := requestTrail bus answers (deliveryTrail fuel (depth + 1))
    callsTrail depth c (fun callback => (callback event).run answers)
      (fun callback => scriptTrail bus answers requested (callback event)) (told.hub c).subscribers told

/-- What is done to a bus while a script is performed. -/
def performTrail (fuel : Nat) (s : Script (protocol ε μ)) :
    Trail (protocol ε μ) (Deed (Listener ε μ)) :=
  scriptTrail bus (ask (answer ε μ) fuel)
    (requestTrail bus (ask (answer ε μ) fuel) (deliveryTrail bus fuel 0)) s

end Trails

section Accounts

variable {bus : Nat} {w : World (protocol ε μ)}

theorem hub_setBus_self (b : Bus (Listener ε μ)) : (w.setBus bus b).hub bus = b := by
  simp [World.setBus]

theorem hub_setBus_of_ne {c : Nat} (hne : c ≠ bus) (b : Bus (Listener ε μ)) :
    (w.setBus c b).hub bus = w.hub bus := by
  simp [World.setBus, hne]

theorem hub_setBus_hub (c : Nat) : (w.setBus c (w.hub c)).hub bus = w.hub bus := by
  by_cases hbus : c = bus
  · subst hbus
    exact hub_setBus_self _
  · exact hub_setBus_of_ne hbus _

/-- Whatever the action does to the bus is in the trail. -/
def Accounts (bus : Nat) (act : Act (protocol ε μ) β)
    (trail : Trail (protocol ε μ) (Deed (Listener ε μ))) : Prop :=
  ∀ w, Lived (w.hub bus) (trail w) ((act.after w).hub bus)

theorem lived_onBus {c : Nat} {d : Deed (Listener ε μ)} (hanswers : (w.hub c).Answers d) :
    Lived (w.hub bus) (onBus bus c d) ((w.setBus c ((w.hub c).follow d)).hub bus) := by
  unfold onBus
  by_cases hbus : c = bus
  · subst hbus
    rw [if_pos rfl, hub_setBus_self]
    exact .deed hanswers (.refl _)
  · rw [if_neg hbus, hub_setBus_of_ne hbus]
    exact .refl _

namespace Accounts

variable {act : Act (protocol ε μ) β} {f : β → Act (protocol ε μ) γ}
  {trail : Trail (protocol ε μ) (Deed (Listener ε μ))}
  {next : β → Trail (protocol ε μ) (Deed (Listener ε μ))}

theorem of_same (h : ∀ w, (act.after w).hub bus = w.hub bus) : Accounts bus act fun _ => [] := by
  intro w
  rw [h]
  exact .refl _

theorem andThen (hact : Accounts bus act trail) (hnext : ∀ b, Accounts bus (f b) (next b)) :
    Accounts bus (act >>= f) (.andThen trail act next) := by
  intro w
  have hfirst := hact w
  unfold Trail.andThen
  cases h : act w with
  | ok b v =>
    rw [Act.after_of_ok h] at hfirst
    rw [Act.after_bind_of_ok h]
    exact hfirst.trans (hnext b v)
  | error halt v =>
    rw [Act.after_bind_of_error h, List.append_nil]
    exact hfirst

end Accounts

theorem request_accounts {fuel : Nat} {publish : Publisher (protocol ε μ)}
    {published : Nat → ε → Trail (protocol ε μ) (Deed (Listener ε μ))}
    (hpublish : ∀ c event, Accounts bus (publish c event) (published c event)) (q : Request ε μ) :
    Accounts bus (answer ε μ fuel publish q)
      (requestTrail bus (answer ε μ fuel publish) published q) := by
  intro w
  cases q with
  | publish c event => exact hpublish c event w
  | unsubscribe c id => exact lived_onBus (d := .unsubscribed id _) rfl
  | clear c => exact lived_onBus (d := .cleared _) rfl
  | count c =>
    have hlived : Lived (w.hub bus) (onBus bus c (.counted (w.hub c).size))
        ((w.setBus c (w.hub c)).hub bus) := lived_onBus rfl
    rwa [hub_setBus_hub] at hlived
  | _ => exact .refl _

theorem script_accounts {answers : (q : Request ε μ) → Act (protocol ε μ) (Answer q)}
    {requested : Request ε μ → Trail (protocol ε μ) (Deed (Listener ε μ))}
    (hanswers : ∀ q, Accounts bus (answers q) (requested q)) (s : Script (protocol ε μ)) :
    Accounts bus (s.run answers) (scriptTrail bus answers requested s) := by
  induction s with
  | done => exact .of_same fun w => rfl
  | abort reason => exact .of_same fun w => rfl
  | subscribe c callback next _ ih =>
    refine .andThen (fun w => ?_) ih
    exact lived_onBus (d := .subscribed _ callback) rfl
  | request q next ih => exact .andThen (hanswers q) ih

theorem hub_call (depth c : Nat) (id : SubscriptionId) (act : Act (protocol ε μ) Unit)
    (w : World (protocol ε μ)) : ((call depth c id act).after w).hub =
      (act.after (w.record (.called depth c id))).hub := by
  have hreason : (Delivery.reasonOf act).after (w.record (.called depth c id)) =
      act.after (w.record (.called depth c id)) := Delivery.after_reasonOf act _
  have htold : Act.record (p := protocol ε μ) (.called depth c id) w =
      .ok () (w.record (.called depth c id)) := rfl
  unfold call
  rw [Act.after_bind_of_ok htold, ← hreason]
  refine Act.hub_after_bind (fun reason? v => ?_) _
  cases reason? <;> rfl

theorem calls_accounts {depth c : Nat} {act : Listener ε μ → Act (protocol ε μ) Unit}
    {inside : Listener ε μ → Trail (protocol ε μ) (Deed (Listener ε μ))}
    (hact : ∀ callback, Accounts bus (act callback) (inside callback))
    (subscribers : List (SubscriptionId × Listener ε μ)) :
    Accounts bus (callEach (p := protocol ε μ) depth c act subscribers)
      (callsTrail depth c act inside subscribers) := by
  induction subscribers with
  | nil => exact .of_same fun w => rfl
  | cons s later ih =>
    obtain ⟨id, callback⟩ := s
    refine .andThen (fun w => ?_) fun taken => ?_
    · rw [hub_call]
      exact hact callback (w.record (.called depth c id))
    · intro w
      rw [Act.after_bind_pure]
      exact ih w

theorem delivery_accounts (fuel depth c : Nat) (event : ε) :
    Accounts bus (deliver (answer ε μ) fuel depth c event) (deliveryTrail bus fuel depth c event) := by
  induction fuel generalizing depth c event with
  | zero =>
    -- Without calls left a delivery ends at its own record.
    refine .of_same fun w => ?_
    have hend : (deliver (answer ε μ) 0 depth c event).after w = Act.after
        (if (w.hub c).subscribers.isEmpty then pure 0 else throw .exhausted)
        (w.record (.published depth c event)) := Act.after_bind_of_ok rfl
    rw [hend]
    split <;> rfl
  | succ fuel ih =>
    intro w
    exact calls_accounts (fun callback => script_accounts
      (request_accounts (ih (depth + 1))) (callback event)) _ (w.record (.published depth c event))

theorem perform_accounts (fuel : Nat) (s : Script (protocol ε μ)) :
    Accounts bus (perform (answer ε μ) fuel s) (performTrail bus fuel s) := by
  have hrequests (q : Request ε μ) : Accounts bus (ask (answer ε μ) fuel q)
      (requestTrail bus (ask (answer ε μ) fuel) (deliveryTrail bus fuel 0) q) :=
    request_accounts (delivery_accounts fuel 0) q
  exact script_accounts hrequests s

/-- Whatever a script and those it reaches do to a bus: at every moment the numbers of its subscribers
grow in their order and were given out before, each of them once; removing by a number removes the
subscriber who has it, if it is still there; and the count is of those who are. -/
theorem perform_chronicle (fuel : Nat) (s : Script (protocol ε μ)) (memory : μ) (bus : Nat) :
    Chronicle (performTrail bus fuel s (World.quiet memory))
      (((perform (answer ε μ) fuel s).after (World.quiet memory)).hub bus) :=
  Lived.chronicle (perform_accounts fuel s (World.quiet memory))

/-- On the first event the subscriber removes itself, counts who is left and subscribes another. -/
def leaver (event : Nat) : Script (protocol Nat Unit) :=
  if event = 1 then
    .request (.unsubscribe 0 ⟨0⟩) fun _ => .request (.count 0) fun _ =>
      .subscribe 0 (fun _ => .done) fun _ => .done
  else .done

example : issuedIds (performTrail 0 2 (.subscribe 0 leaver fun _ =>
    .subscribe 0 (fun _ => .abort .other) fun _ => .request (.publish 0 1) fun _ =>
      .request (.clear 0) fun _ => .done) (World.quiet ())) = [⟨0⟩, ⟨1⟩, ⟨2⟩] := by decide

/-- Removing by a number that another bus gave out is removing by a number like any other: it finds the
subscriber to whom this bus gave the same number, if it is there still, and nobody if this bus has not
come to the number yet. A bus with as many subscriptions as the other has come to it. -/
theorem removal_by_foreign {fuel : Nat} {s : Script (protocol ε μ)} {memory : μ} {bus other : Nat}
    {first later : List (Deed (Listener ε μ))} {id : SubscriptionId} {found : Bool}
    (hforeign : id ∈ issuedIds (performTrail other fuel s (World.quiet memory)))
    (h : performTrail bus fuel s (World.quiet memory) = first ++ .unsubscribed id found :: later) :
    ∃ b, Lived {} first b ∧ Removal first b id found ∧
      Lived (b.unsubscribe id) later
        (((perform (answer ε μ) fuel s).after (World.quiet memory)).hub bus) ∧
      ((issuedIds first).length ≤ id.number → found = false) ∧
      ((issuedIds (performTrail other fuel s (World.quiet memory))).length ≤
        (issuedIds first).length → id ∈ issuedIds first) := by
  obtain ⟨b, hfirst, hremoval, hlater⟩ :=
    (perform_accounts fuel s (World.quiet memory)).chronicle.removals first id found later h
  have hmoment : Moment first b := hfirst.moment .nil
  have hlived : Lived {} (performTrail other fuel s (World.quiet memory))
      (((perform (answer ε μ) fuel s).after (World.quiet memory)).hub other) :=
    perform_accounts fuel s (World.quiet memory)
  have hother : Moment (performTrail other fuel s (World.quiet memory)) _ := hlived.moment .nil
  refine ⟨b, hfirst, hremoval, hlater, hremoval.eq_false_of_le hmoment, fun hmore => ?_⟩
  have hless := hother.mem_issuedIds.mp hforeign
  exact hmoment.mem_issuedIds.mpr (Nat.lt_of_lt_of_le hless hmore)

/-- A subscriber to each of two buses, and the first one's number given to the second bus. -/
def misdirected : Script (protocol Nat Unit) :=
  .subscribe 0 (fun _ => .done) fun id => .subscribe 1 (fun _ => .done) fun _ =>
    .request (.unsubscribe 1 id) fun _ => .done

theorem misdirected_removes :
    ⟨0⟩ ∈ issuedIds (performTrail 0 1 misdirected (World.quiet ())) ∧
      performTrail 1 1 misdirected (World.quiet ()) =
        [.subscribed ⟨0⟩ fun _ => .done, .unsubscribed ⟨0⟩ true] ∧
      (((perform (answer Nat Unit) 1 misdirected).after (World.quiet ())).hub (1 : Nat)).size = 0 :=
  ⟨by decide, rfl, by decide⟩

theorem removal_by_foreign_of_misdirected : ∃ b : Bus (Listener Nat Unit),
    Lived {} [.subscribed ⟨0⟩ fun _ => .done] b ∧
      Removal [.subscribed ⟨0⟩ fun _ => .done] b ⟨0⟩ true ∧
        Lived (b.unsubscribe ⟨0⟩) []
          (((perform (answer Nat Unit) 1 misdirected).after (World.quiet ())).hub (1 : Nat)) := by
  have hforeign : ⟨0⟩ ∈ issuedIds (performTrail 0 1 misdirected (World.quiet ())) := by decide
  obtain ⟨b, hfirst, hremoval, hlater, _⟩ := @removal_by_foreign Nat Unit 1 misdirected () 1 0
    [.subscribed ⟨0⟩ fun _ => .done] [] ⟨0⟩ true hforeign rfl
  exact ⟨b, hfirst, hremoval, hlater⟩

end Accounts

end Broadcast

end Trajectory
