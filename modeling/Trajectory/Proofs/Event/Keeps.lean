import Trajectory.Event.Delivery

namespace Trajectory

variable {p : Protocol} {β γ : Type}

namespace World

def record (w : World p) (o : Occurrence p) : World p := { w with history := o :: w.history }

def addLog (w : World p) (line : LogLine) : World p := { w with log := w.log.add line }

end World

namespace Act

/-- The world after an action, whether it has an answer or halts. -/
def after (act : Act p β) (w : World p) : World p :=
  match act w with
  | .ok _ v => v
  | .error _ v => v

theorem after_of_ok {act : Act p β} {w v : World p} {b : β} (h : act w = .ok b v) :
    act.after w = v := by simp [after, h]

/-- Every action that starts in a world ends in a related one. -/
def Keeps (R : World p → World p → Prop) (act : Act p β) : Prop := ∀ w, R w (act.after w)

theorem bind_of_ok {act : Act p β} {f : β → Act p γ} {w v : World p} {b : β}
    (h : act w = .ok b v) : (act >>= f) w = f b v := by
  simp [bind, EStateM.bind, h]

theorem bind_of_error {act : Act p β} {f : β → Act p γ} {w v : World p} {halt : Halt}
    (h : act w = .error halt v) : (act >>= f) w = .error halt v := by
  simp [bind, EStateM.bind, h]

theorem after_bind_of_ok {act : Act p β} {f : β → Act p γ} {w v : World p} {b : β}
    (h : act w = .ok b v) : (act >>= f).after w = (f b).after v := by
  unfold after
  rw [bind_of_ok h]

theorem after_bind_of_error {act : Act p β} {f : β → Act p γ} {w v : World p} {halt : Halt}
    (h : act w = .error halt v) : (act >>= f).after w = act.after w := by
  unfold after
  rw [bind_of_error h, h]

theorem after_bind_pure (act : Act p β) (f : β → γ) (w : World p) :
    (act >>= fun b => pure (f b)).after w = act.after w := by
  cases h : act w with
  | ok b v =>
    rw [after_bind_of_ok h, after_of_ok h]
    rfl
  | error halt v => rw [after_bind_of_error h]

theorem bind_eq_ok_iff {act : Act p β} {f : β → Act p γ} {w v : World p} {c : γ} :
    (act >>= f) w = .ok c v ↔ ∃ b u, act w = .ok b u ∧ f b u = .ok c v := by
  cases h : act w with
  | ok b u =>
    rw [bind_of_ok h]
    constructor
    · exact fun hf => ⟨b, u, rfl, hf⟩
    · rintro ⟨_, _, heq, hf⟩
      cases heq
      exact hf
  | error halt u => simp [bind_of_error h]

namespace Keeps

variable {R : World p → World p → Prop} {act : Act p β} {f : β → Act p γ}

theorem pure (hrefl : ∀ w, R w w) (b : β) : Keeps R (Pure.pure b : Act p β) := fun w => hrefl w

theorem throw (hrefl : ∀ w, R w w) (halt : Halt) : Keeps R (throw halt : Act p β) :=
  fun w => hrefl w

theorem bind (htrans : ∀ u v w, R u v → R v w → R u w) (hact : Keeps R act)
    (hf : ∀ b, Keeps R (f b)) : Keeps R (act >>= f) := by
  intro w
  have hfirst := hact w
  unfold after at hfirst ⊢
  cases h : act w with
  | ok b v =>
    rw [h] at hfirst
    rw [bind_of_ok h]
    exact htrans _ _ _ hfirst (hf b v)
  | error halt v =>
    rw [h] at hfirst
    rwa [bind_of_error h]

end Keeps

end Act

/-- A family of relations, one for each depth, that holds whatever a delivery does besides
publishing. -/
structure Delivery.Frame (R : Nat → World p → World p → Prop) : Prop where
  refl : ∀ d w, R d w w
  trans : ∀ d u v w, R d u v → R d v w → R d u w
  called : ∀ d w k c id, R d w (w.record (.called k c id))
  returned : ∀ d w k c id reason?, R d w (w.record (.returned k c id reason?))
  logged : ∀ d w line, R d w (w.addLog line)
  subscribed : ∀ d w c callback, R d w (w.setBus c ((w.hub c).subscribe callback))

namespace Delivery.Frame

variable {R : Nat → World p → World p → Prop} {d : Nat}

theorem run (hR : Frame R) {answer : (q : p.Request) → Act p (p.Answer q)}
    (hanswer : ∀ q, (answer q).Keeps (R d)) (s : Script p) : (s.run answer).Keeps (R d) := by
  induction s with
  | done => exact .pure (hR.refl d) ()
  | abort reason => exact .throw (hR.refl d) (.aborted reason)
  | subscribe c callback next _ ih =>
    have hsubscribe : (Act.subscribe c callback).Keeps (R d) := fun w => hR.subscribed d w c callback
    exact .bind (hR.trans d) hsubscribe ih
  | request q next ih => exact .bind (hR.trans d) (hanswer q) ih

theorem reasonOf {act : Act p Unit} (hact : act.Keeps (R d)) : (reasonOf act).Keeps (R d) := by
  intro w
  have hw := hact w
  unfold Act.after at hw ⊢
  unfold Delivery.reasonOf
  cases h : act w with
  | ok _ v => simpa [h] using hw
  | error halt v => cases halt <;> simpa [h] using hw

theorem call (hR : Frame R) {act : Act p Unit} (hact : act.Keeps (R d)) (k : Nat) (c : p.Channel)
    (id : SubscriptionId) : (call k c id act).Keeps (R d) := by
  have hcalled : (Act.record (.called k c id)).Keeps (R d) := fun w => hR.called d w k c id
  have hreturned (reason? : Option Reason) : (Act.record (.returned k c id reason?)).Keeps (R d) :=
    fun w => hR.returned d w k c id reason?
  refine .bind (hR.trans d) hcalled fun _ => ?_
  refine .bind (hR.trans d) (reasonOf hact) fun reason? => ?_
  refine .bind (hR.trans d) (hreturned reason?) fun _ => ?_
  cases reason? with
  | none => exact .pure (hR.refl d) true
  | some reason =>
    have hlog : (Act.log (abortLine id reason)).Keeps (R d) := fun w => hR.logged d w _
    exact .bind (hR.trans d) hlog fun _ => .pure (hR.refl d) false

theorem callEach (hR : Frame R) {c : p.Channel} {act : Callback p c → Act p Unit}
    (hact : ∀ callback, (act callback).Keeps (R d)) (k : Nat)
    (subscribers : List (SubscriptionId × Callback p c)) :
    (callEach k c act subscribers).Keeps (R d) := by
  induction subscribers with
  | nil => exact .pure (hR.refl d) 0
  | cons s later ih =>
    obtain ⟨id, callback⟩ := s
    refine .bind (hR.trans d) (hR.call (hact callback) k c id) fun taken => ?_
    exact .bind (hR.trans d) ih fun n => .pure (hR.refl d) _

/-- What publishing an event at a depth adds to its own record is related at the next depth. -/
def Publishes (R : Nat → World p → World p → Prop) (d : Nat) (publish : Publisher p) : Prop :=
  ∀ c event w, R (d + 1) (w.record (.published d c event)) ((publish c event).after w)

/-- If requests keep the relations as long as what they publish does, deliveries keep them. -/
theorem deliver (hR : Frame R) {answer : Handler p}
    (hanswer : ∀ d fuel publish, Publishes R d publish → ∀ q, (answer fuel publish q).Keeps (R d))
    (fuel : Nat) : ∀ d, Publishes R d (deliver answer fuel d) := by
  induction fuel with
  | zero =>
    intro d c event w
    have hend : (do
        let b ← Act.bus c
        if b.subscribers.isEmpty then pure 0 else throw .exhausted : Act p Nat).Keeps (R (d + 1)) := by
      refine .bind (hR.trans (d + 1)) (fun v => hR.refl (d + 1) v) fun b => ?_
      split
      · exact .pure (hR.refl (d + 1)) 0
      · exact .throw (hR.refl (d + 1)) .exhausted
    exact hend (w.record (.published d c event))
  | succ fuel ih =>
    intro d c event w
    refine hR.callEach (fun callback => ?_) d _ (w.record (.published d c event))
    exact hR.run (hanswer (d + 1) fuel _ (ih (d + 1))) (callback event)

end Delivery.Frame

end Trajectory
