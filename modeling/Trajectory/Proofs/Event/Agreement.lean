import Trajectory.Proofs.Event.Keeps

namespace Trajectory

variable {p : Protocol} {β γ : Type} {P : World p → Prop}

namespace Act

/-- From this world both actions do the same, and they lead to one with a property. -/
def Alike (Q : World p → Prop) (w : World p) (act act' : Act p β) : Prop :=
  act w = act' w ∧ Q (act.after w)

/-- From a world of a kind both actions do the same, and they lead to a world of that kind. -/
def Agree (P : World p → Prop) (act act' : Act p β) : Prop := ∀ w, P w → Alike P w act act'

namespace Alike

variable {Q : World p → Prop} {w v : World p} {act act' : Act p β} {f f' : β → Act p γ} {b : β}

theorem refl (h : Q (act.after w)) : Alike Q w act act := ⟨rfl, h⟩

theorem of_ok (h : act w = .ok b v) (h' : act' w = .ok b v) (hv : Q v) : Alike Q w act act' := by
  refine ⟨h.trans h'.symm, ?_⟩
  rw [after_of_ok h]
  exact hv

theorem imp {R : World p → Prop} (h : Alike Q w act act') (hQ : ∀ v, Q v → R v) :
    Alike R w act act' := ⟨h.1, hQ _ h.2⟩

theorem of_eq {first first' : Act p β} (h : Alike Q v act act') (hfirst : first w = act v)
    (hfirst' : first' w = act' v) : Alike Q w first first' := by
  obtain ⟨hsame, hafter⟩ := h
  refine ⟨hfirst.trans (hsame.trans hfirst'.symm), ?_⟩
  unfold after at hafter ⊢
  rw [hfirst]
  exact hafter

theorem bind_of_ok (h : act w = .ok b v) (hf : Alike Q v (f b) (f' b)) :
    Alike Q w (act >>= f) (act >>= f') := by
  obtain ⟨hsame, hafter⟩ := hf
  refine ⟨?_, ?_⟩
  · rw [Act.bind_of_ok h, Act.bind_of_ok h, hsame]
  · rw [after_bind_of_ok h]
    exact hafter

theorem bind (hact : Agree P act act') (hw : P w) (hhalt : ∀ v, P v → Q v)
    (hf : ∀ b v, act w = .ok b v → P v → Alike Q v (f b) (f' b)) :
    Alike Q w (act >>= f) (act' >>= f') := by
  obtain ⟨hsame, hafter⟩ := hact w hw
  cases h : act w with
  | ok b v =>
    rw [after_of_ok h] at hafter
    rw [h] at hsame
    obtain ⟨hsame', hafter'⟩ := hf b v h hafter
    refine ⟨?_, ?_⟩
    · rw [Act.bind_of_ok h, Act.bind_of_ok hsame.symm, hsame']
    · rw [after_bind_of_ok h]
      exact hafter'
  | error halt v =>
    rw [h] at hsame
    have herror : (act >>= f) w = .error halt v := bind_of_error h
    refine ⟨?_, ?_⟩
    · rw [herror, bind_of_error hsame.symm]
    · unfold after at hafter ⊢
      rw [herror]
      rw [h] at hafter
      exact hhalt v hafter

end Alike

namespace Agree

variable {act act' act'' : Act p β} {f f' : β → Act p γ}

theorem refl (h : ∀ w, P w → P (act.after w)) : Agree P act act := fun w hw => .refl (h w hw)

theorem pure (b : β) : Agree P (Pure.pure b : Act p β) (Pure.pure b) := .refl fun _ hw => hw

theorem throw (halt : Halt) : Agree P (throw halt : Act p β) (throw halt) := .refl fun _ hw => hw

theorem congr (hact : Agree P act act') (h : ∀ w, P w → act'' w = act' w) : Agree P act act'' := by
  intro w hw
  obtain ⟨hsame, hafter⟩ := hact w hw
  exact ⟨hsame.trans (h w hw).symm, hafter⟩

theorem bind (hact : Agree P act act') (hf : ∀ b, Agree P (f b) (f' b)) :
    Agree P (act >>= f) (act' >>= f') := fun _ hw =>
  .bind hact hw (fun _ hv => hv) fun b v _ hv => hf b v hv

end Agree

end Act

/-- Handlers with the same answers to requests that are made in worlds of a kind. -/
def Handler.Same (P : World p → Prop) (answer answer' : Handler p) : Prop :=
  ∀ fuel publish q w, P w → answer' fuel publish q w = answer fuel publish q w

namespace Delivery

open Act (Agree)

/-- What is noted of a delivery, and a new subscriber, do not lead to worlds of another kind. -/
structure Closed (P : World p → Prop) : Prop where
  recorded : ∀ w o, P w → P (w.record o)
  logged : ∀ w line, P w → P (w.addLog line)
  subscribed : ∀ w c callback, P w → P (w.setBus c ((w.hub c).subscribe callback))

namespace Closed

theorem record (hP : Closed P) (o : Occurrence p) : Agree P (Act.record o) (Act.record o) :=
  .refl fun w hw => hP.recorded w o hw

theorem run (hP : Closed P) {answer answer' : (q : p.Request) → Act p (p.Answer q)}
    (h : ∀ q, Agree P (answer q) (answer' q)) (s : Script p) :
    Agree P (s.run answer) (s.run answer') := by
  induction s with
  | done => exact .pure ()
  | abort reason => exact .throw (.aborted reason)
  | subscribe c callback next _ ih =>
    have hsubscribe : Agree P (Act.subscribe c callback) (Act.subscribe c callback) :=
      .refl fun w hw => hP.subscribed w c callback hw
    exact .bind hsubscribe ih
  | request q next ih => exact .bind (h q) ih

theorem reasonOf {act act' : Act p Unit} (h : Agree P act act') :
    Agree P (reasonOf act) (reasonOf act') := by
  intro w hw
  obtain ⟨hsame, hafter⟩ := h w hw
  unfold Act.Alike
  unfold Act.after at hafter ⊢
  unfold Delivery.reasonOf
  rw [← hsame]
  cases hact : act w with
  | ok _ v => exact ⟨rfl, by simpa [hact] using hafter⟩
  | error halt v => cases halt <;> exact ⟨rfl, by simpa [hact] using hafter⟩

theorem call (hP : Closed P) {act act' : Act p Unit} (h : Agree P act act') (k : Nat)
    (c : p.Channel) (id : SubscriptionId) : Agree P (call k c id act) (call k c id act') := by
  refine .bind (hP.record _) fun _ => ?_
  refine .bind (reasonOf h) fun reason? => ?_
  refine .bind (hP.record _) fun _ => ?_
  cases reason? with
  | none => exact .pure true
  | some reason =>
    have hlog : Agree P (Act.log (abortLine id reason)) (Act.log (abortLine id reason)) :=
      .refl fun w hw => hP.logged w _ hw
    exact .bind hlog fun _ => .pure false

theorem callEach (hP : Closed P) {c : p.Channel} {act act' : Callback p c → Act p Unit}
    (h : ∀ callback, Agree P (act callback) (act' callback)) (k : Nat)
    (subscribers : List (SubscriptionId × Callback p c)) :
    Agree P (callEach k c act subscribers) (callEach k c act' subscribers) := by
  induction subscribers with
  | nil => exact .pure 0
  | cons s later ih =>
    obtain ⟨id, callback⟩ := s
    refine .bind (hP.call (h callback) k c id) fun taken => ?_
    exact .bind ih fun n => .pure _

/-- Handlers whose answers agree as long as their deliveries do deliver alike. -/
theorem deliver (hP : Closed P) {answer answer' : Handler p}
    (h : ∀ fuel d, (∀ c event, Agree P (deliver answer fuel d c event)
        (deliver answer' fuel d c event)) →
      ∀ q, Agree P (answer fuel (deliver answer fuel d) q) (answer' fuel (deliver answer' fuel d) q))
    (fuel d : Nat) (c : p.Channel) (event : p.Payload c) :
    Agree P (deliver answer fuel d c event) (deliver answer' fuel d c event) := by
  induction fuel generalizing d c event with
  | zero =>
    refine .bind (hP.record _) fun _ => ?_
    refine .bind (.refl fun w hw => hw) fun b => ?_
    split
    · exact .pure 0
    · exact .throw .exhausted
  | succ fuel ih =>
    refine .bind (hP.record _) fun _ => ?_
    refine .bind (.refl fun w hw => hw) fun b => ?_
    refine hP.callEach (fun callback => hP.run (fun q => ?_) (callback event)) d b.subscribers
    exact h fuel (d + 1) (ih (d + 1)) q

/-- Requests that do not lead out of a kind of worlds, whoever is told of events, are made in such
worlds only. -/
theorem deliver_same (hP : Closed P) {answer answer' : Handler p}
    (h : ∀ fuel d publish,
      (∀ c event, Agree P (Delivery.deliver answer fuel d c event) (publish c event)) →
        ∀ q, Agree P (answer fuel (Delivery.deliver answer fuel d) q) (answer fuel publish q))
    (hsame : Handler.Same P answer answer') (fuel d : Nat) (c : p.Channel) (event : p.Payload c) :
    Agree P (Delivery.deliver answer fuel d c event) (Delivery.deliver answer' fuel d c event) := by
  refine hP.deliver (fun fuel d hdeliver q => ?_) fuel d c event
  exact (h fuel d _ hdeliver q).congr (hsame fuel _ q)

end Closed

end Delivery

end Trajectory
