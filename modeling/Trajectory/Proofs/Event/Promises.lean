import Trajectory.Proofs.Event.Agreement

namespace Trajectory

variable {p : Protocol} {β γ : Type} {P : World p → Prop}

namespace Act

/-- From a world of a kind the action does not end by a broken promise, and however it ends it leads to
a world of that kind. -/
def Honors (P : World p → Prop) (act : Act p β) : Prop :=
  ∀ w, P w → (∀ b v, act w ≠ .error (.breach b) v) ∧ P (act.after w)

namespace Honors

variable {act act' : Act p β} {f : β → Act p γ}

theorem of_ok (h : ∀ w, P w → ∃ b v, act w = .ok b v ∧ P v) : Honors P act := by
  intro w hw
  obtain ⟨b, v, hact, hv⟩ := h w hw
  rw [after_of_ok hact, hact]
  exact ⟨fun _ _ => nofun, hv⟩

theorem pure (b : β) : Honors P (Pure.pure b : Act p β) := .of_ok fun w hw => ⟨b, w, rfl, hw⟩

theorem aborted (reason : Reason) : Honors P (throw (.aborted reason) : Act p β) :=
  fun _ hw => ⟨fun _ _ => nofun, hw⟩

theorem exhausted : Honors P (throw .exhausted : Act p β) := fun _ hw => ⟨fun _ _ => nofun, hw⟩

theorem bind (hact : Honors P act) (hf : ∀ b, Honors P (f b)) : Honors P (act >>= f) := by
  intro w hw
  obtain ⟨hkept, hafter⟩ := hact w hw
  cases h : act w with
  | ok b v =>
    rw [after_of_ok h] at hafter
    rw [bind_of_ok h, after_bind_of_ok h]
    exact hf b v hafter
  | error halt v =>
    unfold after at hafter ⊢
    rw [h] at hafter hkept
    rw [bind_of_error h]
    refine ⟨fun b u herror => ?_, hafter⟩
    cases herror
    exact hkept b v rfl

end Honors

end Act

namespace Delivery

open Act (Honors)

theorem honors_record (hP : Closed P) (o : Occurrence p) : Honors P (Act.record o) :=
  .of_ok fun w hw => ⟨(), _, rfl, hP.recorded w o hw⟩

theorem honors_bus (c : p.Channel) : Honors P (Act.bus c) := .of_ok fun w hw => ⟨_, w, rfl, hw⟩

theorem honors_run (hP : Closed P) {answer : (q : p.Request) → Act p (p.Answer q)}
    (h : ∀ q, Honors P (answer q)) (s : Script p) : Honors P (s.run answer) := by
  induction s with
  | done => exact .pure ()
  | abort reason => exact .aborted reason
  | subscribe c callback next _ ih =>
    have hsubscribe : Honors P (Act.subscribe c callback) :=
      .of_ok fun w hw => ⟨_, _, rfl, hP.subscribed w c callback hw⟩
    exact .bind hsubscribe ih
  | request q next ih => exact .bind (h q) ih

theorem honors_reasonOf {act : Act p Unit} (h : Honors P act) : Honors P (reasonOf act) := by
  intro w hw
  obtain ⟨hkept, hafter⟩ := h w hw
  unfold Act.after at hafter ⊢
  unfold Delivery.reasonOf
  cases hact : act w with
  | ok _ v => exact ⟨by simp, by simpa [hact] using hafter⟩
  | error halt v =>
    cases halt with
    | aborted reason => exact ⟨by simp, by simpa [hact] using hafter⟩
    | breach b => exact absurd hact (hkept b v)
    | exhausted => exact ⟨by simp, by simpa [hact] using hafter⟩

theorem honors_call (hP : Closed P) {act : Act p Unit} (h : Honors P act) (k : Nat) (c : p.Channel)
    (id : SubscriptionId) : Honors P (call k c id act) := by
  refine .bind (honors_record hP _) fun _ => .bind (honors_reasonOf h) fun reason? => ?_
  refine .bind (honors_record hP _) fun _ => ?_
  cases reason? with
  | none => exact .pure true
  | some reason =>
    have hlog : Honors P (Act.log (abortLine id reason)) :=
      .of_ok fun w hw => ⟨(), _, rfl, hP.logged w _ hw⟩
    exact .bind hlog fun _ => .pure false

theorem honors_callEach (hP : Closed P) {c : p.Channel} {act : Callback p c → Act p Unit}
    (h : ∀ callback, Honors P (act callback)) (k : Nat)
    (subscribers : List (SubscriptionId × Callback p c)) :
    Honors P (callEach k c act subscribers) := by
  induction subscribers with
  | nil => exact .pure 0
  | cons s later ih =>
    obtain ⟨id, callback⟩ := s
    refine .bind (honors_call hP (h callback) k c id) fun taken => ?_
    exact .bind ih fun n => .pure _

/-- If requests break no promise as long as what they publish does not, deliveries break none. -/
theorem honors_deliver (hP : Closed P) {answer : Handler p}
    (h : ∀ fuel publish, (∀ c event, Honors P (publish c event)) →
      ∀ q, Honors P (answer fuel publish q))
    (fuel d : Nat) (c : p.Channel) (event : p.Payload c) :
    Honors P (deliver answer fuel d c event) := by
  induction fuel generalizing d c event with
  | zero =>
    refine .bind (honors_record hP _) fun _ => .bind (honors_bus c) fun b => ?_
    split
    · exact .pure 0
    · exact .exhausted
  | succ fuel ih =>
    have hanswer := h fuel _ (ih (d + 1))
    refine .bind (honors_record hP _) fun _ => .bind (honors_bus c) fun b => ?_
    exact honors_callEach hP (fun callback => honors_run hP hanswer (callback event)) d b.subscribers

end Delivery

end Trajectory
