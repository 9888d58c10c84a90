import Trajectory.Proofs.Event.Nesting

namespace Trajectory

open World (StayOrderly stayOrderly_frame)

variable {p : Protocol} {β γ : Type}

namespace Act

/-- The action comes to an answer, or is given up by a subscriber. -/
def Finishes (act : Act p β) (w : World p) : Prop :=
  ∀ halt v, act w = .error halt v → ∃ reason, halt = .aborted reason

theorem finishes_of_ok {act : Act p β} {w v : World p} {b : β} (h : act w = .ok b v) :
    act.Finishes w := by
  intro halt u herror
  rw [h] at herror
  cases herror

theorem of_record {o : Occurrence p} {w v : World p} {u : Unit} (h : record o w = .ok u v) :
    v = w.record o := by
  cases h
  rfl

/-- The action is never given up. -/
def Persists (act : Act p β) : Prop := ∀ w reason v, act w ≠ .error (.aborted reason) v

namespace Persists

theorem of_ok {act : Act p β} (h : ∀ w, ∃ b v, act w = .ok b v) : Persists act := by
  intro w reason v herror
  obtain ⟨b, u, hok⟩ := h w
  rw [hok] at herror
  cases herror

theorem bind {act : Act p β} {f : β → Act p γ} (hact : Persists act) (hf : ∀ b, Persists (f b)) :
    Persists (act >>= f) := by
  intro w reason v h
  cases hfirst : act w with
  | ok b u =>
    rw [bind_of_ok hfirst] at h
    exact hf b u reason v h
  | error halt u =>
    rw [bind_of_error hfirst] at h
    cases h
    exact hact w reason v hfirst

end Persists

end Act

namespace Delivery

open Act (Persists)

variable {answer : Handler p} {fuel d n : Nat} {c : p.Channel} {w v : World p}

theorem reasonOf_persists (act : Act p Unit) : Persists (reasonOf act) := by
  intro w reason v h
  unfold reasonOf at h
  split at h
  next => cases h
  next => cases h
  next hother _ =>
    cases h
    exact hother reason rfl

theorem call_persists (d : Nat) (c : p.Channel) (id : SubscriptionId) (act : Act p Unit) :
    Persists (call d c id act) := by
  refine .bind (.of_ok fun w => ⟨_, _, rfl⟩) fun _ => ?_
  refine .bind (reasonOf_persists act) fun reason? => ?_
  refine .bind (.of_ok fun w => ⟨_, _, rfl⟩) fun _ => ?_
  cases reason? with
  | none => exact .of_ok fun w => ⟨_, _, rfl⟩
  | some reason => exact .of_ok fun w => ⟨_, _, rfl⟩

theorem callEach_persists (d : Nat) (c : p.Channel) (act : Callback p c → Act p Unit)
    (subscribers : List (SubscriptionId × Callback p c)) :
    Persists (callEach d c act subscribers) := by
  induction subscribers with
  | nil => exact .of_ok fun w => ⟨_, _, rfl⟩
  | cons s later ih =>
    obtain ⟨id, callback⟩ := s
    refine .bind (call_persists d c id (act callback)) fun taken => ?_
    exact .bind ih fun n => .of_ok fun w => ⟨_, _, rfl⟩

/-- No publish is given up, whatever its subscribers do. -/
theorem deliver_persists (answer : Handler p) (fuel d : Nat) (c : p.Channel) (event : p.Payload c) :
    Persists (deliver answer fuel d c event) := by
  cases fuel with
  | zero =>
    refine .bind (.of_ok fun w => ⟨_, _, rfl⟩) fun _ => ?_
    refine .bind (.of_ok fun w => ⟨_, _, rfl⟩) fun b => ?_
    split
    · exact .of_ok fun w => ⟨_, _, rfl⟩
    · exact fun w reason v h => by cases h
  | succ fuel =>
    refine .bind (.of_ok fun w => ⟨_, _, rfl⟩) fun _ => ?_
    refine .bind (.of_ok fun w => ⟨_, _, rfl⟩) fun b => ?_
    exact callEach_persists d c _ b.subscribers

theorem of_reasonOf {act : Act p Unit} {reason? : Option Reason} (h : reasonOf act w = .ok reason? v) :
    act.Finishes w ∧ act.after w = v := by
  unfold reasonOf at h
  split at h
  next hact =>
    cases h
    exact ⟨Act.finishes_of_ok hact, Act.after_of_ok hact⟩
  next reason _ hact =>
    cases h
    refine ⟨fun halt u herror => ?_, by rw [Act.after, hact]⟩
    rw [hact] at herror
    cases herror
    exact ⟨reason, rfl⟩
  next => cases h

/-- What an action publishes in orderly buses, if it finishes, are deliveries one after the other. -/
def Traced (answer : Handler p) (d : Nat) (act : Act p β) : Prop :=
  ∀ w, w.Orderly → act.Finishes w → ∃ trace, Deliveries answer d w trace (act.after w)

namespace Traced

theorem of_quiet {act : Act p β} (h : ∀ w, (act.after w).history = w.history) :
    Traced answer d act := fun w _ _ => ⟨[], .quiet (h w)⟩

theorem bind {act : Act p β} {f : β → Act p γ} (hkeeps : act.Keeps (StayOrderly d))
    (hact : Traced answer d act) (hf : ∀ b, Traced answer d (f b)) :
    Traced answer d (act >>= f) := by
  intro w hw hfinishes
  have horderly := hkeeps w hw
  cases h : act w with
  | ok b v =>
    obtain ⟨first, hfirst⟩ := hact w hw (Act.finishes_of_ok h)
    rw [Act.after_of_ok h] at hfirst horderly
    unfold Act.Finishes at hfinishes
    rw [Act.bind_of_ok h] at hfinishes
    obtain ⟨later, hlater⟩ := hf b v horderly hfinishes
    rw [Act.after_bind_of_ok h]
    exact ⟨first ++ later, hfirst.trans hlater⟩
  | error halt v =>
    rw [Act.after_bind_of_error h]
    refine hact w hw fun halt' u herror => hfinishes halt' u ?_
    rw [h] at herror
    cases herror
    exact Act.bind_of_error h

theorem run {answers : (q : p.Request) → Act p (p.Answer q)}
    (hkeeps : ∀ q, (answers q).Keeps (StayOrderly d)) (h : ∀ q, Traced answer d (answers q))
    (s : Script p) : Traced answer d (s.run answers) := by
  induction s with
  | done => exact .of_quiet fun w => rfl
  | abort reason => exact .of_quiet fun w => rfl
  | subscribe c callback next _ ih =>
    have hsubscribe : (Act.subscribe c callback).Keeps (StayOrderly d) := fun w =>
      stayOrderly_frame.subscribed d w c callback
    exact .bind hsubscribe (.of_quiet fun w => rfl) ih
  | request q next ih => exact .bind (hkeeps q) (h q) ih

end Traced

theorem exists_of_call {id : SubscriptionId} {act : Act p Unit} {taken : Bool} (hw : w.Orderly)
    (htraced : Traced answer (d + 1) act) (h : call d c id act w = .ok taken v)
    (callback : Callback p c) :
    ∃ call : Call p c, call.subscriber = (id, callback) ∧ call.entered = w.record (.called d c id) ∧
      reasonOf act call.entered = .ok call.reason? call.left ∧
        Deliveries answer (d + 1) call.entered call.inner call.left ∧ call.closed d = v ∧
          call.taken = taken := by
  obtain ⟨_, u, hcalled, h⟩ := Act.bind_eq_ok_iff.mp h
  obtain rfl := Act.of_record hcalled
  obtain ⟨reason?, left, hreason, h⟩ := Act.bind_eq_ok_iff.mp h
  obtain ⟨_, u, hreturned, h⟩ := Act.bind_eq_ok_iff.mp h
  obtain rfl := Act.of_record hreturned
  obtain ⟨hfinishes, hleft⟩ := of_reasonOf hreason
  obtain ⟨inner, hinner⟩ := htraced (w.record (.called d c id)) hw hfinishes
  rw [hleft] at hinner
  refine ⟨⟨id, callback, w.record (.called d c id), inner, left, reason?⟩, rfl, rfl, hreason,
    hinner, ?_⟩
  cases reason? with
  | none =>
    cases h
    exact ⟨rfl, rfl⟩
  | some reason =>
    obtain ⟨_, u, hlog, h⟩ := Act.bind_eq_ok_iff.mp h
    cases hlog
    cases h
    exact ⟨rfl, rfl⟩

section Event

variable {event : p.Payload c}

theorem exists_of_callEach
    (hkeeps : ∀ callback : Callback p c, ((callback event).run
      (answer fuel (deliver answer fuel (d + 1)))).Keeps (StayOrderly (d + 1)))
    (htraced : ∀ callback : Callback p c, Traced answer (d + 1) ((callback event).run
      (answer fuel (deliver answer fuel (d + 1)))))
    {subscribers : List (SubscriptionId × Callback p c)} (hw : w.Orderly)
    (h : callEach d c (fun callback => (callback event).run
      (answer fuel (deliver answer fuel (d + 1)))) subscribers w = .ok n v) :
    ∃ calls : List (Call p c), calls.map Call.subscriber = subscribers ∧
      (∀ call ∈ calls, call.Ran answer fuel d event ∧
        Deliveries answer (d + 1) call.entered call.inner call.left) ∧
      Call.Follow d w calls v ∧ calls.countP Call.taken = n := by
  induction subscribers generalizing w n with
  | nil =>
    cases h
    exact ⟨[], rfl, by simp, rfl, rfl⟩
  | cons s later ih =>
    obtain ⟨id, callback⟩ := s
    obtain ⟨taken, u, hcall, h⟩ := Act.bind_eq_ok_iff.mp h
    obtain ⟨m, v', hlater, h⟩ := Act.bind_eq_ok_iff.mp h
    cases h
    have hu := stayOrderly_frame.call (hkeeps callback) d c id w hw
    rw [Act.after_of_ok hcall] at hu
    obtain ⟨first, hsubscriber, hentered, hran, hinner, hclosed, htaken⟩ :=
      exists_of_call hw (htraced callback) hcall callback
    obtain ⟨calls, hregistered, hcalls, hfollow, hcount⟩ := ih hu hlater
    obtain ⟨hid, hcallback⟩ := Prod.mk.inj hsubscriber
    refine ⟨first :: calls, by rw [List.map_cons, hregistered, hsubscriber], ?_, ?_, ?_⟩
    · intro call hmem
      rcases List.mem_cons.mp hmem with rfl | hmem
      · refine ⟨?_, hinner⟩
        unfold Call.Ran
        rw [hcallback]
        exact hran
      · exact hcalls call hmem
    · refine ⟨by rw [hentered, hid], ?_⟩
      rw [hclosed]
      exact hfollow
    · rw [List.countP_cons, hcount, htaken]
      cases taken <;> rfl

/-- A handler whose requests publish nothing but through the publisher they are given. -/
structure Relaying (answer : Handler p) : Prop where
  orderly : ∀ d fuel publish, Delivery.Frame.Publishes StayOrderly d publish →
    ∀ q, (answer fuel publish q).Keeps (StayOrderly d)
  traced : ∀ d fuel publish, Delivery.Frame.Publishes StayOrderly d publish →
    (∀ c event, Traced answer d (publish c event)) → ∀ q, Traced answer d (answer fuel publish q)

namespace Relaying

theorem publishes (hanswer : Relaying answer) (fuel d : Nat) :
    Delivery.Frame.Publishes StayOrderly d (deliver answer fuel d) :=
  stayOrderly_frame.deliver hanswer.orderly fuel d

/-- A delivery that returns has called the subscribers of its bus, if what they do inside it has come
to deliveries too. -/
theorem delivered_of_inner (hanswer : Relaying answer)
    (hinner : ∀ inside, fuel = inside + 1 →
      ∀ c event, Traced answer (d + 1) (deliver answer inside (d + 1) c event))
    (hw : w.Orderly) (h : deliver answer fuel d c event w = .ok n v) :
    ∃ calls : List (Call p c), Delivered answer (fuel - 1) d event w calls n v ∧
      ∀ call ∈ calls, Deliveries answer (d + 1) call.entered call.inner call.left := by
  cases fuel with
  | zero =>
    obtain ⟨_, u, hrecord, h⟩ := Act.bind_eq_ok_iff.mp h
    obtain rfl := Act.of_record hrecord
    obtain ⟨b, u, hbus, h⟩ := Act.bind_eq_ok_iff.mp h
    cases hbus
    split at h
    next hempty =>
      cases h
      have hnone : (w.hub c).subscribers = [] := List.isEmpty_iff.mp hempty
      exact ⟨[], ⟨by rw [hnone, List.map_nil], .nil, by simp, rfl, rfl⟩, by simp⟩
    next => cases h
  | succ fuel =>
    obtain ⟨_, u, hrecord, h⟩ := Act.bind_eq_ok_iff.mp h
    obtain rfl := Act.of_record hrecord
    obtain ⟨b, u, hbus, h⟩ := Act.bind_eq_ok_iff.mp h
    cases hbus
    have hpublishes := hanswer.publishes fuel (d + 1)
    have hkeeps := hanswer.orderly (d + 1) fuel _ hpublishes
    have htraced := hanswer.traced (d + 1) fuel _ hpublishes (hinner fuel rfl)
    have hrecorded : (w.record (.published d c event)).Orderly := hw
    obtain ⟨calls, hregistered, hcalls, hfollow, htaken⟩ := exists_of_callEach
      (fun callback => stayOrderly_frame.run hkeeps (callback event))
      (fun callback => .run hkeeps htraced (callback event)) hrecorded h
    have hsubscribers : calls.map Call.subscriber = (w.hub c).subscribers := hregistered
    have hids : calls.map Call.id = (w.hub c).ids := by
      rw [Bus.ids, ← hsubscribers, List.map_map]
      rfl
    refine ⟨calls, ⟨hsubscribers, ?_, fun call hcall => (hcalls call hcall).1, hfollow, htaken⟩,
      fun call hcall => (hcalls call hcall).2⟩
    rw [hids]
    exact (hw c).sorted

/-- Whatever a delivery comes to, if it finishes, it has called its subscribers. The induction is on
how deep deliveries may be nested. -/
theorem deliver_traced (hanswer : Relaying answer) (fuel d : Nat) (c : p.Channel)
    (event : p.Payload c) : Traced answer d (deliver answer fuel d c event) := by
  induction fuel using Nat.strongRecOn generalizing d c event with
  | ind fuel ih =>
    intro w hw hfinishes
    cases h : deliver answer fuel d c event w with
    | error halt v =>
      obtain ⟨reason, rfl⟩ := hfinishes halt v h
      exact absurd h (deliver_persists answer fuel d c event w reason v)
    | ok n v =>
      obtain ⟨calls, hdelivered, hinner⟩ := hanswer.delivered_of_inner
        (fun inside hfuel => ih inside (by omega) (d + 1)) hw h
      rw [Act.after_of_ok h]
      exact ⟨_, .published h hdelivered hinner⟩

theorem delivered (hanswer : Relaying answer) (hw : w.Orderly)
    (h : deliver answer fuel d c event w = .ok n v) :
    ∃ calls : List (Call p c), Delivered answer (fuel - 1) d event w calls n v ∧
      ∀ call ∈ calls, Deliveries answer (d + 1) call.entered call.inner call.left :=
  hanswer.delivered_of_inner (fun inside _ => hanswer.deliver_traced inside (d + 1)) hw h

end Relaying

end Event

end Delivery

namespace Broadcast

open Delivery

variable {ε μ : Type}

theorem relaying : Relaying (answer ε μ) where
  orderly _ _ _ hpublish q := answer_orderly hpublish q
  traced d fuel publish _ hpublish q := by
    cases q with
    | publish bus event => exact hpublish bus event
    | _ => exact .of_quiet fun w => rfl

/-- Each publish that returns has called the subscribers that its bus had when it was entered, each
once and in the order of their subscription, with the event that was published; a subscriber that came
later has not been called. Its answer is how many of these calls were not given up. What happened
inside the calls are such deliveries again. -/
theorem delivered_of_publish {fuel d n bus : Nat} {event : ε} {w v : World (protocol ε μ)}
    (hw : Reachable w) (h : deliver (answer ε μ) fuel d bus event w = .ok n v) :
    ∃ calls : List (Call (protocol ε μ) bus), ∃ trace,
      Delivered (answer ε μ) (fuel - 1) d event w calls n v ∧
      (∀ call ∈ calls, Deliveries (answer ε μ) (d + 1) call.entered call.inner call.left) ∧
      trace = .published d bus event :: calls.flatMap (Call.trace d) ∧
      v.history = trace.reverse ++ w.history ∧
      calledAt d trace = (w.hub bus).ids.map (fun id => (bus, id)) ∧
      (∀ id, (w.hub bus).issued ≤ id.number → (bus, id) ∉ calledAt d trace) ∧
      takenAt d trace = n := by
  obtain ⟨calls, hdelivered, hinner⟩ := relaying.delivered hw.orderly h
  have hdeeper (call) (hcall : call ∈ calls) := (hinner call hcall).happened
  have hhappened := hdelivered.happened hdeeper
  obtain ⟨hcalled, htaken⟩ := Call.at_traces fun call hcall o ho => (hdeeper call hcall).depth o ho
  have hids : calls.map (fun call => (bus, call.id)) = (w.hub bus).ids.map (fun id => (bus, id)) := by
    rw [Bus.ids, ← hdelivered.registered, List.map_map, List.map_map]
    rfl
  have hall : calledAt d (.published d bus event :: calls.flatMap (Call.trace d)) =
      (w.hub bus).ids.map (fun id => (bus, id)) := hcalled.trans hids
  refine ⟨calls, _, hdelivered, hinner, rfl, hhappened.history, hall, fun id hid hmem => ?_, ?_⟩
  · rw [hall] at hmem
    obtain ⟨id', hid', heq⟩ := List.mem_map.mp hmem
    cases heq
    exact (hw.orderly bus).not_mem_of_issued_le hid hid'
  · exact htaken.trans hdelivered.taken

/-- On the first event it removes its neighbour, adds another subscriber and publishes again. -/
def meddler (event : Nat) : Script (protocol Nat Unit) :=
  if event = 1 then
    .request (.unsubscribe 0 ⟨1⟩) fun _ =>
      .subscribe 0 (fun _ => .done) fun _ => .request (.publish 0 2) fun _ => .done
  else .done

/-- A bus with a subscriber that meddles and one that gives up. -/
def meddledWorld : World (protocol Nat Unit) :=
  let w : World (protocol Nat Unit) := .quiet ()
  let w := w.setBus 0 ((w.hub 0).subscribe meddler)
  w.setBus 0 ((w.hub 0).subscribe fun _ => .abort (.text "broken subscriber"))

theorem delivered_of_publish_meddled : ∃ v,
    deliver (answer Nat Unit) 2 0 (0 : Nat) 1 meddledWorld = .ok 1 v ∧
      ∃ (calls : List (Call (protocol Nat Unit) (0 : Nat)))
        (trace : List (Occurrence (protocol Nat Unit))),
        Delivered (answer Nat Unit) 1 0 (1 : Nat) meddledWorld calls 1 v ∧
          v.history = trace.reverse ∧ calledAt 0 trace = [((0 : Nat), ⟨0⟩), ((0 : Nat), ⟨1⟩)] ∧
            takenAt 0 trace = 1 := by
  have hreachable : Reachable meddledWorld :=
    ((Reachable.quiet ()).subscribed 0 meddler).subscribed 0 _
  refine ⟨_, rfl, ?_⟩
  obtain ⟨calls, trace, hdelivered, _, _, hhistory, hcalled, _, htaken⟩ :=
    @delivered_of_publish Nat Unit 2 0 1 0 1 _ _ hreachable rfl
  exact ⟨calls, trace, hdelivered, hhistory.trans (List.append_nil _), hcalled, htaken⟩

end Broadcast

end Trajectory
