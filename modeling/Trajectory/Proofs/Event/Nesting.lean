import Trajectory.Proofs.Event.Orderly

namespace Trajectory

variable {p : Protocol} {β γ : Type}

def Occurrence.depth : Occurrence p → Nat
  | .published d _ _ => d
  | .called d _ _ => d
  | .returned d _ _ _ => d

namespace Delivery

/-- A call of a subscriber between the worlds in which it was entered and left, with what was
published and called inside it, the oldest first, and the reason if the subscriber gave up. -/
structure Call (p : Protocol) (c : p.Channel) where
  id : SubscriptionId
  callback : Callback p c
  entered : World p
  inner : List (Occurrence p)
  left : World p
  reason? : Option Reason

namespace Call

variable {c : p.Channel}

def subscriber (call : Call p c) : SubscriptionId × Callback p c := (call.id, call.callback)

def taken (call : Call p c) : Bool := call.reason?.isNone

def trace (d : Nat) (call : Call p c) : List (Occurrence p) :=
  .called d c call.id :: call.inner ++ [.returned d c call.id call.reason?]

/-- The world after the call is noted. -/
def closed (d : Nat) (call : Call p c) : World p :=
  let w := call.left.record (.returned d c call.id call.reason?)
  match call.reason? with
  | none => w
  | some reason => w.addLog (abortLine call.id reason)

/-- The subscriber's script, given an event, leads from the one world to the other. -/
def Ran (answer : Handler p) (fuel d : Nat) (event : p.Payload c) (call : Call p c) : Prop :=
  reasonOf ((call.callback event).run (answer fuel (deliver answer fuel (d + 1)))) call.entered =
    .ok call.reason? call.left

/-- Each call is entered in the world that the one before has left. -/
def Follow (d : Nat) (w : World p) : List (Call p c) → World p → Prop
  | [], v => v = w
  | call :: later, v =>
    call.entered = w.record (.called d c call.id) ∧ Follow d (call.closed d) later v

end Call

/-- A delivery of an event has made these calls. -/
structure Delivered (answer : Handler p) (fuel d : Nat) {c : p.Channel} (event : p.Payload c)
    (w : World p) (calls : List (Call p c)) (n : Nat) (v : World p) : Prop where
  registered : calls.map Call.subscriber = (w.hub c).subscribers
  once : (calls.map Call.id).Pairwise fun i j => i.number < j.number
  ran : ∀ call ∈ calls, call.Ran answer fuel d event
  follow : Call.Follow d (w.record (.published d c event)) calls v
  taken : calls.countP Call.taken = n

/-- What is published at a depth between two worlds, each publish with all that happens inside it,
the oldest first. -/
inductive Deliveries (answer : Handler p) : Nat → World p → List (Occurrence p) → World p → Prop
  | quiet {d : Nat} {w v : World p} (hhistory : v.history = w.history) : Deliveries answer d w [] v
  | published {fuel d n : Nat} {c : p.Channel} {event : p.Payload c} {w v : World p}
      {calls : List (Call p c)} (hdeliver : deliver answer fuel d c event w = .ok n v)
      (hdelivered : Delivered answer (fuel - 1) d event w calls n v)
      (hinner : ∀ call ∈ calls, Deliveries answer (d + 1) call.entered call.inner call.left) :
      Deliveries answer d w (.published d c event :: calls.flatMap (Call.trace d)) v
  | trans {d : Nat} {u v w : World p} {first later : List (Occurrence p)}
      (hfirst : Deliveries answer d u first v) (hlater : Deliveries answer d v later w) :
      Deliveries answer d u (first ++ later) w

/-- Between two worlds these occurrences were recorded, the oldest first and none at less than a
depth. -/
structure Happened (d : Nat) (w v : World p) (trace : List (Occurrence p)) : Prop where
  history : v.history = trace.reverse ++ w.history
  depth : ∀ o ∈ trace, d ≤ o.depth

namespace Happened

variable {d : Nat} {u v w : World p} {first later : List (Occurrence p)}

theorem nil (h : v.history = w.history) : Happened d w v [] := ⟨h, fun _ hmem => by cases hmem⟩

theorem trans (huv : Happened d u v first) (hvw : Happened d v w later) :
    Happened d u w (first ++ later) := by
  refine ⟨?_, fun o ho => ?_⟩
  · rw [hvw.history, huv.history, List.reverse_append, List.append_assoc]
  · exact (List.mem_append.mp ho).elim (huv.depth o) (hvw.depth o)

theorem of_record {o : Occurrence p} (ho : d ≤ o.depth) (h : v.history = o :: w.history) :
    Happened d w v [o] := by
  refine ⟨h, fun o' ho' => ?_⟩
  cases List.mem_singleton.mp ho'
  exact ho

theorem mono (h : Happened (d + 1) w v first) : Happened d w v first :=
  ⟨h.history, fun o ho => Nat.le_of_succ_le (h.depth o ho)⟩

end Happened

namespace Call

variable {c : p.Channel} {d : Nat} {call : Call p c} {w v : World p}

theorem history_closed (d : Nat) (call : Call p c) :
    (call.closed d).history = .returned d c call.id call.reason? :: call.left.history := by
  unfold closed
  cases call.reason? <;> rfl

theorem happened (hentered : call.entered = w.record (.called d c call.id))
    (hinner : Happened (d + 1) call.entered call.left call.inner) :
    Happened d w (call.closed d) (call.trace d) := by
  have hcalled : Happened d w call.entered [.called d c call.id] := by
    rw [hentered]
    exact .of_record (Nat.le_refl d) rfl
  have hreturned : Happened d call.left (call.closed d) [.returned d c call.id call.reason?] :=
    .of_record (Nat.le_refl d) (call.history_closed d)
  exact (hcalled.trans hinner.mono).trans hreturned

theorem Follow.happened {calls : List (Call p c)} (h : Follow d w calls v)
    (hinner : ∀ call ∈ calls, Happened (d + 1) call.entered call.left call.inner) :
    Happened d w v (calls.flatMap (trace d)) := by
  induction calls generalizing w with
  | nil =>
    cases h
    exact .nil rfl
  | cons call later ih =>
    obtain ⟨hentered, hlater⟩ := h
    have hfirst := happened hentered (hinner call List.mem_cons_self)
    exact hfirst.trans (ih hlater fun call hcall => hinner call (List.mem_cons_of_mem _ hcall))

end Call

theorem Delivered.happened {answer : Handler p} {fuel d n : Nat} {c : p.Channel}
    {event : p.Payload c} {w v : World p} {calls : List (Call p c)}
    (h : Delivered answer fuel d event w calls n v)
    (hinner : ∀ call ∈ calls, Happened (d + 1) call.entered call.left call.inner) :
    Happened d w v (.published d c event :: calls.flatMap (Call.trace d)) := by
  have hpublished : Happened d w (w.record (.published d c event)) [.published d c event] :=
    .of_record (Nat.le_refl d) rfl
  exact hpublished.trans (h.follow.happened hinner)

theorem Deliveries.happened {answer : Handler p} {d : Nat} {w v : World p}
    {trace : List (Occurrence p)} (h : Deliveries answer d w trace v) : Happened d w v trace := by
  induction h with
  | quiet hhistory => exact .nil hhistory
  | published _ hdelivered _ ih => exact hdelivered.happened ih
  | trans _ _ ihfirst ihlater => exact ihfirst.trans ihlater

/-- The subscribers that were called at a depth. -/
def calledAt (d : Nat) (trace : List (Occurrence p)) : List (p.Channel × SubscriptionId) :=
  trace.filterMap fun
    | .called k c id => if k = d then some (c, id) else none
    | _ => none

/-- How many calls at a depth came to their end without a reason. -/
def takenAt (d : Nat) (trace : List (Occurrence p)) : Nat :=
  trace.countP fun
    | .returned k _ _ reason? => k = d && reason?.isNone
    | _ => false

theorem calledAt_append (d : Nat) (first later : List (Occurrence p)) :
    calledAt d (first ++ later) = calledAt d first ++ calledAt d later := List.filterMap_append

theorem takenAt_append (d : Nat) (first later : List (Occurrence p)) :
    takenAt d (first ++ later) = takenAt d first + takenAt d later := List.countP_append

theorem at_of_deeper {d : Nat} {trace : List (Occurrence p)} (h : ∀ o ∈ trace, d < o.depth) :
    calledAt d trace = [] ∧ takenAt d trace = 0 := by
  refine ⟨List.filterMap_eq_nil_iff.mpr fun o ho => ?_, List.countP_eq_zero.mpr fun o ho => ?_⟩
  all_goals
    have hdeep := h o ho
    cases o with
    | published => simp
    | called k c id =>
      have hne : k ≠ d := Nat.ne_of_gt hdeep
      simp [hne]
    | returned k c id reason? =>
      have hne : k ≠ d := Nat.ne_of_gt hdeep
      simp [hne]

theorem Call.at_trace {c : p.Channel} {d : Nat} {call : Call p c}
    (h : ∀ o ∈ call.inner, d < o.depth) :
    calledAt d (call.trace d) = [(c, call.id)] ∧
      takenAt d (call.trace d) = if call.taken then 1 else 0 := by
  obtain ⟨hcalled, htaken⟩ := at_of_deeper h
  have hsplit : call.trace d = [.called d c call.id] ++ call.inner ++
    [.returned d c call.id call.reason?] := rfl
  rw [hsplit, calledAt_append, calledAt_append, takenAt_append, takenAt_append, hcalled, htaken]
  refine ⟨by simp [calledAt], ?_⟩
  simp [takenAt, taken, List.countP_cons]

theorem Call.at_traces {c : p.Channel} {d : Nat} {calls : List (Call p c)}
    (h : ∀ call ∈ calls, ∀ o ∈ call.inner, d < o.depth) :
    calledAt d (calls.flatMap (trace d)) = calls.map (fun call => (c, call.id)) ∧
      takenAt d (calls.flatMap (trace d)) = calls.countP taken := by
  induction calls with
  | nil => exact ⟨rfl, rfl⟩
  | cons call later ih =>
    obtain ⟨hcalled, htaken⟩ := at_trace (h call List.mem_cons_self)
    obtain ⟨hlater, hlater'⟩ := ih fun call hcall => h call (List.mem_cons_of_mem _ hcall)
    rw [List.flatMap_cons, calledAt_append, takenAt_append, hcalled, htaken, hlater, hlater']
    refine ⟨rfl, ?_⟩
    rw [List.countP_cons, Nat.add_comm]

end Delivery

end Trajectory
