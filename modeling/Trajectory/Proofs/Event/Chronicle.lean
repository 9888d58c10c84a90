import Trajectory.Proofs.Event.Orderly

namespace Trajectory

namespace Bus

variable {κ : Type}

/-- What is done to a bus, with what it answers. -/
inductive Deed (κ : Type) where
  | subscribed (id : SubscriptionId) (callback : κ)
  | unsubscribed (id : SubscriptionId) (found : Bool)
  | cleared (dropped : Nat)
  | counted (n : Nat)

/-- The answers are those of the bus; a clearing tells how many subscribers it drops. -/
def Answers (b : Bus κ) : Deed κ → Prop
  | .subscribed id _ => id = b.nextId
  | .unsubscribed id found => found = b.contains id
  | .cleared dropped => dropped = b.size
  | .counted n => n = b.size

/-- The bus after a deed. -/
def follow (b : Bus κ) : Deed κ → Bus κ
  | .subscribed _ callback => b.subscribe callback
  | .unsubscribed id _ => b.unsubscribe id
  | .cleared _ => b.clear
  | .counted _ => b

/-- Deeds that lead from one bus to another, the oldest first. -/
inductive Lived : Bus κ → List (Deed κ) → Bus κ → Prop
  | refl (b : Bus κ) : Lived b [] b
  | deed {b b' : Bus κ} {d : Deed κ} {later : List (Deed κ)} (hanswers : b.Answers d)
      (hlater : Lived (b.follow d) later b') : Lived b (d :: later) b'

def issuedIds (deeds : List (Deed κ)) : List SubscriptionId :=
  deeds.filterMap fun
    | .subscribed id _ => some id
    | _ => none

def removed (deeds : List (Deed κ)) : Nat :=
  deeds.countP fun
    | .unsubscribed _ found => found
    | _ => false

def Deed.dropped : Deed κ → Nat
  | .cleared dropped => dropped
  | _ => 0

def dropped (deeds : List (Deed κ)) : Nat :=
  deeds.foldl (fun total d => total + d.dropped) 0

/-- The deed does not take the subscriber with this number away. -/
def Deed.Spares (id : SubscriptionId) : Deed κ → Prop
  | .unsubscribed other _ => other ≠ id
  | .cleared _ => False
  | _ => True

/-- Someone subscribed, was given this number, and was not taken away since. -/
def Registered (deeds : List (Deed κ)) (id : SubscriptionId) (callback : κ) : Prop :=
  ∃ first later, deeds = first ++ .subscribed id callback :: later ∧ ∀ d ∈ later, d.Spares id

/-- What is so of a bus after these deeds. -/
structure Moment (deeds : List (Deed κ)) (b : Bus κ) : Prop where
  orderly : b.Orderly
  issued : issuedIds deeds = (List.range b.issued).map SubscriptionId.mk
  registered : ∀ id callback, (id, callback) ∈ b.subscribers ↔ Registered deeds id callback
  size : b.size + removed deeds + dropped deeds = (issuedIds deeds).length

namespace Lived

variable {b b' b'' : Bus κ} {first later deeds : List (Deed κ)} {d : Deed κ}

theorem trans (hfirst : Lived b first b') (hlater : Lived b' later b'') :
    Lived b (first ++ later) b'' := by
  induction hfirst with
  | refl b => exact hlater
  | deed hanswers _ ih => exact .deed hanswers (ih hlater)

theorem exists_between (h : Lived b (first ++ later) b'') :
    ∃ b', Lived b first b' ∧ Lived b' later b'' := by
  induction first generalizing b with
  | nil => exact ⟨b, .refl b, h⟩
  | cons d first ih =>
    cases h with
    | deed hanswers hlater =>
      obtain ⟨b', hfirst, hlater⟩ := ih hlater
      exact ⟨b', .deed hanswers hfirst, hlater⟩

end Lived

theorem registered_append {deeds : List (Deed κ)} {d : Deed κ} {id : SubscriptionId} {callback : κ} :
    Registered (deeds ++ [d]) id callback ↔
      d = .subscribed id callback ∨ Registered deeds id callback ∧ d.Spares id := by
  constructor
  · rintro ⟨first, later, hdeeds, hspares⟩
    rcases List.eq_nil_or_concat later with rfl | ⟨later, last, rfl⟩
    · obtain ⟨_, hlast⟩ := List.append_inj' hdeeds rfl
      exact .inl (List.cons.inj hlast).1
    · rw [List.concat_eq_append, ← List.cons_append, ← List.append_assoc] at hdeeds
      obtain ⟨hbefore, hlast⟩ := List.append_inj' hdeeds rfl
      obtain rfl : d = last := (List.cons.inj hlast).1
      have hd : d.Spares id := hspares d (by simp)
      exact .inr ⟨⟨first, later, hbefore, fun e he => hspares e (by simp [he])⟩, hd⟩
  · rintro (rfl | ⟨⟨first, later, rfl, hspares⟩, hd⟩)
    · exact ⟨deeds, [], rfl, fun e he => by cases he⟩
    · refine ⟨first, later ++ [d], by simp, fun e he => ?_⟩
      rcases List.mem_append.mp he with he | he
      · exact hspares e he
      · cases List.mem_singleton.mp he
        exact hd

theorem contains_iff {b : Bus κ} {id : SubscriptionId} :
    b.contains id = true ↔ ∃ callback, (id, callback) ∈ b.subscribers := by
  simp [contains, ids]

/-- The one subscriber with the number goes, and the rest stays in order. -/
theorem Orderly.unsubscribe_eq {b : Bus κ} {id : SubscriptionId} {callback : κ}
    {before after : List (SubscriptionId × κ)} (h : b.Orderly)
    (hsubscribers : b.subscribers = before ++ (id, callback) :: after) :
    (b.unsubscribe id).subscribers = before ++ after := by
  have hsorted := h.sorted
  rw [ids, hsubscribers, List.map_append, List.map_cons, List.pairwise_append,
    List.pairwise_cons] at hsorted
  obtain ⟨_, ⟨hafter, _⟩, hbefore⟩ := hsorted
  have hkeptBefore : before.filter (fun s => s.1 ≠ id) = before := by
    refine List.filter_eq_self.mpr fun s hs => decide_eq_true fun heq => ?_
    have hless := hbefore s.1 (List.mem_map_of_mem hs) id List.mem_cons_self
    rw [heq] at hless
    exact absurd hless (Nat.lt_irrefl _)
  have hkeptAfter : after.filter (fun s => s.1 ≠ id) = after := by
    refine List.filter_eq_self.mpr fun s hs => decide_eq_true fun heq => ?_
    have hless := hafter s.1 (List.mem_map_of_mem hs)
    rw [heq] at hless
    exact absurd hless (Nat.lt_irrefl _)
  rw [Bus.unsubscribe, hsubscribers, List.filter_append, List.filter_cons_of_neg (by simp), hkeptBefore,
    hkeptAfter]

theorem unsubscribe_of_not_contains {b : Bus κ} {id : SubscriptionId} (h : b.contains id = false) :
    b.unsubscribe id = b := by
  have hkept : b.subscribers.filter (fun s => s.1 ≠ id) = b.subscribers := by
    refine List.filter_eq_self.mpr fun s hs => decide_eq_true fun heq => ?_
    have hcontains : b.contains id = true := contains_iff.mpr ⟨s.2, by rwa [← heq]⟩
    rw [h] at hcontains
    cases hcontains
  rw [unsubscribe, hkept]

section Follow

variable {b : Bus κ} {deeds : List (Deed κ)} {d : Deed κ}

theorem Orderly.follow (h : b.Orderly) (d : Deed κ) : (b.follow d).Orderly := by
  cases d with
  | subscribed id callback => exact h.subscribe callback
  | unsubscribed id found => exact h.unsubscribe id
  | cleared dropped => exact h.clear
  | counted n => exact h

theorem issuedIds_follow (hissued : issuedIds deeds = (List.range b.issued).map SubscriptionId.mk)
    (hanswers : b.Answers d) :
    issuedIds (deeds ++ [d]) = (List.range (b.follow d).issued).map SubscriptionId.mk := by
  cases d with
  | subscribed id callback =>
    have hid : id = ⟨b.issued⟩ := hanswers
    have hids : issuedIds (deeds ++ [.subscribed id callback]) = issuedIds deeds ++ [id] := by
      simp [issuedIds]
    rw [hids, hissued, hid]
    simp [follow, subscribe, List.range_succ]
  | _ => simpa [issuedIds, follow, unsubscribe, clear] using hissued

theorem registered_follow
    (hregistered : ∀ id callback, (id, callback) ∈ b.subscribers ↔ Registered deeds id callback)
    (hanswers : b.Answers d) (id : SubscriptionId) (callback : κ) :
    (id, callback) ∈ (b.follow d).subscribers ↔ Registered (deeds ++ [d]) id callback := by
  rw [registered_append, ← hregistered]
  cases d with
  | subscribed other callback' =>
    have hother : other = b.nextId := hanswers
    simp only [follow, subscribe, List.mem_append, List.mem_singleton, Prod.mk.injEq, hother,
      Deed.subscribed.injEq, Deed.Spares, and_true]
    constructor
    · rintro (hold | ⟨rfl, rfl⟩)
      · exact .inr hold
      · exact .inl ⟨rfl, rfl⟩
    · rintro (⟨rfl, rfl⟩ | hold)
      · exact .inr ⟨rfl, rfl⟩
      · exact .inl hold
  | unsubscribed other found =>
    simp [follow, unsubscribe, Deed.Spares, ne_comm]
  | cleared dropped => simp [follow, clear, Deed.Spares]
  | counted n => simp [follow, Deed.Spares]

theorem size_unsubscribe (h : b.Orderly) (id : SubscriptionId) :
    (b.unsubscribe id).size + (if b.contains id then 1 else 0) = b.size := by
  cases hfound : b.contains id with
  | false => rw [unsubscribe_of_not_contains hfound, if_neg (by simp), Nat.add_zero]
  | true =>
    obtain ⟨callback, hmem⟩ := contains_iff.mp hfound
    obtain ⟨before, after, hsubscribers⟩ := List.append_of_mem hmem
    rw [size, size, h.unsubscribe_eq hsubscribers, hsubscribers]
    simp
    omega

theorem size_follow (horderly : b.Orderly)
    (hsize : b.size + removed deeds + dropped deeds = (issuedIds deeds).length)
    (hanswers : b.Answers d) : (b.follow d).size + removed (deeds ++ [d]) + dropped (deeds ++ [d]) =
      (issuedIds (deeds ++ [d])).length := by
  have hremoved : removed (deeds ++ [d]) = removed deeds + removed [d] := List.countP_append
  have hdropped : dropped (deeds ++ [d]) = dropped deeds + dropped [d] := by simp [dropped]
  have hissued : (issuedIds (deeds ++ [d])).length =
      (issuedIds deeds).length + (issuedIds [d]).length := by simp [issuedIds]
  have hstep : (b.follow d).size + removed [d] + dropped [d] =
      b.size + (issuedIds [d]).length := by
    cases d with
    | subscribed id callback =>
      simp [follow, subscribe, size, removed, dropped, Deed.dropped, issuedIds]
    | unsubscribed id found =>
      have hfound : found = b.contains id := hanswers
      have hless := size_unsubscribe horderly id
      rw [← hfound] at hless
      simp only [follow, removed, dropped, Deed.dropped, issuedIds]
      simpa using hless
    | cleared dropped =>
      have hall : dropped = b.size := hanswers
      simp [follow, clear, size, removed, Bus.dropped, Deed.dropped, issuedIds, hall]
    | counted n => simp [follow, removed, dropped, Deed.dropped, issuedIds]
  omega

theorem Moment.follow (h : Moment deeds b) (hanswers : b.Answers d) :
    Moment (deeds ++ [d]) (b.follow d) where
  orderly := h.orderly.follow d
  issued := issuedIds_follow h.issued hanswers
  registered := registered_follow h.registered hanswers
  size := size_follow h.orderly h.size hanswers

theorem Moment.nil : Moment [] ({} : Bus κ) where
  orderly := .empty
  issued := rfl
  registered id callback := by simp [Registered]
  size := rfl

end Follow

theorem Lived.moment {b b' : Bus κ} {first later : List (Deed κ)} (h : Lived b later b')
    (hfirst : Moment first b) : Moment (first ++ later) b' := by
  induction h generalizing first with
  | refl b =>
    rw [List.append_nil]
    exact hfirst
  | @deed b b' d later hanswers _ ih =>
    have hnext := ih (hfirst.follow hanswers)
    rwa [List.append_assoc] at hnext

namespace Moment

variable {b : Bus κ} {deeds : List (Deed κ)} {id : SubscriptionId}

theorem length_issuedIds (h : Moment deeds b) : (issuedIds deeds).length = b.issued := by
  rw [h.issued, List.length_map, List.length_range]

theorem mem_issuedIds (h : Moment deeds b) :
    id ∈ issuedIds deeds ↔ id.number < (issuedIds deeds).length := by
  rw [h.length_issuedIds, h.issued, List.mem_map]
  constructor
  · rintro ⟨n, hn, rfl⟩
    exact List.mem_range.mp hn
  · intro hless
    exact ⟨id.number, List.mem_range.mpr hless, rfl⟩

theorem lt_of_registered {callback : κ} (h : Moment deeds b) (hregistered : Registered deeds id callback) :
    id.number < (issuedIds deeds).length := by
  rw [h.length_issuedIds]
  have hmem := (h.registered id callback).mpr hregistered
  exact h.orderly.issued id (List.mem_map_of_mem hmem)

end Moment

/-- What removing by a number comes to, after these deeds. -/
structure Removal (deeds : List (Deed κ)) (b : Bus κ) (id : SubscriptionId) (found : Bool) :
    Prop where
  found_iff : found = true ↔ ∃ callback, Registered deeds id callback
  removed : found = true → ∃ before callback after,
    b.subscribers = before ++ (id, callback) :: after ∧ Registered deeds id callback ∧
      b.unsubscribe id = ⟨before ++ after, b.issued⟩
  kept : found = false → b.unsubscribe id = b

theorem Moment.removal {b : Bus κ} {deeds : List (Deed κ)} {id : SubscriptionId} {found : Bool}
    (h : Moment deeds b) (hfound : found = b.contains id) : Removal deeds b id found where
  found_iff := by
    rw [hfound, contains_iff]
    simp only [h.registered]
  removed hremoved := by
    rw [hfound, contains_iff] at hremoved
    obtain ⟨callback, hmem⟩ := hremoved
    obtain ⟨before, after, hsubscribers⟩ := List.append_of_mem hmem
    have hrest := h.orderly.unsubscribe_eq hsubscribers
    refine ⟨before, callback, after, hsubscribers, (h.registered id callback).mp hmem, ?_⟩
    rw [← hrest]
    rfl
  kept hkept := unsubscribe_of_not_contains (hfound.symm.trans hkept)

theorem Removal.eq_false_of_le {b : Bus κ} {deeds : List (Deed κ)} {id : SubscriptionId} {found : Bool}
    (h : Removal deeds b id found) (hmoment : Moment deeds b)
    (hyet : (issuedIds deeds).length ≤ id.number) : found = false := by
  cases found with
  | false => rfl
  | true =>
    obtain ⟨callback, hregistered⟩ := h.found_iff.mp rfl
    have hless := hmoment.lt_of_registered hregistered
    omega

/-- The life of a new bus through all these deeds: how it is at each moment, and what each removal and
each count comes to. -/
structure Chronicle (deeds : List (Deed κ)) (b : Bus κ) : Prop where
  moments : ∀ first later, deeds = first ++ later →
    ∃ b', Lived {} first b' ∧ Moment first b' ∧ Lived b' later b
  once : (issuedIds deeds).Nodup
  removals : ∀ first id found later, deeds = first ++ .unsubscribed id found :: later →
    ∃ b', Lived {} first b' ∧ Removal first b' id found ∧ Lived (b'.unsubscribe id) later b
  counts : ∀ first n later, deeds = first ++ .counted n :: later →
    n + removed first + dropped first = (issuedIds first).length

theorem Lived.chronicle {b : Bus κ} {deeds : List (Deed κ)} (h : Lived {} deeds b) :
    Chronicle deeds b := by
  have hmoments (first later : List (Deed κ)) (hdeeds : deeds = first ++ later) :
      ∃ b', Lived {} first b' ∧ Moment first b' ∧ Lived b' later b := by
    subst hdeeds
    obtain ⟨b', hfirst, hlater⟩ := h.exists_between
    exact ⟨b', hfirst, hfirst.moment .nil, hlater⟩
  refine ⟨hmoments, ?_, ?_, ?_⟩
  · have hmoment : Moment deeds b := h.moment .nil
    rw [hmoment.issued]
    refine List.Pairwise.map SubscriptionId.mk (fun i j hne heq => ?_) List.nodup_range
    exact hne (SubscriptionId.mk.inj heq)
  · intro first id found later hdeeds
    obtain ⟨b', hfirst, hmoment, hlater⟩ := hmoments first _ hdeeds
    cases hlater with
    | deed hanswers hlater => exact ⟨b', hfirst, hmoment.removal hanswers, hlater⟩
  · intro first n later hdeeds
    obtain ⟨b', _, hmoment, hlater⟩ := hmoments first _ hdeeds
    cases hlater with
    | deed hanswers _ =>
      have hn : n = b'.size := hanswers
      rw [hn]
      exact hmoment.size

end Bus

end Trajectory
