import Mathlib.Data.List.Nodup
import Mathlib.Logic.Function.Conjugate
import Trajectory.Outcome

namespace Trajectory

variable {ε β δ : Type} {step : β → String → δ → Except ε β} {Change : String → (β → β) → Prop}

/-- Where an entry is read, it makes one of the changes that belong to its key, and it would make the
same one whatever was read before. -/
def Changes (step : β → String → δ → Except ε β) (Change : String → (β → β) → Prop) : Prop :=
  ∀ ⦃b c : β⦄ ⦃key : String⦄ ⦃item : δ⦄, step b key item = .ok c →
    ∃ g, Change key g ∧ ∀ b', step b' key item = .ok (g b')

/-- What is made of changes, one after the other. -/
inductive Composite (P : (β → β) → Prop) : (β → β) → Prop where
  | none : Composite P id
  | next {f g : β → β} (first : P f) (rest : Composite P g) : Composite P (g ∘ f)

theorem Composite.one {P : (β → β) → Prop} {f : β → β} (h : P f) : Composite P f :=
  show Composite P (id ∘ f) from .next h .none

theorem Composite.keeps {P : (β → β) → Prop} {f : β → β} (hf : Composite P f) {K : β → Prop}
    (h : ∀ p b, P p → K b → K (p b)) {b : β} (hb : K b) : K (f b) := by
  induction hf generalizing b with
  | none => exact hb
  | next hp _ ih => exact ih (h _ _ hp hb)

theorem Composite.commute {P Q : (β → β) → Prop} {f g : β → β} (hf : Composite P f)
    (hg : Composite Q g) (h : ∀ p q, P p → Q q → Function.Commute p q) : Function.Commute f g := by
  have hone {p : β → β} (hp : P p) : Function.Commute p g := by
    induction hg with
    | none => exact Function.Semiconj.id_right
    | next hq _ ih => exact ih.comp_right (h _ _ hp hq)
  induction hf with
  | none => exact Function.Semiconj.id_left
  | next hp _ ih => exact ih.comp_left (hone hp)

theorem Composite.mono {P Q : (β → β) → Prop} {f : β → β} (hf : Composite P f)
    (h : ∀ p, P p → Q p) : Composite Q f := by
  induction hf with
  | none => exact .none
  | next hp _ ih => exact .next (h _ hp) ih

namespace Changes

theorem foldlM_composite (hstep : Changes step Change) {l : List (String × δ)} {b c : β}
    (h : l.foldlM (fun b entry => step b entry.1 entry.2) b = .ok c) :
    ∃ g, Composite (fun f => ∃ key, Change key f) g ∧
      ∀ b', l.foldlM (fun b entry => step b entry.1 entry.2) b' = .ok (g b') := by
  induction l generalizing b with
  | nil => exact ⟨id, .none, fun _ => rfl⟩
  | cons entry l ih =>
    obtain ⟨b₁, hentry, hrest⟩ := bind_eq_ok.mp h
    obtain ⟨f, hf, hfirst⟩ := hstep hentry
    obtain ⟨g, hg, hlater⟩ := ih hrest
    exact ⟨g ∘ f, .next ⟨_, hf⟩ hg, fun b' => bind_eq_ok.mpr ⟨f b', hfirst b', hlater (f b')⟩⟩

theorem foldlM_keeps (hstep : Changes step Change) {K : β → Prop}
    (hkeeps : ∀ key f b, Change key f → K b → K (f b)) {l : List (String × δ)} {b c : β}
    (h : l.foldlM (fun b entry => step b entry.1 entry.2) b = .ok c) (hb : K b) : K c := by
  obtain ⟨g, hg, hall⟩ := hstep.foldlM_composite h
  obtain rfl : c = g b := Except.ok.inj (h.symm.trans (hall b))
  refine hg.keeps (fun f b hf => ?_) hb
  obtain ⟨key, hf⟩ := hf
  exact hkeeps key f b hf

/-- What changes for other keys leave alone is kept where the key does not stand. -/
theorem foldlM_apart (hstep : Changes step Change) {K : β → Prop} {key : String}
    (hkept : ∀ other f b, other ≠ key → Change other f → K b → K (f b)) {l : List (String × δ)} {b c : β}
    (hnone : key ∉ l.map Prod.fst) (h : l.foldlM (fun b entry => step b entry.1 entry.2) b = .ok c)
    (hb : K b) : K c := by
  induction l generalizing b with
  | nil =>
    cases h
    exact hb
  | cons entry l ih =>
    obtain ⟨b₁, hentry, hrest⟩ := bind_eq_ok.mp h
    rw [List.map_cons, List.mem_cons, not_or] at hnone
    obtain ⟨f, hf, hall⟩ := hstep hentry
    obtain rfl : b₁ = f b := Except.ok.inj (hentry.symm.trans (hall b))
    exact ih hnone.2 hrest (hkept entry.1 f b (Ne.symm hnone.1) hf hb)

/-- What the entry for a key brings about lasts, since no other key touches it. -/
theorem foldlM_of_mem (hstep : Changes step Change) {K : β → Prop} {key : String} {item : δ}
    (hset : ∀ b c, step b key item = .ok c → K c)
    (hkept : ∀ other f b, other ≠ key → Change other f → K b → K (f b)) {l : List (String × δ)} {b c : β}
    (hkeys : (l.map Prod.fst).Nodup) (hmem : (key, item) ∈ l)
    (h : l.foldlM (fun b entry => step b entry.1 entry.2) b = .ok c) : K c := by
  obtain ⟨before, after, rfl⟩ := List.append_of_mem hmem
  rw [List.foldlM_append] at h
  obtain ⟨b₁, _, h⟩ := bind_eq_ok.mp h
  obtain ⟨b₂, hentry, hrest⟩ := bind_eq_ok.mp h
  have hnone : key ∉ after.map Prod.fst := by
    rw [List.map_append, List.map_cons] at hkeys
    exact (List.nodup_cons.mp hkeys.of_append_right).1
  exact hstep.foldlM_apart hkept hnone hrest (hset b₁ b₂ hentry)

/-- The entries may be read in any order if changes for different keys can trade places. -/
theorem foldlM_perm (hstep : Changes step Change)
    (hapart : ∀ key key' f g, key ≠ key' → Change key f → Change key' g → Function.Commute f g)
    {l l' : List (String × δ)} (h : l.Perm l') (hkeys : (l.map Prod.fst).Nodup) {b c : β}
    (hread : l.foldlM (fun b entry => step b entry.1 entry.2) b = .ok c) :
    l'.foldlM (fun b entry => step b entry.1 entry.2) b = .ok c := by
  induction h generalizing b with
  | nil => exact hread
  | cons entry _ ih =>
    obtain ⟨b₁, hentry, hrest⟩ := bind_eq_ok.mp hread
    exact bind_eq_ok.mpr ⟨b₁, hentry, ih (List.nodup_cons.mp hkeys).2 hrest⟩
  | swap first second l =>
    obtain ⟨b₁, hsecond, hread⟩ := bind_eq_ok.mp hread
    obtain ⟨b₂, hfirst, hrest⟩ := bind_eq_ok.mp hread
    obtain ⟨g, hg, hsecond'⟩ := hstep hsecond
    obtain ⟨f, hf, hfirst'⟩ := hstep hfirst
    have hne : first.1 ≠ second.1 := by
      have hnew := (List.nodup_cons.mp hkeys).1
      rw [List.map_cons, List.mem_cons] at hnew
      exact fun heq => hnew (.inl heq.symm)
    obtain rfl : b₁ = g b := Except.ok.inj (hsecond.symm.trans (hsecond' b))
    have hb₂ : b₂ = g (f b) := calc
      b₂ = f (g b) := Except.ok.inj (hfirst.symm.trans (hfirst' (g b)))
      _ = g (f b) := hapart _ _ f g hne hf hg b
    refine bind_eq_ok.mpr ⟨f b, hfirst' b, bind_eq_ok.mpr ⟨g (f b), hsecond' (f b), ?_⟩⟩
    rwa [hb₂] at hrest
  | trans h _ ih ih' =>
    have hkeys' := (h.map Prod.fst).nodup_iff.mp hkeys
    exact ih' hkeys' (ih hkeys hread)

end Changes

end Trajectory
