import Trajectory.Proofs.Solver.Requests

namespace Trajectory

namespace Session

variable {α μ : Type}

/-- A family of relations, one for each depth, that looks at no more than the solver and the events
that were published. -/
structure Frame (R : Nat → World (protocol α μ) → World (protocol α μ) → Prop) : Prop where
  trans : ∀ d u v w, R d u v → R d v w → R d u w
  mono : ∀ d v w, R (d + 1) v w → R d v w
  called : ∀ d w k c id, R d w (w.record (.called k c id))
  returned : ∀ d w k c id reason?, R d w (w.record (.returned k c id reason?))
  aside : ∀ d v w, Aside v w → R d v w

namespace Frame

variable {R : Nat → World (protocol α μ) → World (protocol α μ) → Prop} {d : Nat}
  {publish : Publish α μ} {fuel : Nat} {β : Type}

theorem refl (hR : Frame R) (d : Nat) (w : World (protocol α μ)) : R d w w :=
  hR.aside d w w ⟨rfl, rfl⟩

theorem delivery (hR : Frame R) : Delivery.Frame R where
  refl := hR.refl
  trans := hR.trans
  called := hR.called
  returned := hR.returned
  logged d w _ := hR.aside d w _ ⟨rfl, rfl⟩
  subscribed d w _ _ := hR.aside d w _ ⟨rfl, rfl⟩

theorem keeps_of_aside (hR : Frame R) {act : Action α μ β} (h : ∀ w, Aside w (act.after w)) :
    act.Keeps (R d) := fun w => hR.aside d w _ (h w)

theorem bind (hR : Frame R) {γ : Type} {act : Action α μ β} {f : β → Action α μ γ}
    (hact : act.Keeps (R d)) (hf : ∀ b, (f b).Keeps (R d)) : (act >>= f).Keeps (R d) :=
  .bind (hR.trans d) hact hf

theorem pure (hR : Frame R) (b : β) : (Pure.pure b : Action α μ β).Keeps (R d) := .pure (hR.refl d) b

theorem throw (hR : Frame R) (halt : Halt) : (throw halt : Action α μ β).Keeps (R d) :=
  .throw (hR.refl d) halt

theorem keep {ε : Type} (hR : Frame R) (c : Checked ε β) :
    (Act.keep c : Action α μ (Except ε β)).Keeps (R d) := by
  cases c with
  | ok b => exact hR.pure _
  | error f =>
    cases f with
    | breach b => exact hR.throw _
    | cause e => exact hR.pure _

theorem promised (hR : Frame R) (c : Checked Empty β) :
    (Act.promised c : Action α μ β).Keeps (R d) := by
  cases c with
  | ok b => exact hR.pure b
  | error f =>
    cases f with
    | breach b => exact hR.throw _
    | cause e => cases e

theorem composed (hR : Frame R) (d : Nat) :
    Composed fun _ (act _ : Action α μ _) => act.Keeps (R d) where
  bind hact hf := hR.bind hact hf
  quiet h := hR.keeps_of_aside h.aside

theorem inOrder (hR : Frame R) {acts : List (Action α μ (Result α Unit))}
    (hacts : ∀ act ∈ acts, act.Keeps (R d)) : (Task.inOrder acts).Keeps (R d) :=
  (hR.composed d).inOrder (List.forall₂_same.mpr hacts)

theorem answer [Scalar α] [Numeral α] (hR : Frame R)
    (hsetting : ∀ f : Solver α → Except (SolverError α) (Change α), Setting f →
      (change publish f).Keeps (R d))
    (hrun : ∀ adaptive, (run publish fuel adaptive).Keeps (R d))
    (hcancel : (cancel publish).Keeps (R d)) (q : Request α μ) :
    (answer α μ fuel publish q).Keeps (R d) :=
  (hR.composed d).answer publish publish hsetting hrun hcancel q

end Frame

end Session

end Trajectory
