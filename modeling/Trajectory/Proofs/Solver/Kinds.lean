import Trajectory.Proofs.Event.Agreement
import Trajectory.Proofs.Solver.Frame

namespace Trajectory

namespace Session

open Act (Agree)
open Delivery (Closed)

variable {α μ : Type}

/-- A kind of worlds that does not depend on logs, files, memories, subscribers and the history. -/
structure Kind (P : World (protocol α μ) → Prop) : Prop where
  recorded : ∀ w o, P w → P (w.record o)
  aside : ∀ v w, Aside v w → P v → P w

namespace Kind

variable {P : World (protocol α μ) → Prop} {publish publish' : Publish α μ}

theorem closed (hP : Kind P) : Closed P where
  recorded := hP.recorded
  logged w _ hw := hP.aside w _ ⟨rfl, rfl⟩ hw
  subscribed w _ _ hw := hP.aside w _ ⟨rfl, rfl⟩ hw

theorem frame (hP : Kind P) : Frame fun _ v w => P v → P w where
  trans _ _ _ _ huv hvw hu := hvw (huv hu)
  mono _ _ _ h := h
  called _ w _ _ _ := hP.recorded w _
  returned _ w _ _ _ _ := hP.recorded w _
  aside _ := hP.aside

theorem agree_of_aside (hP : Kind P) {β : Type} {act : Action α μ β}
    (h : ∀ w, Aside w (act.after w)) : Agree P act act := .refl fun w => hP.aside w _ (h w)

theorem cancel_agrees (hP : Kind P)
    (hrequest : ∀ w, P w → P (withSolver w { w.state.solver with cancelRequested := true }))
    (htell : Agree P (publish .canceled ()) (publish' .canceled ())) :
    Agree P (cancel publish) (cancel publish') := by
  have hmodify : Agree P (modifySolver fun s : Solver α =>
      { s with cancelRequested := true } : Action α μ Unit) _ := .refl hrequest
  refine .bind hmodify fun _ => ?_
  refine .bind (hP.agree_of_aside fun w => ⟨rfl, rfl⟩) fun _ => ?_
  exact .bind htell fun _ => .pure ()

theorem composed (hP : Kind P) : Composed fun _ (act act' : Action α μ _) => Agree P act act' where
  bind hact hf := .bind hact hf
  quiet h := hP.agree_of_aside h.aside

theorem answer_agrees [Scalar α] [Numeral α] {fuel : Nat} (hP : Kind P)
    (hsetting : ∀ f : Solver α → Except (SolverError α) (Change α), Setting f →
      Agree P (change publish f) (change publish' f))
    (hrun : ∀ adaptive, Agree P (run publish fuel adaptive) (run publish' fuel adaptive))
    (hcancel : Agree P (cancel publish) (cancel publish')) (q : Request α μ) :
    Agree P (answer α μ fuel publish q) (answer α μ fuel publish' q) :=
  hP.composed.answer publish publish' hsetting hrun hcancel q

end Kind

end Session

end Trajectory
