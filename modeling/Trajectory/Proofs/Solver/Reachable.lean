import Trajectory.Proofs.Solver.Frame

namespace Trajectory

namespace Session

variable {α μ : Type}

section Worlds

variable [Scalar α] [Numeral α]

/-- The worlds in which requests are answered while no run is in progress, whether they come from
outside or from subscribers. Those are called in the midst of settings and of cancellations too. -/
inductive Reachable : World (protocol α μ) → Prop
  | new (files : FileTree) (memory : μ) (logging : Logging) :
      Reachable (newWorld files memory logging)
  | answered {w : World (protocol α μ)} (h : Reachable w) (fuel calls depth : Nat) (q : Request α μ) :
      Reachable ((answer α μ fuel (Delivery.deliver (answer α μ) calls depth) q).after w)
  | subscribed {w : World (protocol α μ)} (h : Reachable w) (c : Solver.Channel)
      (callback : Callback (protocol α μ) c) :
      Reachable (w.setBus c ((w.hub c).subscribe callback))
  | recorded {w : World (protocol α μ)} (h : Reachable w) (o : Occurrence (protocol α μ)) :
      Reachable (w.record o)
  | logged {w : World (protocol α μ)} (h : Reachable w) (line : LogLine) : Reachable (w.addLog line)
  | changed {w : World (protocol α μ)} {f : Solver α → Except (SolverError α) (Change α)}
      {c : Change α} (h : Reachable w) (hf : Setting f) (hchange : f w.state.solver = .ok c) :
      Reachable (withSolver w c.solver)
  | canceling {w : World (protocol α μ)} (h : Reachable w) :
      Reachable (withSolver w { w.state.solver with cancelRequested := true })

end Worlds

/-- The second solver differs from the first one at most in what runs and logs note. -/
def Noted (s t : Solver α) : Prop :=
  t = { s with
    status := t.status
    result := t.result
    running := t.running
    cancelRequested := t.cancelRequested
    logSettings := t.logSettings }

/-- The solver has the settings of one that a session can reach: these are all that a run, and what
subscribers request in the midst of it, leave as they were. -/
def Configured [Scalar α] [Numeral α] (w : World (protocol α μ)) : Prop :=
  ∃ u : World (protocol α μ), Reachable u ∧ Noted u.state.solver w.state.solver

theorem Reachable.configured [Scalar α] [Numeral α] {w : World (protocol α μ)} (h : Reachable w) :
    Configured w := ⟨w, h, rfl⟩

/-- A frame whose relations hold whatever requests do besides publishing, so that they hold between
the worlds before and after every request if they do for what it publishes. -/
structure Pervasive [Scalar α] (R : Nat → World (protocol α μ) → World (protocol α μ) → Prop) : Prop
    extends Frame R where
  noted : ∀ d v w, Noted v.state.solver w.state.solver → w.history = v.history → R d v w
  changed : ∀ d w f c, Setting f → f w.state.solver = .ok c → R d w (withSolver w c.solver)
  published : ∀ d w c e, R d w (w.record (.published d c e))

namespace Pervasive

open Delivery.Frame (Publishes)

variable [Scalar α] {R : Nat → World (protocol α μ) → World (protocol α μ) → Prop}
  {publish : Publish α μ} {d : Nat}

theorem keeps_of_noted (hR : Pervasive R) {β : Type} {act : Action α μ β}
    (h : ∀ w, Noted w.state.solver (act.after w).state.solver ∧ (act.after w).history = w.history) :
    act.Keeps (R d) := fun w => hR.noted d w _ (h w).1 (h w).2

theorem publish_keeps (hR : Pervasive R) (hpublish : Publishes R d publish) (c : Solver.Channel)
    (e : Solver.Payload α c) : (publish c e).Keeps (R d) := fun w =>
  hR.trans d _ _ _ (hR.published d w c e) (hR.mono d _ _ (hpublish c e w))

theorem setting_keeps (hR : Pervasive R) (hpublish : Publishes R d publish)
    {f : Solver α → Except (SolverError α) (Change α)} (hf : Setting f) :
    (change publish f).Keeps (R d) := by
  intro w
  cases hchange : f w.state.solver with
  | error e =>
    rw [Act.after_of_ok (change_of_error hchange)]
    exact hR.refl d w
  | ok c =>
    have hrest := hR.bind (hR.publish_keeps hpublish c.event.channel c.event.payload) fun _ =>
      hR.pure (.ok () : Result α Unit)
    unfold Act.after
    rw [change_of_ok hchange]
    exact hR.trans d _ _ _ (hR.changed d w f c hf hchange) (hrest (withSolver w c.solver))

theorem cancel_keeps (hR : Pervasive R) (hpublish : Publishes R d publish) :
    (cancel publish).Keeps (R d) := by
  refine hR.bind (hR.keeps_of_noted fun w => ⟨rfl, rfl⟩) fun _ => ?_
  refine hR.bind (hR.keeps_of_noted fun w => ⟨rfl, rfl⟩) fun _ => ?_
  exact hR.bind (hR.publish_keeps hpublish _ _) fun _ => hR.pure ()

section Run

variable [Numeral α] {fuel : Nat}

theorem stepThrough_keeps (hR : Pervasive R) (hpublish : Publishes R d publish) (tries steps : Nat)
    (c : Controller α) (points : List (Point α)) :
    (stepThrough publish tries steps c points).Keeps (R d) := by
  induction steps generalizing c points with
  | zero => exact hR.throw _
  | succ steps ih =>
    refine hR.bind (hR.keeps_of_noted fun w => ⟨rfl, rfl⟩) fun s => ?_
    split
    · exact hR.pure _
    · refine hR.bind (hR.keeps_of_noted fun w => ⟨rfl, rfl⟩) fun _ => ?_
      cases (c.advance tries).outcome with
      | exhausted => exact hR.throw _
      | failure f =>
        cases f with
        | breach b => exact hR.throw _
        | cause e => exact hR.pure _
      | step step =>
        refine hR.bind (hR.promised _) fun point => ?_
        exact hR.bind (hR.publish_keeps hpublish _ _) fun _ => ih _ _

theorem conclude_keeps (hR : Pervasive R) (hpublish : Publishes R d publish) (stop : Stop α) :
    (conclude publish stop).Keeps (R d) := by
  unfold conclude
  cases stop.error? with
  | some e =>
    refine hR.bind (hR.keeps_of_noted fun w => ⟨rfl, rfl⟩) fun _ => ?_
    exact hR.bind (hR.keeps_of_noted fun w => ⟨rfl, rfl⟩) fun _ => hR.pure _
  | none =>
    refine hR.bind (hR.keeps_of_noted fun w => ⟨rfl, rfl⟩) fun _ => ?_
    refine hR.bind (hR.keeps_of_noted fun w => ⟨rfl, rfl⟩) fun s => ?_
    dsimp only
    split
    · refine hR.bind (hR.keeps_of_noted fun w => ⟨rfl, rfl⟩) fun _ => ?_
      refine hR.bind (hR.keeps_of_noted fun w => ⟨rfl, rfl⟩) fun _ => ?_
      exact hR.bind (hR.publish_keeps hpublish _ _) fun _ => hR.pure _
    · refine hR.bind (hR.keeps_of_noted fun w => ⟨rfl, rfl⟩) fun _ => ?_
      exact hR.bind (hR.publish_keeps hpublish _ _) fun _ => hR.pure _

theorem runSetup_keeps (hR : Pervasive R) (hpublish : Publishes R d publish) (setup : Setup α)
    (adaptive : Bool) : (runSetup publish fuel setup adaptive).Keeps (R d) := by
  refine hR.bind (hR.keeps_of_noted fun w => ⟨rfl, rfl⟩) fun _ => ?_
  refine hR.bind (hR.keep _) fun started => ?_
  cases started with
  | error e => exact hR.bind (hR.keeps_of_noted fun w => ⟨rfl, rfl⟩) fun _ => hR.pure _
  | ok c =>
    refine hR.bind (hR.promised _) fun point => ?_
    refine hR.bind (hR.keeps_of_noted fun w => ⟨rfl, rfl⟩) fun _ => ?_
    refine hR.bind (hR.publish_keeps hpublish _ _) fun _ => ?_
    refine hR.bind (hR.stepThrough_keeps hpublish fuel fuel c [point]) fun stop => ?_
    exact hR.conclude_keeps hpublish stop

omit [Numeral α] in
theorem releasing_keeps (hR : Pervasive R) {β : Type} {act : Action α μ β} (hact : act.Keeps (R d)) :
    (releasing act).Keeps (R d) := by
  intro w
  have hreleased : R d w (withSolver (act.after w)
      { (act.after w).state.solver with running := false }) :=
    hR.trans d _ _ _ (hact w) (hR.noted d (act.after w) _ rfl rfl)
  unfold Act.after at hreleased ⊢
  unfold releasing
  cases h : act w with
  | ok b v => simpa [h, withSolver] using hreleased
  | error halt v => simpa [h, withSolver] using hreleased

theorem run_keeps (hR : Pervasive R) (hpublish : Publishes R d publish) (adaptive : Bool) :
    (run publish fuel adaptive).Keeps (R d) := by
  refine hR.bind (hR.keeps_of_noted fun w => ⟨rfl, rfl⟩) fun s => ?_
  split
  · exact hR.pure _
  · refine hR.bind (hR.keeps_of_noted fun w => ⟨rfl, rfl⟩) fun _ => hR.releasing_keeps ?_
    split
    · exact hR.pure _
    · exact hR.runSetup_keeps hpublish _ adaptive

theorem answer_keeps (hR : Pervasive R) (hpublish : Publishes R d publish) (q : Request α μ) :
    (answer α μ fuel publish q).Keeps (R d) :=
  hR.answer (fun _ hf => hR.setting_keeps hpublish hf) (hR.run_keeps hpublish)
    (hR.cancel_keeps hpublish) q

theorem deliver_keeps (hR : Pervasive R) (calls depth : Nat) :
    Publishes R depth (Delivery.deliver (answer α μ) calls depth) :=
  hR.delivery.deliver (fun _ _ _ hpublish q => hR.answer_keeps hpublish q) calls depth

end Run

end Pervasive

/-- A property of solvers that only settings could change, and do not. -/
structure Lasting [Scalar α] (I : Solver α → Prop) : Prop where
  fresh : I Solver.fresh
  setting : ∀ f s c, Setting f → I s → f s = .ok c → I c.solver
  noted : ∀ s t, Noted s t → I s → I t

namespace Lasting

variable [Scalar α] {I : Solver α → Prop}

theorem range {P : Range α → Prop} (hstandard : P .standard)
    (hmake : ∀ {arg : String} {start finish firstStep : α} {r : Range α},
      Range.make arg start finish firstStep = .ok r → P r) :
    Lasting fun s : Solver α => P s.range where
  fresh := hstandard
  setting f s c hf hs h := by
    obtain ⟨_, hchanged⟩ := hf.changed h
    cases hchanged with
    | equations => exact hs
    | conditions => exact hs
    | range hrange => exact hmake hrange
    | tolerance => exact hs
    | stepControl => exact hs
  noted s t h hs := by
    rw [h]
    exact hs

/-- The property still holds if it did. -/
def Stays (I : Solver α → Prop) (_ : Nat) (w v : World (protocol α μ)) : Prop :=
  I w.state.solver → I v.state.solver

theorem pervasive (hI : Lasting I) : Pervasive (Stays (μ := μ) I) where
  trans _ _ _ _ huv hvw hu := hvw (huv hu)
  mono _ _ _ h := h
  called _ _ _ _ _ h := h
  returned _ _ _ _ _ _ h := h
  aside d v w h hv := by
    refine hI.noted v.state.solver w.state.solver ?_ hv
    unfold Noted
    rw [h.solver]
  noted _ _ _ h _ hv := hI.noted _ _ h hv
  changed _ _ _ _ hf hchange hv := hI.setting _ _ _ hf hv hchange
  published _ _ _ _ h := h

theorem of_reachable [Numeral α] (hI : Lasting I) {w : World (protocol α μ)} (h : Reachable w) :
    I w.state.solver := by
  induction h with
  | new files memory logging => exact hI.fresh
  | @answered w _ fuel calls depth q ih =>
    exact hI.pervasive.answer_keeps (hI.pervasive.deliver_keeps calls depth) q w ih
  | subscribed _ c callback ih => exact ih
  | recorded _ o ih => exact ih
  | logged _ line ih => exact ih
  | changed _ hf hchange ih => exact hI.setting _ _ _ hf ih hchange
  | canceling _ ih => exact hI.noted _ _ rfl ih

theorem of_configured [Numeral α] (hI : Lasting I) {w : World (protocol α μ)} (h : Configured w) :
    I w.state.solver := by
  obtain ⟨u, hu, hnoted⟩ := h
  exact hI.noted _ _ hnoted (hI.of_reachable hu)

end Lasting

end Session

end Trajectory
