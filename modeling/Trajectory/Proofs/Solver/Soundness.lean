import Trajectory.Proofs.Number.Fraction
import Trajectory.Proofs.Settings.Standard
import Trajectory.Proofs.Solver.Along

namespace Trajectory

variable {α μ : Type} [Scalar α]

namespace Solver

structure Sound (s : Solver α) : Prop where
  tolerance : s.tolerance.validate = .ok ()
  range : s.range.Valid
  conditions : ∀ entry ∈ s.conditions.entries, entry.1 ∈ s.names ∧ Scalar.isFinite entry.2 = true
  ended : s.result ≠ [] → s.status = .finished ∨ s.status = .canceled
  shown : s.result ≠ [] → s.Shown

theorem sound_fresh [Scalar.Usual α] : (fresh : Solver α).Sound where
  tolerance := Scalar.Usual.tolerance
  range := Scalar.Usual.range
  conditions entry hentry := by cases hentry
  ended h := absurd rfl h
  shown h := absurd rfl h

theorem forall_of_checkConditions {names : List String} {entries : List (String × α)}
    (h : checkConditions names entries = .ok ()) :
    ∀ entry ∈ entries, entry.1 ∈ names ∧ Scalar.isFinite entry.2 = true := by
  induction entries with
  | nil => exact fun entry hentry => by cases hentry
  | cons first entries ih =>
    obtain ⟨name, value⟩ := first
    rw [checkConditions] at h
    split at h
    next => cases h
    next hname =>
      dsimp only at h
      split at h
      next => cases h
      next hfinite =>
        intro entry hentry
        rcases List.mem_cons.mp hentry with rfl | hentry
        · exact ⟨by simpa using hname, by simpa using hfinite⟩
        · exact ih h entry hentry

namespace Sound

open Session (Setting Along Held)

variable {s t : Solver α}

theorem result_eq_nil (h : s.Sound) (hstatus : s.status = .idle ∨ s.status = .failed) :
    s.result = [] := by
  by_contra hresult
  rcases h.ended hresult with hended | hended <;> rw [hended] at hstatus <;> simp at hstatus

theorem setting {f : Solver α → Except (SolverError α) (Change α)} {c : Change α} (h : s.Sound)
    (hf : Setting f) (hchange : f s = .ok c) : c.solver.Sound := by
  obtain ⟨_, hchanged⟩ := hf.changed hchange
  cases hchanged with
  | equations _ =>
    exact ⟨h.tolerance, h.range, (fun _ hentry => by cases hentry), (absurd rfl ·), (absurd rfl ·)⟩
  | conditions hcheck =>
    exact ⟨h.tolerance, h.range, forall_of_checkConditions hcheck, h.ended, h.shown⟩
  | range hmake =>
    exact ⟨h.tolerance, Range.valid_of_make hmake, h.conditions, h.ended, h.shown⟩
  | tolerance habsolute hrelative =>
    exact ⟨Tolerance.validate_of_positive h.tolerance habsolute hrelative, h.range, h.conditions,
      h.ended, h.shown⟩
  | stepControl hvalid => exact ⟨hvalid, h.range, h.conditions, h.ended, h.shown⟩

theorem along (h : s.Sound) (halong : Along s t) : t.Sound := by
  have hnoted := halong.noted
  have hsettings : t.tolerance.validate = .ok () ∧ t.range.Valid ∧
      ∀ entry ∈ t.conditions.entries, entry.1 ∈ t.names ∧ Scalar.isFinite entry.2 = true := by
    rw [hnoted]
    exact ⟨h.tolerance, h.range, h.conditions⟩
  obtain ⟨htolerance, hrange, hconditions⟩ := hsettings
  rcases halong.result with ⟨hstatus, hresult⟩ | hresult | ⟨hstatus, hshown⟩
  · refine ⟨htolerance, hrange, hconditions, fun hsome => ?_, fun hsome => ?_⟩
    · rw [hstatus]
      exact h.ended (hresult ▸ hsome)
    · obtain ⟨system, arg, hsystem, hshows⟩ := h.shown (hresult ▸ hsome)
      refine ⟨system, arg, ?_, by rwa [hresult]⟩
      rw [hnoted]
      exact hsystem
  · exact ⟨htolerance, hrange, hconditions, (absurd hresult ·), (absurd hresult ·)⟩
  · exact ⟨htolerance, hrange, hconditions, fun _ => hstatus, fun _ => hshown⟩

end Sound

end Solver

namespace Session

open Act (Agree)
open Delivery (deliver)
open Delivery.Frame (Publishes)

def Sound (w : World (protocol α μ)) : Prop := w.state.solver.Sound

theorem sound_kind : Kind (Sound (α := α) (μ := μ)) where
  recorded _ _ h := h
  aside v w h hv := by
    have halong : Along v.state.solver w.state.solver := by
      rw [h.solver]
      exact ⟨rfl, .inl ⟨rfl, rfl⟩⟩
    exact Solver.Sound.along hv halong

variable {publish publish' : Publish α μ} {d : Nat}

theorem change_agrees_of_sound (h : ∀ c e, Agree Sound (publish c e) (publish' c e))
    {f : Solver α → Except (SolverError α) (Change α)} (hf : Setting f) :
    Agree Sound (change publish f) (change publish' f) := by
  intro w hw
  cases hchange : f w.state.solver with
  | error e => exact .of_ok (change_of_error hchange) (change_of_error hchange) hw
  | ok c =>
    have hchanged : Sound (withSolver w c.solver) := Solver.Sound.setting hw hf hchange
    have hrest := (h c.event.channel c.event.payload).bind fun _ =>
      .pure (.ok () : Result α Unit)
    exact (hrest _ hchanged).of_eq (change_of_ok hchange) (change_of_ok hchange)

variable [Numeral α] {fuel : Nat}

theorem run_agrees_of_sound (h : ∀ c e, Agree Sound (publish c e) (publish' c e))
    (hkeeps : Publishes WhileRunning d publish) (adaptive : Bool) :
    Agree Sound (run publish fuel adaptive) (run publish' fuel adaptive) := by
  intro w hw
  cases hrunning : w.state.solver.running with
  | true => exact .of_ok (run_of_running hrunning) (run_of_running hrunning) hw
  | false =>
    refine (run_alike hrunning fun t ht htrunning c e => ?_).imp fun v hv => hw.along hv.1
    refine holding_agrees hkeeps htrunning fun u hu => ?_
    have hsound : Sound u := hw.along (ht.held hu)
    exact (h c e u hsound).1

theorem answer_agrees_of_sound (h : ∀ c e, Agree Sound (publish c e) (publish' c e))
    (hkeeps : Publishes WhileRunning d publish) (q : Request α μ) :
    Agree Sound (answer α μ fuel publish q) (answer α μ fuel publish' q) := by
  have hcancel : Agree Sound (cancel publish) (cancel publish') :=
    sound_kind.cancel_agrees (fun w hw => hw.along ⟨rfl, .inl ⟨rfl, rfl⟩⟩) (h .canceled ())
  exact sound_kind.answer_agrees (fun f hf => change_agrees_of_sound h hf)
    (run_agrees_of_sound h hkeeps) hcancel q

section Same

variable {answer' : Handler (protocol α μ)}

theorem deliver_agrees_of_sound (h : Handler.Same Sound (answer α μ) answer') (calls d : Nat)
    (c : Solver.Channel) (e : Solver.Payload α c) :
    Agree Sound (deliver (answer α μ) calls d c e) (deliver answer' calls d c e) :=
  sound_kind.closed.deliver_same (fun fuel d _ hpublish q =>
    answer_agrees_of_sound hpublish (deliver_keeps fuel d) q) h calls d c e

theorem perform_agrees_of_sound (h : Handler.Same Sound (answer α μ) answer') (calls : Nat)
    (script : Script (protocol α μ)) :
    Agree Sound (perform calls script) (Delivery.perform answer' calls script) := by
  refine sound_kind.closed.run (fun q => ?_) script
  have hanswer : Agree Sound (answer α μ calls (deliver (answer α μ) calls 0) q)
      (answer α μ calls (deliver answer' calls 0) q) :=
    answer_agrees_of_sound (deliver_agrees_of_sound h calls 0) (deliver_keeps calls 0) q
  exact hanswer.congr (h calls _ q)

end Same

/-- Whatever a script and its subscribers request of a new session, the solver is sound, after it and
whenever something is requested. -/
theorem sound_of_perform [Scalar.Usual α] (files : FileTree) (memory : μ) (logging : Logging)
    (calls : Nat) (script : Script (protocol α μ)) :
    (∀ v, (perform calls script).after (newWorld files memory logging) = v → v.state.solver.Sound ∧
      (v.state.solver.status = .idle ∨ v.state.solver.status = .failed →
        v.state.solver.result = [])) ∧
    -- What would be answered where the solver is not sound has no part in it.
    ∀ answer', Handler.Same Sound (answer α μ) answer' →
      Delivery.perform answer' calls script (newWorld files memory logging) =
        perform calls script (newWorld files memory logging) := by
  have hnew : Sound (newWorld files memory logging : World (protocol α μ)) := Solver.sound_fresh
  refine ⟨?_, fun answer' h => (perform_agrees_of_sound h calls script _ hnew).1.symm⟩
  rintro v rfl
  have hself : Handler.Same Sound (answer α μ) (answer α μ) := fun _ _ _ _ _ => rfl
  have hafter := (perform_agrees_of_sound hself calls script _ hnew).2
  exact ⟨hafter, Solver.Sound.result_eq_nil hafter⟩

/-- A session whose run is disturbed by a subscriber, and then gets a new range and other equations,
the first of them wrong. -/
def disturbed : Script (protocol Fraction Unit) :=
  .request (.setEquations ["y' = 1"]) fun _ =>
  .request (.setConditions (.ofList [("y", Scalar.one)])) fun _ =>
  .subscribe .progress (fun _ => .request (.setEquations ["z' = 1"]) fun _ =>
    .request (.run true) fun _ => .done) fun _ =>
  .request (.run false) fun _ =>
  .request (.setRange "t" Scalar.zero Scalar.one Scalar.half) fun _ =>
  .request (.setEquations ["z' = "]) fun _ => .done

theorem sound_of_perform_disturbed : ∃ v,
    (perform 20 disturbed).after (newWorld {} ()) = v ∧ v.state.solver.Sound ∧
      v.state.solver.status = .finished ∧ v.state.solver.result.length = 11 ∧
        v.state.solver.range.arg = "t" := by
  obtain ⟨hafter, _⟩ := sound_of_perform (α := Fraction) {} () .foreign 20 disturbed
  exact ⟨_, rfl, (hafter _ rfl).1, by decide +kernel⟩

end Session

end Trajectory
