namespace Trajectory

theorem bind_eq_ok {ε α β : Type} {c : Except ε α} {f : α → Except ε β} {b : β} :
    c >>= f = .ok b ↔ ∃ a, c = .ok a ∧ f a = .ok b := by
  cases c with
  | error e => simp [bind, Except.bind]
  | ok a => simp [bind, Except.bind]

theorem mapError_eq_ok {ε δ β : Type} {f : ε → δ} {c : Except ε β} {b : β} :
    c.mapError f = .ok b ↔ c = .ok b := by
  cases c with
  | error e => constructor <;> (intro h; cases h)
  | ok a => constructor <;> (intro h; cases h; rfl)

/-- A sequence fails only as one of its steps does. -/
theorem bind_ne_error {ε α β : Type} {c : Except ε α} {f : α → Except ε β} {e : ε}
    (hc : c ≠ .error e) (hf : ∀ a, f a ≠ .error e) : c >>= f ≠ .error e := by
  cases c with
  | error d =>
    intro h
    cases h
    exact hc rfl
  | ok a => exact hf a

theorem mapError_ne_error {ε δ β : Type} {f : ε → δ} {c : Except ε β} {d : δ}
    (hf : ∀ e, f e ≠ d) : c.mapError f ≠ .error d := by
  cases c with
  | error e =>
    intro h
    exact hf e (Except.error.inj h)
  | ok a => exact fun h => by cases h

theorem eq_ok_of_isOk {ε : Type} {c : Except ε Unit} (h : c.isOk = true) : c = .ok () := by
  cases c with
  | error e => cases h
  | ok _ => rfl

end Trajectory
