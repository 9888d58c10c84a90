import Trajectory.Expr.Sign

namespace Trajectory

namespace Cut

theorem exists_eq (c : Cut) : ∃ (u : List Char) (m : Char) (v : List Char), c = ⟨u.reverse, m, v⟩ :=
  ⟨c.before, c.mark, c.after, by simp [before]⟩

theorem before_mk (u v : List Char) (m : Char) : before ⟨u.reverse, m, v⟩ = u := by simp [before]

theorem whole_mk (u v : List Char) (m : Char) : whole ⟨u.reverse, m, v⟩ = u ++ m :: v := by
  simp [whole, before]

end Cut

namespace Bracket

/-- Texts in which every bracket has its partner. -/
inductive Matched : List Char → Prop
  | nil : Matched []
  | plain {c : Char} {s : List Char} (hc : isBracket c = false) (hs : Matched s) : Matched (c :: s)
  | pair {s t : List Char} (hs : Matched s) (ht : Matched t) : Matched ('(' :: s ++ ')' :: t)

namespace Matched

theorem append {s t : List Char} (hs : Matched s) (ht : Matched t) : Matched (s ++ t) := by
  induction hs with
  | nil => exact ht
  | plain hc _ ih => exact .plain hc ih
  | @pair s u hs _ _ ih => simpa using Matched.pair hs ih

theorem of_plain {s : List Char} (h : ∀ c ∈ s, isBracket c = false) : Matched s := by
  induction s with
  | nil => exact .nil
  | cons c s ih => exact .plain (h c (by simp)) (ih fun d hd => h d (by simp [hd]))

theorem bracketed {s : List Char} (hs : Matched s) : Matched ('(' :: s ++ [')']) := .pair hs .nil

end Matched

theorem step_of_plain {c : Char} (h : isBracket c = false) : step c = 0 := by
  simp only [isBracket, Bool.or_eq_false_iff, beq_eq_false_iff_ne] at h
  simp [step, h]

section Balanced

variable {depth : Int} {s : List Char}

theorem balancedFrom_opening (hd : 0 ≤ depth) :
    balancedFrom depth ('(' :: s) = balancedFrom (depth + 1) s := by
  simp [balancedFrom, step, show 0 ≤ depth + 1 by omega]

theorem balancedFrom_closing (hd : 0 < depth) :
    balancedFrom depth (')' :: s) = balancedFrom (depth - 1) s := by
  simp [balancedFrom, step, show 0 ≤ depth + -1 by omega, Int.sub_eq_add_neg]

theorem balancedFrom_plain {c : Char} (hc : isBracket c = false) (hd : 0 ≤ depth) :
    balancedFrom depth (c :: s) = balancedFrom depth s := by
  simp [balancedFrom, step_of_plain hc, hd]

end Balanced

theorem balancedFrom_append {s : List Char} (hs : Matched s) {depth : Int} (hd : 0 ≤ depth)
    (t : List Char) : balancedFrom depth (s ++ t) = balancedFrom depth t := by
  induction hs generalizing depth t with
  | nil => rfl
  | plain hc _ ih => rw [List.cons_append, balancedFrom_plain hc hd, ih hd]
  | @pair s u _ _ ihs ihu =>
    simp only [List.cons_append, List.append_assoc]
    rw [balancedFrom_opening hd, ihs (by omega), balancedFrom_closing (by omega),
      Int.add_sub_cancel, ihu hd]

theorem balanced_of_matched {s : List Char} (hs : Matched s) : balanced s = true := by
  have h := balancedFrom_append hs (Int.le_refl 0) []
  simpa [balanced, balancedFrom] using h

/-- Brackets that are open when a matched text begins hide all of it. -/
theorem outerCutsFrom_inside {s : List Char} (hs : Matched s) {depth : Int} (hd : 0 < depth)
    (reversed t : List Char) : outerCutsFrom depth reversed (s ++ t) =
      outerCutsFrom depth (s.reverse ++ reversed) t := by
  induction hs generalizing depth reversed t with
  | nil => rfl
  | plain hc _ ih =>
    simp [outerCutsFrom, step_of_plain hc, show depth ≠ 0 by omega, ih hd]
  | @pair s u _ _ ihs ihu =>
    have hopen (r v : List Char) : outerCutsFrom depth r ('(' :: v) =
        outerCutsFrom (depth + 1) ('(' :: r) v := by simp [outerCutsFrom, step, isBracket]
    have hclose (r v : List Char) : outerCutsFrom (depth + 1) r (')' :: v) =
        outerCutsFrom depth (')' :: r) v := by
      simp [outerCutsFrom, step, isBracket, show depth + 1 + -1 = depth by omega]
    simp only [List.cons_append, List.append_assoc]
    rw [hopen, ihs (by omega), hclose, ihu hd]
    simp

theorem outerCutsFrom_pair {s : List Char} (hs : Matched s) (reversed t : List Char) :
    outerCutsFrom 0 reversed ('(' :: s ++ ')' :: t) =
      outerCutsFrom 0 (('(' :: s ++ [')']).reverse ++ reversed) t := by
  have hopen (v : List Char) : outerCutsFrom 0 reversed ('(' :: v) =
      outerCutsFrom 1 ('(' :: reversed) v := by simp [outerCutsFrom, step, isBracket]
  have hclose (r v : List Char) : outerCutsFrom 1 r (')' :: v) =
      outerCutsFrom 0 (')' :: r) v := by simp [outerCutsFrom, step, isBracket]
  rw [List.cons_append, hopen, outerCutsFrom_inside hs (by decide), hclose]
  simp

def extend (t : List Char) (c : Cut) : Cut := { c with after := c.after ++ t }

theorem outerCutsFrom_append {s : List Char} (hs : Matched s) (reversed t : List Char) :
    outerCutsFrom 0 reversed (s ++ t) = (outerCutsFrom 0 reversed s).map (extend t) ++
      outerCutsFrom 0 (s.reverse ++ reversed) t := by
  induction hs generalizing reversed t with
  | nil => rfl
  | plain hc _ ih => simp [outerCutsFrom, step_of_plain hc, hc, ih, extend]
  | @pair s u hs _ _ ihu =>
    have hassoc : '(' :: s ++ ')' :: u ++ t = '(' :: s ++ ')' :: (u ++ t) := by simp
    rw [hassoc, outerCutsFrom_pair hs, outerCutsFrom_pair hs, ihu]
    simp

theorem outerCutsFrom_bracketed {s : List Char} (hs : Matched s) (reversed : List Char) :
    outerCutsFrom 0 reversed ('(' :: s ++ [')']) = [] :=
  outerCutsFrom_pair hs reversed []

theorem outerCutsFrom_mark {c : Char} (hc : isBracket c = false) (reversed s : List Char) :
    outerCutsFrom 0 reversed (c :: s) = ⟨reversed, c, s⟩ :: outerCutsFrom 0 (c :: reversed) s := by
  simp [outerCutsFrom, step_of_plain hc, hc]

theorem mark_mem_of_outerCutsFrom {depth : Int} {reversed s : List Char} {c : Cut}
    (h : c ∈ outerCutsFrom depth reversed s) : c.mark ∈ s := by
  induction s generalizing depth reversed with
  | nil => simp [outerCutsFrom] at h
  | cons a s ih =>
    rw [outerCutsFrom] at h
    split at h
    · rcases List.mem_cons.mp h with rfl | h
      · exact List.mem_cons_self
      · exact List.mem_cons_of_mem a (ih h)
    · exact List.mem_cons_of_mem a (ih h)

theorem length_after_lt_of_outerCutsFrom {depth : Int} {reversed s : List Char} {c : Cut}
    (h : c ∈ outerCutsFrom depth reversed s) : c.after.length < s.length := by
  induction s generalizing depth reversed with
  | nil => simp [outerCutsFrom] at h
  | cons a s ih =>
    rw [outerCutsFrom] at h
    split at h
    · rcases List.mem_cons.mp h with rfl | h
      · simp
      · exact Nat.lt_succ_of_lt (ih h)
    · exact Nat.lt_succ_of_lt (ih h)

theorem closingCutFrom_append {s : List Char} (hs : Matched s) {depth : Int} (hd : 0 < depth)
    (reversed t : List Char) : closingCutFrom? depth reversed (s ++ t) =
      closingCutFrom? depth (s.reverse ++ reversed) t := by
  induction hs generalizing depth reversed t with
  | nil => rfl
  | @plain c _ hc _ ih =>
    have hclosing : c ≠ ')' := by
      rintro rfl
      cases hc
    simp [closingCutFrom?, step_of_plain hc, hclosing, ih hd]
  | @pair s u _ _ ihs ihu =>
    have hopen (r v : List Char) : closingCutFrom? depth r ('(' :: v) =
        closingCutFrom? (depth + 1) ('(' :: r) v := by simp [closingCutFrom?, step]
    have hclose (r v : List Char) : closingCutFrom? (depth + 1) r (')' :: v) =
        closingCutFrom? depth (')' :: r) v := by
      simp [closingCutFrom?, step, show depth + 1 + -1 = depth by omega, show depth ≠ 0 by omega]
    simp only [List.cons_append, List.append_assoc]
    rw [hopen, ihs (by omega), hclose, ihu hd]
    simp

theorem closingCut_of_matched {s : List Char} (hs : Matched s) (t : List Char) :
    closingCut? ('(' :: (s ++ ')' :: t)) = some ⟨s.reverse ++ ['('], ')', t⟩ := by
  have hopen : closingCut? ('(' :: (s ++ ')' :: t)) = closingCutFrom? 1 ['('] (s ++ ')' :: t) := by
    simp [closingCut?, closingCutFrom?, step]
  rw [hopen, closingCutFrom_append hs (by decide)]
  rfl

theorem inner_bracketed {s : List Char} (hs : Matched s) : inner? ('(' :: s ++ [')']) = some s := by
  rw [List.cons_append]
  simp [inner?, closingCut_of_matched hs]

theorem mark_of_closingCutFrom {depth : Int} {reversed s : List Char} {c : Cut}
    (h : closingCutFrom? depth reversed s = some c) : c.mark = ')' := by
  induction s generalizing depth reversed with
  | nil => simp [closingCutFrom?] at h
  | cons a s ih =>
    rw [closingCutFrom?] at h
    split at h
    next hclosing =>
      cases h
      exact hclosing.1
    next => exact ih h

theorem eq_bracketed_of_inner {s t : List Char} (h : inner? s = some t) : s = '(' :: t ++ [')'] := by
  unfold inner? at h
  split at h
  next rest reversed mark hcut =>
    cases h
    have hmark : mark = ')' := mark_of_closingCutFrom hcut
    have hwhole : reversed.reverse ++ [mark] = '(' :: rest := whole_closingCut hcut
    subst hmark
    cases hbefore : reversed.reverse with
    | nil => simp [hbefore] at hwhole
    | cons c before =>
      rw [hbefore] at hwhole
      rw [← hwhole, (List.cons.inj hwhole).1]
      rfl
  next => cases h

end Bracket

end Trajectory
