import Trajectory.Proofs.Expr.Offset
import Trajectory.Proofs.Expr.Operand

namespace Trajectory

open Text (size trim)

namespace Bracket

section Matching

theorem eq_or_plain (c : Char) : c = '(' ∨ c = ')' ∨ isBracket c = false := by
  by_cases hopening : c = '('
  · exact .inl hopening
  · by_cases hclosing : c = ')'
    · exact .inr (.inl hclosing)
    · exact .inr (.inr (by simp [isBracket, hopening, hclosing]))

theorem exists_closing {depth : Int} {s : List Char} (hd : 0 < depth)
    (h : balancedFrom depth s = true) :
    ∃ u v, s = u ++ ')' :: v ∧ Matched u ∧ balancedFrom (depth - 1) v = true := by
  induction hn : s.length using Nat.strongRecOn generalizing depth s with
  | ind n ih =>
    subst hn
    cases s with
    | nil =>
      have hzero : depth = 0 := by simpa [balancedFrom] using h
      omega
    | cons c s =>
      rcases eq_or_plain c with rfl | rfl | hc
      · -- The bracket that opens here is closed first, then the one that was open.
        rw [balancedFrom_opening (by omega)] at h
        obtain ⟨u, v, rfl, hu, hv⟩ := ih s.length (by simp) (by omega) h rfl
        rw [Int.add_sub_cancel] at hv
        obtain ⟨w, x, rfl, hw, hx⟩ := ih v.length (by simp; omega) hd hv rfl
        exact ⟨'(' :: u ++ ')' :: w, x, by simp, .pair hu hw, hx⟩
      · rw [balancedFrom_closing hd] at h
        exact ⟨[], s, rfl, .nil, h⟩
      · rw [balancedFrom_plain hc (by omega)] at h
        obtain ⟨u, v, rfl, hu, hv⟩ := ih s.length (by simp) hd h rfl
        exact ⟨c :: u, v, rfl, .plain hc hu, hv⟩

theorem matched_of_balanced {s : List Char} (h : balanced s = true) : Matched s := by
  induction hn : s.length using Nat.strongRecOn generalizing s with
  | ind n ih =>
    subst hn
    unfold balanced at h ih
    cases s with
    | nil => exact .nil
    | cons c s =>
      rcases eq_or_plain c with rfl | rfl | hc
      · rw [balancedFrom_opening (by decide)] at h
        obtain ⟨u, v, rfl, hu, hv⟩ := exists_closing (by decide) h
        exact .pair hu (ih v.length (by simp; omega) hv rfl)
      · simp [balancedFrom, step] at h
      · rw [balancedFrom_plain hc (by decide)] at h
        exact .plain hc (ih s.length (by simp) h rfl)

theorem exists_depth_of_append {depth : Int} {u v : List Char} (hd : 0 ≤ depth)
    (h : balancedFrom depth (u ++ v) = true) : ∃ d, 0 ≤ d ∧ balancedFrom d v = true := by
  induction u generalizing depth with
  | nil => exact ⟨depth, hd, h⟩
  | cons c u ih =>
    simp only [List.cons_append, balancedFrom, Bool.and_eq_true, decide_eq_true_eq] at h
    exact ih h.1 h.2

theorem balancedFrom_of_plain {depth : Int} {b : List Char} (hb : ∀ c ∈ b, isBracket c = false) :
    balancedFrom depth b = (depth == 0) := by
  induction b with
  | nil => rfl
  | cons c b ih =>
    have hrest := ih fun d hd => hb d (List.mem_cons_of_mem c hd)
    simp only [balancedFrom, step_of_plain (hb c List.mem_cons_self), Int.add_zero, hrest]
    by_cases hdepth : depth = 0 <;> simp [hdepth]

theorem balancedFrom_append_plain {depth : Int} {s b : List Char}
    (hb : ∀ c ∈ b, isBracket c = false) : balancedFrom depth (s ++ b) = balancedFrom depth s := by
  induction s generalizing depth with
  | nil => exact balancedFrom_of_plain hb
  | cons c s ih => rw [List.cons_append, balancedFrom, balancedFrom, ih]

theorem balanced_trim {s : List Char} (h : balanced s = true) : balanced (trim s) = true := by
  obtain ⟨b, c, hb, hc, hs⟩ := Text.trim_surrounded s
  have hb := Grammar.isBracket_of_mem_blank hb
  have hc := Grammar.isBracket_of_mem_blank hc
  rwa [hs, balanced, balancedFrom_append (.of_plain hb) (by decide), balancedFrom_append_plain hc] at h

end Matching

section Sides

/-- A cut outside all brackets of a matched text leaves a matched text on both sides. -/
theorem matched_sides {s reversed : List Char} {c : Cut} (hs : Matched s)
    (h : c ∈ outerCutsFrom 0 reversed s) :
    ∃ u, c.reversed = u.reverse ++ reversed ∧ Matched u ∧ Matched c.after := by
  induction hs generalizing reversed with
  | nil => cases h
  | @plain a t ha ht ih =>
    rw [outerCutsFrom_mark ha] at h
    rcases List.mem_cons.mp h with rfl | h
    · exact ⟨[], rfl, .nil, ht⟩
    · obtain ⟨u, hu, hbefore, hafter⟩ := ih h
      exact ⟨a :: u, by simp [hu], .plain ha hbefore, hafter⟩
  | @pair t w ht _ _ ih =>
    rw [outerCutsFrom_pair ht] at h
    obtain ⟨u, hu, hbefore, hafter⟩ := ih h
    exact ⟨'(' :: t ++ ')' :: u, by simp [hu], .pair ht hbefore, hafter⟩

theorem balanced_sides {s : List Char} {c : Cut} (hs : balanced s = true) (h : c ∈ outerCuts s) :
    balanced c.before = true ∧ balanced c.after = true := by
  obtain ⟨u, hu, hbefore, hafter⟩ := matched_sides (matched_of_balanced hs) h
  rw [List.append_nil] at hu
  rw [Cut.before, hu, List.reverse_reverse]
  exact ⟨balanced_of_matched hbefore, balanced_of_matched hafter⟩

/-- The texts before and after the character at an offset are balanced. -/
def SplitsAt (s : List Char) (i : Nat) : Prop :=
  ∃ u m v, s = u ++ m :: v ∧ size u = i ∧ balanced u = true ∧ balanced v = true

theorem splitsAt_of_mem {s : List Char} {c : Cut} (hs : balanced s = true) (h : c ∈ outerCuts s) :
    SplitsAt s c.position := by
  obtain ⟨hbefore, hafter⟩ := balanced_sides hs h
  exact ⟨c.before, c.mark, c.after, (whole_outerCuts h).symm, c.position_eq.symm, hbefore, hafter⟩

end Sides

section Pairs

/-- The text between an opening bracket at offset `i` and a closing one at offset `j` is balanced. -/
def ClosedAt (s : List Char) (i j : Nat) : Prop :=
  ∃ u w v, s = u ++ '(' :: (w ++ ')' :: v) ∧ size u = i ∧ size u + 1 + size w = j ∧
    balanced w = true

/-- The search stops at the bracket with a balanced text before it, so there is only one. -/
theorem pair_of_closedAt {s : List Char} {i j : Nat} (h : ClosedAt s i j) : pair? s i = some j := by
  obtain ⟨u, w, v, rfl, rfl, rfl, hw⟩ := h
  rw [Offset.pair_append, closingCut_of_matched (matched_of_balanced hw)]
  have hbefore : Cut.before ⟨w.reverse ++ ['('], ')', v⟩ = '(' :: w := by simp [Cut.before]
  have hone : ('(' : Char).utf8Size = 1 := rfl
  rw [Option.map_some, hbefore, Text.size_cons, hone, Nat.add_assoc]

theorem exists_closing_of_append {u t : List Char} (h : balanced (u ++ '(' :: t) = true) :
    ∃ w v, t = w ++ ')' :: v ∧ Matched w := by
  obtain ⟨d, hd, hrest⟩ := exists_depth_of_append (Int.le_refl 0) h
  rw [balancedFrom_opening hd] at hrest
  obtain ⟨w, v, ht, hw, _⟩ := exists_closing (by omega) hrest
  exact ⟨w, v, ht, hw⟩

theorem exists_closedAt {u t : List Char} (h : balanced (u ++ '(' :: t) = true) :
    ∃ j, ClosedAt (u ++ '(' :: t) (size u) j := by
  obtain ⟨w, v, rfl, hw⟩ := exists_closing_of_append h
  exact ⟨_, u, w, v, rfl, rfl, rfl, balanced_of_matched hw⟩

theorem balanced_inner {u s t : List Char} (h : balanced (u ++ s) = true)
    (hinner : inner? s = some t) : balanced t = true := by
  unfold inner? at hinner
  split at hinner
  next rest reversed mark hcut =>
    obtain ⟨w, v, rfl, hw⟩ := exists_closing_of_append h
    rw [closingCut_of_matched hw] at hcut
    cases hcut
    cases hinner
    simpa using balanced_of_matched hw
  next => cases hinner

end Pairs

end Bracket

end Trajectory
