import Trajectory.Proofs.Expr.Offset
import Trajectory.Proofs.Expr.Search

namespace Trajectory.Bracket

open Text (size)

section Rise

/-- The change of depth that a text makes. -/
def rise : List Char → Int
  | [] => 0
  | c :: s => step c + rise s

@[simp] theorem rise_nil : rise [] = 0 := rfl

@[simp] theorem rise_cons (c : Char) (s : List Char) : rise (c :: s) = step c + rise s := rfl

@[simp] theorem rise_append (s t : List Char) : rise (s ++ t) = rise s + rise t := by
  induction s with
  | nil => simp
  | cons c s ih => simp [ih, Int.add_assoc]

theorem rise_of_plain {s : List Char} (h : ∀ c ∈ s, isBracket c = false) : rise s = 0 := by
  induction s with
  | nil => rfl
  | cons c s ih =>
    have hrest := ih fun d hd => h d (List.mem_cons_of_mem c hd)
    rw [rise_cons, step_of_plain (h c List.mem_cons_self), hrest, Int.add_zero]

end Rise

section Cuts

variable {depth : Int} {reversed s : List Char} {c : Cut}

theorem mem_outerCutsFrom_iff : c ∈ outerCutsFrom depth reversed s ↔
    ∃ u, c.reversed = u.reverse ++ reversed ∧ s = u ++ c.mark :: c.after ∧ depth + rise u = 0 ∧
      isBracket c.mark = false := by
  induction s generalizing depth reversed with
  | nil => simp [outerCutsFrom]
  | cons a s ih =>
    have hlater : c ∈ outerCutsFrom (depth + step a) (a :: reversed) s ↔
        ∃ u, c.reversed = (a :: u).reverse ++ reversed ∧ s = u ++ c.mark :: c.after ∧
          depth + rise (a :: u) = 0 ∧ isBracket c.mark = false := by
      rw [ih]
      simp [Int.add_assoc]
    constructor
    · intro h
      have hcases : (c = ⟨reversed, a, s⟩ ∧ depth = 0 ∧ ¬ isBracket a) ∨
          c ∈ outerCutsFrom (depth + step a) (a :: reversed) s := by
        rw [outerCutsFrom] at h
        split at h
        next hcut => exact (List.mem_cons.mp h).imp_left fun hc => ⟨hc, hcut⟩
        next => exact .inr h
      rcases hcases with ⟨rfl, hdepth, hplain⟩ | h
      · exact ⟨[], rfl, rfl, by simp [hdepth], by simpa using hplain⟩
      · obtain ⟨u, hu, hs, hrise, hplain⟩ := hlater.mp h
        exact ⟨a :: u, hu, by rw [hs, List.cons_append], hrise, hplain⟩
    · rintro ⟨u, hu, hs, hrise, hplain⟩
      cases u with
      | nil =>
        obtain ⟨rfl, rfl⟩ := List.cons.inj hs
        have hdepth : depth = 0 := by simpa using hrise
        rw [outerCutsFrom, if_pos ⟨hdepth, by simpa using hplain⟩]
        have hc : c = ⟨reversed, c.mark, c.after⟩ := by rw [show reversed = c.reversed from hu.symm]
        exact List.mem_cons.mpr (.inl hc)
      | cons b u =>
        obtain ⟨rfl, rfl⟩ := List.cons.inj hs
        have h := hlater.mpr ⟨u, hu, rfl, hrise, hplain⟩
        rw [outerCutsFrom]
        split
        next => exact List.mem_cons_of_mem _ h
        next => exact h

theorem mem_outerCuts_iff :
    c ∈ outerCuts s ↔ c.whole = s ∧ rise c.before = 0 ∧ isBracket c.mark = false := by
  rw [outerCuts, mem_outerCutsFrom_iff]
  constructor
  · rintro ⟨u, hu, rfl, hrise, hplain⟩
    have hbefore : c.before = u := by simp [Cut.before, hu]
    rw [Cut.whole, hbefore]
    exact ⟨rfl, by simpa using hrise, hplain⟩
  · rintro ⟨rfl, hrise, hplain⟩
    exact ⟨c.before, by simp [Cut.before], rfl, by simpa using hrise, hplain⟩

theorem size_le_position (h : c ∈ outerCutsFrom depth reversed s) : size reversed ≤ c.position := by
  obtain ⟨u, hu, _⟩ := mem_outerCutsFrom_iff.mp h
  rw [Cut.position_eq, Cut.before, hu]
  simp

theorem outerCutsFrom_pairwise : (outerCutsFrom depth reversed s).Pairwise (·.position < ·.position) := by
  induction s generalizing depth reversed with
  | nil => exact .nil
  | cons a s ih =>
    rw [outerCutsFrom]
    split
    next =>
      refine List.pairwise_cons.mpr ⟨fun c hc => ?_, ih⟩
      have hle := size_le_position hc
      have hpos := a.utf8Size_pos
      have hposition : Cut.position ⟨reversed, a, s⟩ = size reversed := by simp [Cut.position_eq, Cut.before]
      rw [Text.size_cons] at hle
      omega
    next => exact ih

end Cuts

theorem getLast_eq_some_iff {cuts : List Cut} (h : cuts.Pairwise (·.position < ·.position)) {c : Cut} :
    cuts.getLast? = some c ↔ c ∈ cuts ∧ ∀ d ∈ cuts, d.position ≤ c.position := by
  have hlast {c : Cut} (hc : cuts.getLast? = some c) {d : Cut} (hd : d ∈ cuts) :
      d = c ∨ d.position < c.position := by
    obtain ⟨front, rfl⟩ := List.getLast?_eq_some_iff.mp hc
    rcases List.mem_append.mp hd with hd | hd
    · exact .inr ((List.pairwise_append.mp h).2.2 d hd c (List.mem_singleton_self c))
    · exact .inl (List.mem_singleton.mp hd)
  constructor
  · intro hc
    refine ⟨List.mem_of_getLast? hc, fun d hd => ?_⟩
    rcases hlast hc hd with rfl | hlt <;> omega
  · rintro ⟨hc, hgreatest⟩
    cases he : cuts.getLast? with
    | none =>
      rw [List.getLast?_eq_none_iff.mp he] at hc
      cases hc
    | some e =>
      rcases hlast he hc with rfl | hlt
      · rfl
      · have hle := hgreatest e (List.mem_of_getLast? he)
        omega

theorem lastCut_eq_some_iff_greatest {p : Cut → Bool} {s : List Char} {c : Cut} :
    lastCut? p s = some c ↔ (c ∈ outerCuts s ∧ p c = true) ∧
      ∀ d ∈ outerCuts s, p d = true → d.position ≤ c.position := by
  have hcuts : (outerCuts s).Pairwise (·.position < ·.position) := outerCutsFrom_pairwise
  rw [lastCut?, getLast_eq_some_iff (hcuts.filter p), List.mem_filter]
  refine and_congr_right fun _ => ⟨fun h d hd hp => ?_, fun h d hd => ?_⟩
  · exact h d (List.mem_filter.mpr ⟨hd, hp⟩)
  · exact h d (List.mem_filter.mp hd).1 (List.mem_filter.mp hd).2

end Trajectory.Bracket
