import Trajectory.Proofs.Expr.Matched

namespace Trajectory.Bracket

variable {s u v : List Char} {m : Char} {p : Cut → Bool}

def lastCut? (p : Cut → Bool) (s : List Char) : Option Cut := ((outerCuts s).filter p).getLast?

theorem lastBinarySign_eq (s : List Char) : lastBinarySign? s = lastCut? Cut.isBinarySign s := rfl

theorem lastOf_eq (marks s : List Char) :
    lastOf? marks s = lastCut? (fun c => marks.contains c.mark) s := rfl

theorem outerCuts_append_mark (hu : Matched u) (hm : isBracket m = false) (v : List Char) :
    outerCuts (u ++ m :: v) = (outerCuts u).map (extend (m :: v)) ++
      ⟨u.reverse, m, v⟩ :: outerCutsFrom 0 (m :: u.reverse) v := by
  rw [outerCuts, outerCutsFrom_append hu, outerCutsFrom_mark hm, List.append_nil]
  rfl

theorem lastCut_eq_none_iff : lastCut? p s = none ↔ ∀ c ∈ outerCuts s, p c = false := by
  simp [lastCut?]

theorem lastCut_eq_some_iff (hu : Matched u) (hm : isBracket m = false) :
    lastCut? p (u ++ m :: v) = some ⟨u.reverse, m, v⟩ ↔
      p ⟨u.reverse, m, v⟩ = true ∧ ∀ c ∈ outerCutsFrom 0 (m :: u.reverse) v, p c = false := by
  constructor
  · intro h
    refine ⟨(List.mem_filter.mp (List.mem_of_getLast? h)).2, fun c hc => ?_⟩
    rw [lastCut?, outerCuts_append_mark hu hm, List.filter_append] at h
    -- A later cut of the kind would be the last one, but what follows it is shorter.
    cases hp : p c with
    | false => rfl
    | true =>
      have hmem : c ∈ (outerCutsFrom 0 (m :: u.reverse) v).filter p := List.mem_filter.mpr ⟨hc, hp⟩
      have hne := List.ne_nil_of_mem hmem
      have hlast : ((outerCutsFrom 0 (m :: u.reverse) v).filter p).getLast? =
          some ⟨u.reverse, m, v⟩ := by
        obtain ⟨d, l, hl⟩ := List.exists_cons_of_ne_nil hne
        rw [List.filter_cons] at h
        split at h <;> simpa [hl, List.getLast?_append] using h
      have hafter := (List.mem_filter.mp (List.mem_of_getLast? hlast)).1
      exact absurd (length_after_lt_of_outerCutsFrom hafter) (Nat.lt_irrefl _)
  · rintro ⟨hp, hlater⟩
    have hnil : (outerCutsFrom 0 (m :: u.reverse) v).filter p = [] := by
      simpa [List.filter_eq_nil_iff] using hlater
    rw [lastCut?, outerCuts_append_mark hu hm, List.filter_append, List.filter_cons_of_pos hp, hnil]
    simp

theorem find_eq_some_iff (hu : Matched u) (hm : isBracket m = false) :
    (outerCuts (u ++ m :: v)).find? p = some ⟨u.reverse, m, v⟩ ↔
      p ⟨u.reverse, m, v⟩ = true ∧ ∀ c ∈ outerCuts u, p (extend (m :: v) c) = false := by
  constructor
  · intro h
    refine ⟨List.find?_some h, fun c hc => ?_⟩
    rw [outerCuts_append_mark hu hm, List.find?_append] at h
    cases hearlier : ((outerCuts u).map (extend (m :: v))).find? p with
    | none =>
      have hnone := List.find?_eq_none.mp hearlier _ (List.mem_map_of_mem hc)
      simpa using hnone
    | some d =>
      obtain ⟨a, ha, rfl⟩ := List.mem_map.mp (List.mem_of_find?_eq_some hearlier)
      have heq : extend (m :: v) a = ⟨u.reverse, m, v⟩ := by simpa [hearlier] using h
      have hbefore : a.reversed = u.reverse := congrArg Cut.reversed heq
      have hlength := a.length_before_lt
      rw [whole_outerCuts ha, Cut.before, hbefore, List.reverse_reverse] at hlength
      exact absurd hlength (Nat.lt_irrefl _)
  · rintro ⟨hp, hearlier⟩
    have hnone : ((outerCuts u).map (extend (m :: v))).find? p = none := by
      simpa [List.find?_eq_none] using hearlier
    rw [outerCuts_append_mark hu hm, List.find?_append, hnone]
    simp [hp]

end Trajectory.Bracket
