import Trajectory.Document.Comment
import Trajectory.Proofs.Text

namespace Trajectory.Comment

/-- Every return of a text stands directly before a line feed. -/
def Paired (s : List Char) : Prop :=
  ∀ before after, s = before ++ '\r' :: after → after.head? = some '\n'

theorem paired_nil : Paired [] := by
  intro before after h
  simp at h

theorem paired_cons {c : Char} {s : List Char} :
    Paired (c :: s) ↔ (c = '\r' → s.head? = some '\n') ∧ Paired s := by
  constructor
  · intro h
    exact ⟨fun hc => h [] s (by rw [hc]; rfl), fun before after heq => h (c :: before) after (by
      rw [heq]
      rfl)⟩
  · rintro ⟨hc, hs⟩ before after heq
    cases before with
    | nil =>
      obtain ⟨rfl, rfl⟩ := List.cons.inj heq
      exact hc rfl
    | cons d before => exact hs before after (List.cons.inj heq).2

instance decidablePaired : (s : List Char) → Decidable (Paired s)
  | [] => isTrue paired_nil
  | _ :: s =>
    have := decidablePaired s
    decidable_of_iff _ paired_cons.symm

/-- A text within one line. -/
structure Unbroken (s : List Char) : Prop where
  noFeed : '\n' ∉ s
  noReturn : '\r' ∉ s

theorem Unbroken.append_right {s t : List Char} (h : Unbroken (s ++ t)) : Unbroken t :=
  ⟨fun hmem => h.noFeed (List.mem_append_right s hmem),
    fun hmem => h.noReturn (List.mem_append_right s hmem)⟩

def withoutReturn (row : List Char) : List Char :=
  if row.getLast? = some '\r' then row.dropLast else row

/-- What stands between line feeds, without the returns before them. -/
def rows (s : List Char) : List (List Char) := (s.splitOn '\n').map withoutReturn

/-- The marks that comments begin with. -/
def marks : List (List Char) := [['/', '/'], ['#'], ['%']]

/-- Whether a row is blank or a comment. -/
def isSkipped (row : List Char) : Bool :=
  (Text.trim row).isEmpty || marks.any fun mark => mark.isPrefixOf (Text.trim row)

def content (s : List Char) : List (List Char) := (rows s).filter fun row => !isSkipped row

theorem isComment_trim (row : List Char) : isComment (Text.trim row) = isSkipped row := by
  unfold isComment isSkipped
  split
  next h => simp [h]
  next h => simp [h, marks]
  next h => simp [h, marks]
  next h => simp [h, marks]
  next hempty hnumber hpercent hslashes =>
    generalize Text.trim row = text at hempty hnumber hpercent hslashes
    cases text with
    | nil => exact absurd rfl hempty
    | cons c later =>
      have hc : '#' ≠ c ∧ '%' ≠ c :=
        ⟨fun h => hnumber later (h ▸ rfl), fun h => hpercent later (h ▸ rfl)⟩
      have hnone : '/' = c → ['/'].isPrefixOf later = false := by
        rintro rfl
        refine Bool.eq_false_iff.mpr fun hprefix => ?_
        obtain ⟨rest, rfl⟩ := List.isPrefixOf_iff_prefix.mp hprefix
        exact hslashes rest rfl
      simpa [marks, hc, List.isPrefixOf] using hnone

theorem reverse_dropReturn (reversed : List Char) :
    (dropReturn reversed).reverse = withoutReturn reversed.reverse := by
  unfold withoutReturn
  rw [List.getLast?_reverse]
  cases reversed with
  | nil => rfl
  | cons c reversed =>
    by_cases hc : c = '\r'
    · subst hc
      simp [dropReturn]
    · simp [dropReturn, hc]

theorem Paired.append_right {s t : List Char} (h : Paired (s ++ t)) : Paired t := by
  intro before after heq
  exact h (s ++ before) after (by rw [heq, List.append_assoc])

theorem Paired.eq_nil {before after tail : List Char}
    (h : Paired (before ++ '\r' :: (after ++ tail))) (hafter : '\n' ∉ after) : after = [] := by
  have hhead := h before (after ++ tail) rfl
  cases after with
  | nil => rfl
  | cons c after =>
    obtain rfl : c = '\n' := by simpa using hhead
    exact absurd List.mem_cons_self hafter

theorem withoutReturn_of_not_mem {row : List Char} (h : '\r' ∉ row) : withoutReturn row = row := by
  refine if_neg fun hlast => h ?_
  exact List.mem_of_getLast? hlast

theorem unbroken_withoutReturn {row tail : List Char} (hrow : '\n' ∉ row)
    (h : Paired (row ++ tail)) : Unbroken (withoutReturn row) := by
  unfold withoutReturn
  split
  next hlast =>
    obtain ⟨own, rfl⟩ := List.getLast?_eq_some_iff.mp hlast
    rw [List.dropLast_concat]
    refine ⟨fun hmem => hrow (List.mem_append_left _ hmem), fun hreturn => ?_⟩
    obtain ⟨before, after, rfl⟩ := List.append_of_mem hreturn
    have hpaired : Paired (before ++ '\r' :: ((after ++ ['\r']) ++ tail)) := by simpa using h
    have hnil := hpaired.eq_nil fun hmem => hrow (by simp_all)
    simp at hnil
  next hlast =>
    refine ⟨hrow, fun hreturn => hlast ?_⟩
    obtain ⟨before, after, rfl⟩ := List.append_of_mem hreturn
    have hpaired : Paired (before ++ '\r' :: (after ++ tail)) := by simpa using h
    rw [hpaired.eq_nil fun hmem => hrow (by simp [hmem]), List.getLast?_concat]

/-- The rows of a text: its first one alone, or the one before the first line feed and those after. -/
theorem rows_cases (s : List Char) : ('\n' ∉ s ∧ rows s = [withoutReturn s]) ∨
    ∃ row later, s = row ++ '\n' :: later ∧ '\n' ∉ row ∧
      rows s = withoutReturn row :: rows later := by
  by_cases h : '\n' ∈ s
  · obtain ⟨row, later, rfl, hrow⟩ := List.eq_append_cons_of_mem h
    refine .inr ⟨row, later, rfl, hrow, ?_⟩
    rw [rows, List.splitOn_append_cons_self_of_not_mem hrow, List.map_cons, rows]
  · refine .inl ⟨h, ?_⟩
    rw [rows, List.splitOn_eq_singleton h, List.map_singleton]

theorem unbroken_of_mem_rows {s : List Char} (h : Paired s) : ∀ row ∈ rows s, Unbroken row := by
  intro other hmem
  rcases rows_cases s with ⟨hs, heq⟩ | ⟨row, later, heq', hrow, heq⟩
  · rw [heq, List.mem_singleton] at hmem
    rw [hmem]
    rw [← List.append_nil s] at h
    exact unbroken_withoutReturn hs h
  · rw [heq'] at h
    rcases List.mem_cons.mp (heq ▸ hmem) with rfl | hlater
    · exact unbroken_withoutReturn hrow h
    · rw [List.append_cons] at h
      exact unbroken_of_mem_rows h.append_right other hlater
termination_by s.length
decreasing_by
  rw [heq', List.length_append, List.length_cons]
  omega

/-- Reading on from within a row keeps the rows that splitting the text keeps. -/
theorem linesFrom_filter {reversed s : List Char} (hrow : '\n' ∉ reversed)
    (h : Paired (reversed.reverse ++ s)) :
    (linesFrom reversed s).filter (fun line => !isSkipped line) = content (reversed.reverse ++ s) := by
  have hreverse : '\n' ∉ reversed.reverse := by rwa [List.mem_reverse]
  induction s generalizing reversed with
  | nil =>
    rw [List.append_nil] at h ⊢
    have hlast : '\r' ∉ reversed.reverse := by
      intro hreturn
      obtain ⟨before, after, heq⟩ := List.append_of_mem hreturn
      rw [heq, ← List.append_nil after] at h
      rw [heq] at hreverse
      have hnil := h.eq_nil (by simp_all)
      have hhead := h before (after ++ []) rfl
      rw [hnil] at hhead
      cases hhead
    rw [content, rows, List.splitOn_eq_singleton hreverse, List.map_singleton,
      withoutReturn_of_not_mem hlast, linesFrom]
    split
    next hempty =>
      rw [List.isEmpty_iff.mp hempty]
      rfl
    next => rfl
  | cons c s ih =>
    by_cases hc : c = '\n'
    · subst hc
      have hlater : Paired s := by
        rw [List.append_cons] at h
        exact h.append_right
      rw [linesFrom, content, rows, List.splitOn_append_cons_self_of_not_mem hreverse,
        List.map_cons, ← reverse_dropReturn, List.filter_cons, List.filter_cons,
        ih List.not_mem_nil hlater List.not_mem_nil]
      rfl
    · have hnext : (c :: reversed).reverse ++ s = reversed.reverse ++ c :: s := by simp
      have hfeed : '\n' ∉ c :: reversed := by simp [hrow, Ne.symm hc]
      rw [linesFrom.eq_3 _ _ _ hc, ← hnext]
      rw [← hnext] at h
      exact ih hfeed h (by rwa [List.mem_reverse])

theorem remove_eq {s : List Char} (h : Paired s) : remove s = ['\n'].intercalate (content s) := by
  have hlines := @linesFrom_filter [] s List.not_mem_nil h
  simp only [remove, isComment_trim]
  exact congrArg _ hlines

theorem unbroken_of_mem_content {s row : List Char} (h : Paired s) (hrow : row ∈ content s) :
    Unbroken row :=
  unbroken_of_mem_rows h row (List.mem_filter.mp hrow).1

theorem trim_of_mem_content {s row : List Char} (hrow : row ∈ content s) : Text.trim row ≠ [] := by
  have hkept := (List.mem_filter.mp hrow).2
  intro hnil
  simp [isSkipped, hnil] at hkept

end Trajectory.Comment
