import Trajectory.Text.Blank
import Trajectory.Text.Identifier

namespace Trajectory.Text

theorem isBlankText_append {s t : List Char} :
    isBlankText (s ++ t) = true ↔ isBlankText s = true ∧ isBlankText t = true := by
  simp [isBlankText]

theorem isBlankText_cons {c : Char} {s : List Char} :
    isBlankText (c :: s) = true ↔ isBlank c = true ∧ isBlankText s = true := by
  simp [isBlankText]

theorem isBlankText_reverse {s : List Char} : isBlankText s.reverse = isBlankText s := by
  simp [isBlankText]

theorem isBlankText_takeWhile (s : List Char) : isBlankText (s.takeWhile isBlank) = true :=
  List.all_takeWhile

theorem trimEnd_append (s : List Char) : ∃ b, isBlankText b = true ∧ trimEnd s ++ b = s := by
  refine ⟨(s.reverse.takeWhile isBlank).reverse, ?_, ?_⟩
  · rw [isBlankText_reverse]
    exact isBlankText_takeWhile s.reverse
  · rw [trimEnd, ← List.reverse_append, List.takeWhile_append_dropWhile, List.reverse_reverse]

theorem trim_surrounded (s : List Char) : ∃ b c, isBlankText b = true ∧ isBlankText c = true ∧
    s = b ++ (trim s ++ c) := by
  obtain ⟨c, hc, htrim⟩ := trimEnd_append (trimStart s)
  refine ⟨s.takeWhile isBlank, c, isBlankText_takeWhile s, hc, ?_⟩
  rw [trim, htrim, trimStart, List.takeWhile_append_dropWhile]

section Span

variable {p : Char → Bool}

theorem dropWhile_head {s : List Char} : ∀ c ∈ (s.dropWhile p).head?, p c = false := by
  intro c hc
  induction s with
  | nil => cases hc
  | cons a s ih =>
    rw [List.dropWhile_cons] at hc
    split at hc
    next => exact ih hc
    next ha =>
      obtain rfl : a = c := by simpa using hc
      simpa using ha

variable {t : List Char}

theorem takeWhile_append (s : List Char) (ht : ∀ c ∈ t.head?, p c = false) :
    (s ++ t).takeWhile p = s.takeWhile p := by
  induction s with
  | nil =>
    cases t with
    | nil => rfl
    | cons c t => simp [ht c rfl]
  | cons c s ih => rw [List.cons_append, List.takeWhile_cons, List.takeWhile_cons, ih]

theorem dropWhile_append (s : List Char) (ht : ∀ c ∈ t.head?, p c = false) :
    (s ++ t).dropWhile p = s.dropWhile p ++ t := by
  induction s with
  | nil =>
    cases t with
    | nil => rfl
    | cons c t => simp [ht c rfl]
  | cons c s ih =>
    rw [List.cons_append, List.dropWhile_cons, List.dropWhile_cons, ih]
    split <;> rfl

theorem takeWhile_eq {s : List Char} (hs : ∀ c ∈ s, p c = true) (ht : ∀ c ∈ t.head?, p c = false) :
    (s ++ t).takeWhile p = s := by
  have hnone : t.takeWhile p = [] := takeWhile_append [] ht
  rw [List.takeWhile_append_of_pos hs, hnone, List.append_nil]

theorem dropWhile_eq {s : List Char} (hs : ∀ c ∈ s, p c = true) (ht : ∀ c ∈ t.head?, p c = false) :
    (s ++ t).dropWhile p = t := by
  rw [List.dropWhile_append_of_pos hs]
  exact dropWhile_append [] ht

end Span

theorem trim_head (s : List Char) : ∀ c ∈ (trim s).head?, isBlank c = false := by
  intro c hc
  obtain ⟨b, _, hb⟩ := trimEnd_append (trimStart s)
  have hstart : c ∈ (trimStart s).head? := by
    rw [← hb]
    cases h : trimEnd (trimStart s) with
    | nil => simp [trim, h] at hc
    | cons a t => simpa [trim, h] using hc
  exact dropWhile_head c hstart

theorem trim_eq {b w c : List Char} (hb : isBlankText b = true) (hc : isBlankText c = true)
    (hhead : ∀ x ∈ w.head?, isBlank x = false) (hlast : ∀ x ∈ w.getLast?, isBlank x = false) :
    trim (b ++ (w ++ c)) = w := by
  have hdrop {v : List Char} (hv : ∀ x ∈ v.head?, isBlank x = false) : v.dropWhile isBlank = v := by
    cases v with
    | nil => rfl
    | cons a v => simp [hv a rfl]
  have hstart : trimStart (b ++ (w ++ c)) = (w ++ c).dropWhile isBlank :=
    List.dropWhile_append_of_pos (List.all_eq_true.mp hb)
  cases w with
  | nil =>
    have hnil : c.dropWhile isBlank = [] := by
      rw [← List.append_nil c, List.dropWhile_append_of_pos (List.all_eq_true.mp hc)]
      rfl
    rw [trim, hstart, List.nil_append, hnil]
    rfl
  | cons a w =>
    have hall : ∀ x ∈ c.reverse, isBlank x = true := by simpa [isBlankText] using hc
    have hreverse : ∀ x ∈ (a :: w).reverse.head?, isBlank x = false := by
      rwa [List.head?_reverse]
    rw [trim, hstart, hdrop (by simpa using hhead), trimEnd, List.reverse_append,
      List.dropWhile_append_of_pos hall, hdrop hreverse, List.reverse_reverse]

theorem trim_append {s b : List Char} (hb : isBlankText b = true) : trim (s ++ b) = trim s := by
  have hall := List.all_eq_true.mp hb
  have hend (s : List Char) : trimEnd (s ++ b) = trimEnd s := by
    have hreverse : ∀ c ∈ b.reverse, isBlank c = true := by simpa using hall
    rw [trimEnd, List.reverse_append, List.dropWhile_append_of_pos hreverse, trimEnd]
  have hnone : b.dropWhile isBlank = [] := by
    rw [← List.append_nil b, List.dropWhile_append_of_pos hall]
    rfl
  rw [trim, trimStart, List.dropWhile_append]
  split
  next hempty => rw [hnone, trim, trimStart, List.isEmpty_iff.mp hempty]
  next => rw [hend, trim, trimStart]

theorem trim_last (s : List Char) : ∀ c ∈ (trim s).getLast?, isBlank c = false := by
  intro c hc
  rw [trim, trimEnd, List.getLast?_reverse] at hc
  exact dropWhile_head c hc

theorem trim_trim (s : List Char) : trim (trim s) = trim s := by
  have htrim := trim_eq (b := []) (c := []) rfl rfl (trim_head s) (trim_last s)
  rwa [List.nil_append, List.append_nil] at htrim

theorem trimmed_of_not_blank {s : String} (h : ∀ c ∈ s.toList, isBlank c = false) :
    trimmed s = s := by
  have htrim := trim_eq (b := []) (c := []) rfl rfl (fun c hc => h c (List.mem_of_mem_head? hc))
    fun c hc => h c (List.mem_of_mem_getLast? hc)
  rw [List.nil_append, List.append_nil] at htrim
  rw [trimmed, htrim, String.ofList_toList]

theorem eq_nil_of_head {b s : List Char} (hb : isBlankText b = true)
    (hhead : ∀ c ∈ (b ++ s).head?, isBlank c = false) : b = [] := by
  cases b with
  | nil => rfl
  | cons c b =>
    have hblank := (isBlankText_cons.mp hb).1
    rw [hhead c rfl] at hblank
    cases hblank

theorem eq_nil_of_append_eq {w v b s : List Char} (hw : w ≠ []) (hword : ∀ c ∈ w, isBlank c = false)
    (hb : isBlankText b = true) (h : w ++ v = b ++ s) : b = [] := by
  have hhead : ∀ c ∈ (b ++ s).head?, isBlank c = false := by
    intro c hc
    rw [← h] at hc
    cases w with
    | nil => exact absurd rfl hw
    | cons a w =>
      obtain rfl : a = c := by simpa using hc
      exact hword a List.mem_cons_self
  exact eq_nil_of_head hb hhead

theorem isWordChar_of_isIdentifierStart {c : Char} (h : isIdentifierStart c = true) :
    isWordChar c = true := by
  simp only [isIdentifierStart, Bool.or_eq_true] at h
  rcases h with h | h <;> simp [isWordChar, h]

theorem isWordChar_of_isIdentifier {s : List Char} (h : isIdentifier s = true) :
    ∀ c ∈ s, isWordChar c = true := by
  cases s with
  | nil => cases h
  | cons a s =>
    simp only [isIdentifier, Bool.and_eq_true, List.all_eq_true] at h
    intro c hc
    rcases List.mem_cons.mp hc with rfl | hc
    · exact isWordChar_of_isIdentifierStart h.1
    · exact h.2 c hc

end Trajectory.Text
