import Trajectory.Proofs.Document.Sections
import Trajectory.Proofs.Document.Tables

namespace Trajectory

namespace Line

def Trimmed (fields : List (List Char)) : Prop := ∀ field ∈ fields, Text.trim field = field

theorem trim_of_field? {s field rest : List Char} (h : field? s = some (field, rest)) :
    Text.trim field = field := by
  simp only [field?] at h
  split at h
  next => cases h
  next =>
    cases h
    exact Text.trim_trim _

theorem Trimmed.cons {field : List Char} {fields : List (List Char)}
    (hfield : Text.trim field = field) (hfields : Trimmed fields) : Trimmed (field :: fields) :=
  List.forall_mem_cons.mpr ⟨hfield, hfields⟩

theorem trimmed_nil : Trimmed [] := fun _ h => absurd h List.not_mem_nil

theorem trimmed_moreFields (s : List Char) : Trimmed (moreFields s).1 := by
  fun_induction moreFields s with
  | case1 later field rest found fields rest' more ih =>
    rw [more] at ih
    exact ih.cons (trim_of_field? found)
  | case2 => exact trimmed_nil
  | case3 => exact trimmed_nil

theorem trimmed_fields (s : List Char) : Trimmed (fields s).1 := by
  unfold fields
  split
  next field rest found => exact (trimmed_moreFields rest).cons (trim_of_field? found)
  next => exact trimmed_nil

theorem trimmed_of_entry {s rest : List Char} {found : List Char × List (List Char)}
    (h : entry s = .ok (found, rest)) : Trimmed found.2 := by
  obtain ⟨key, texts⟩ := found
  obtain ⟨_, afterColon, _, _, rfl, _⟩ := entry_eq_ok.mp h
  exact trimmed_fields afterColon

end Line

namespace Section

def Trimmed (s : Section) : Prop := ∀ entry ∈ s.entries, Line.Trimmed entry.2

theorem trimmed_moreEntries (s : List Char) : ∀ entry ∈ (moreEntries s).1, Line.Trimmed entry.2 := by
  fun_induction moreEntries s with
  | case1 s entry rest found entries rest' more ih =>
    rw [more] at ih
    exact List.forall_mem_cons.mpr ⟨Line.trimmed_of_entry found, ih⟩
  | case2 => exact fun _ h => absurd h List.not_mem_nil

theorem trimmed_of_read {s rest : List Char} {first : Section} (h : read s = .ok (first, rest)) :
    first.Trimmed := by
  obtain ⟨⟨title, afterTitle⟩, _, h⟩ := bind_eq_ok.mp h
  obtain ⟨⟨entry, afterEntry⟩, hentry, h⟩ := bind_eq_ok.mp h
  cases h
  exact List.forall_mem_cons.mpr ⟨Line.trimmed_of_entry hentry, trimmed_moreEntries afterEntry⟩

theorem trimmed_readMore (s : List Char) : ∀ found ∈ (readMore s).1, found.Trimmed := by
  fun_induction readMore s with
  | case1 s first rest found sections rest' more ih =>
    rw [more] at ih
    exact List.forall_mem_cons.mpr ⟨trimmed_of_read found, ih⟩
  | case2 => exact fun _ h => absurd h List.not_mem_nil

theorem trimmed_of_readAll {s rest : List Char} {sections : List Section}
    (h : readAll s = .ok (sections, rest)) : ∀ found ∈ sections, found.Trimmed := by
  have hall := trimmed_readMore s
  rw [(readAll_eq_ok_iff.mp h).1] at hall
  exact hall

theorem trimmed_fieldsFor {sections : List Section} (h : ∀ s ∈ sections, s.Trimmed)
    (title key : String) : Line.Trimmed (fieldsFor sections title key) := by
  intro field hfield
  obtain ⟨line, hline, hfield⟩ := List.mem_flatMap.mp hfield
  obtain ⟨s, hs, hmem⟩ := List.mem_flatMap.mp (List.mem_filter.mp hline).1
  obtain ⟨entry, hentry, rfl⟩ := List.mem_map.mp hmem
  exact h s hs entry hentry field hfield

end Section

end Trajectory
