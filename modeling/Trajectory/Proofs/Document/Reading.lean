import Trajectory.Number.Binary64
import Trajectory.Proofs.Document.Sections
import Trajectory.Proofs.Document.Tables
import Trajectory.Proofs.Number.Fraction

namespace Trajectory.Document

open Comment (Paired content Unbroken)
open Line (Spaced)
open Section (joined)

theorem trim_of_isBlankText {s : List Char} (h : Text.isBlankText s = true) : Text.trim s = [] :=
  Text.trim_append (s := []) h

theorem eq_nil_of_joined {lines : List (List Char)} (h : ∀ line ∈ lines, Text.trim line ≠ [])
    (hblank : Text.isBlankText (joined lines) = true) : lines = [] := by
  cases lines with
  | nil => rfl
  | cons line lines =>
    obtain ⟨t, heq, _⟩ := Section.joined_cons line lines
    rw [heq] at hblank
    have hline := (Text.isBlankText_append.mp hblank).1
    exact absurd (trim_of_isBlankText hline) (h line List.mem_cons_self)

variable {α : Type} [Scalar α] {s : String}

theorem ofText_eq_ofSections_iff (hs : Paired s.toList) {d : Document α} : ofText s = .ok d ↔
    ∃ sections, SectionsLines Spaced (content s.toList) sections ∧ d = ofSections sections := by
  have hlines : ∀ line ∈ content s.toList, Unbroken line :=
    fun line hmem => Comment.unbroken_of_mem_content hs hmem
  have hremove : Comment.remove s.toList = joined (content s.toList) := Comment.remove_eq hs
  constructor
  · intro h
    obtain ⟨⟨d', rest⟩, hfirst, h⟩ := bind_eq_ok.mp h
    rw [mapError_eq_ok, hremove] at hfirst
    obtain ⟨⟨sections, rest'⟩, hall, hfirst⟩ := bind_eq_ok.mp hfirst
    cases hfirst
    obtain ⟨hmore, hne⟩ := Section.readAll_eq_ok_iff.mp hall
    obtain ⟨taken, left, heq, hleft, hsections, _⟩ := Section.exists_sections hlines
    rw [hmore] at hleft hsections
    have hrest : rest = joined left := hleft
    dsimp only at h
    split at h
    next hblank =>
      cases h
      have hkept : ∀ line ∈ left, Text.trim line ≠ [] := fun line hmem =>
        Comment.trim_of_mem_content (heq ▸ List.mem_append_right taken hmem)
      rw [hrest] at hblank
      rw [heq, eq_nil_of_joined hkept hblank, List.append_nil]
      exact ⟨sections, hsections hne, rfl⟩
    next => cases h
  · rintro ⟨sections, hsections, rfl⟩
    have hall := Section.readAll_eq_ok_iff.mpr
      ⟨Section.readMore_eq hlines hsections, hsections.ne_nil⟩
    have hfirst : readFirst (Comment.remove s.toList) =
        .ok ((ofSections sections : Document α), []) := by
      rw [hremove]
      exact bind_eq_ok.mpr ⟨_, hall, rfl⟩
    exact bind_eq_ok.mpr ⟨_, mapError_eq_ok.mpr hfirst, rfl⟩

/-- A text is read as a document if and only if the lines that count are those of one or more sections,
and then it holds the values of their lines. -/
theorem ofText_lines (hs : Paired s.toList) :
    ((∃ d : Document α, ofText s = .ok d) ↔
      ∃ sections, SectionsLines Spaced (content s.toList) sections) ∧
    ∀ (d : Document α) (sections : List Section), ofText s = .ok d →
      SectionsLines Spaced (content s.toList) sections → Holds d sections := by
  constructor
  · constructor
    · rintro ⟨d, hd⟩
      obtain ⟨sections, hsections, _⟩ := (ofText_eq_ofSections_iff hs).mp hd
      exact ⟨sections, hsections⟩
    · rintro ⟨sections, hsections⟩
      have hread : ofText s = .ok (ofSections sections : Document α) :=
        (ofText_eq_ofSections_iff hs).mpr ⟨sections, hsections, rfl⟩
      exact ⟨_, hread⟩
  · intro d sections hd hsections
    have hread : ofText s = .ok (ofSections sections : Document α) :=
      (ofText_eq_ofSections_iff hs).mpr ⟨sections, hsections, rfl⟩
    obtain rfl := Except.ok.inj (hd.symm.trans hread)
    exact holds_ofSections hsections.entries_ne_nil

/-- One title on two lines, with comments, returns and semicolons. -/
def splitSource : String :=
  "# run\n\nrun\r\n\tstep: 1, 0.5 ;\n  name : a b\n// more\nrun;\r\nstep: true, 2"

def splitDocument : Document Fraction where
  sections := [("run", ⟨[("step", [.integer 1, .real ⟨1 / 2⟩, .flag true, .integer 2]),
    ("name", [.text "a b"])]⟩)]

theorem ofText_lines_splitSource : Paired splitSource.toList ∧
    ofText splitSource = .ok splitDocument ∧
    ∃ sections, SectionsLines Spaced (content splitSource.toList) sections ∧
      Holds splitDocument sections := by
  have hpaired : Paired splitSource.toList := by decide +kernel
  have hread : ofText splitSource = .ok splitDocument := by decide +kernel
  obtain ⟨hiff, hholds⟩ := ofText_lines (α := Fraction) hpaired
  obtain ⟨sections, hsections⟩ := hiff.mp ⟨splitDocument, hread⟩
  exact ⟨hpaired, hread, sections, hsections, hholds splitDocument sections hread hsections⟩

/-- The spaces after a colon do not have to belong to a field: a semicolon may stand after them. Lines
without any such spaces are not all that a document can have. -/
theorem ofText_semicolon : Paired "t\nk: ;".toList ∧
    (∃ d : Document Float, ofText "t\nk: ;" = .ok d) ∧
    ¬ ∃ sections, SectionsLines (fun g => g = []) (content "t\nk: ;".toList) sections := by
  refine ⟨by decide +kernel, ?_, ?_⟩
  · have hread : (ofText "t\nk: ;" : Except DocumentFault (Document Float)).isOk = true := by
      decide +kernel
    cases h : (ofText "t\nk: ;" : Except DocumentFault (Document Float)) with
    | ok d => exact ⟨d, rfl⟩
    | error fault =>
      rw [h] at hread
      cases hread
  · rintro ⟨sections, hsections⟩
    have hlines : content "t\nk: ;".toList = [['t'], ['k', ':', ' ', ';']] := by decide +kernel
    rw [hlines] at hsections
    obtain ⟨line, hline, entry, hentry⟩ := hsections.exists_keyLine
    obtain rfl : line = ['k', ':', ' ', ';'] := by simpa using hline
    obtain ⟨g, fields, t, rfl, hfields, ht, hafter⟩ := hentry.dropWhile
    have hrest : [' ', ';'] = [','].intercalate fields ++ t := (List.cons.inj hafter).2
    cases fields with
    | nil =>
      rw [List.intercalate_nil, List.nil_append] at hrest
      rw [← hrest] at ht
      cases ht with
      | plain hspaces => simp [Spaced] at hspaces
    | cons field fields =>
      have hfield := hfields field List.mem_cons_self
      rw [Line.intercalate_cons, List.append_assoc] at hrest
      cases field with
      | nil => exact hfield.text rfl
      | cons c field =>
        cases field with
        | nil =>
          obtain rfl : ' ' = c := (List.cons.inj hrest).1
          exact hfield.text rfl
        | cons d field =>
          obtain rfl : ';' = d := (List.cons.inj (List.cons.inj hrest).2).1
          exact (hfield.chars ';' (by simp)).2.1 rfl

end Trajectory.Document
