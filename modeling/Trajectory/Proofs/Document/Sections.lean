import Mathlib.Data.List.Forall2
import Trajectory.Document.Section
import Trajectory.Proofs.Document.FieldList

namespace Trajectory

open Comment (Unbroken)
open Line (TitleLine KeyLine Spaced Following)

/-- The lines of a section: its title, then one or more keys. -/
inductive SectionLines (Gap : List Char → Prop) : List (List Char) → Section → Prop where
  | mk {line title first : List Char} {lines : List (List Char)}
    {entry : List Char × List (List Char)} {entries : List (List Char × List (List Char))}
    (head : TitleLine line title) (key : KeyLine Gap first entry)
    (keys : List.Forall₂ (KeyLine Gap) lines entries) :
    SectionLines Gap (line :: first :: lines) ⟨title, entry :: entries⟩

/-- The lines of one or more sections, one section after the other. -/
inductive SectionsLines (Gap : List Char → Prop) : List (List Char) → List Section → Prop where
  | last {lines : List (List Char)} {s : Section} (first : SectionLines Gap lines s) :
    SectionsLines Gap lines [s]
  | more {lines later : List (List Char)} {s : Section} {sections : List Section}
    (first : SectionLines Gap lines s) (others : SectionsLines Gap later sections) :
    SectionsLines Gap (lines ++ later) (s :: sections)

namespace SectionsLines

variable {Gap : List Char → Prop} {lines : List (List Char)} {sections : List Section}

theorem ne_nil (h : SectionsLines Gap lines sections) : sections ≠ [] := by
  cases h <;> exact List.cons_ne_nil _ _

theorem entries_ne_nil (h : SectionsLines Gap lines sections) : ∀ s ∈ sections, s.entries ≠ [] := by
  have hfirst {lines : List (List Char)} {s : Section} (h : SectionLines Gap lines s) :
      s.entries ≠ [] := by
    cases h
    exact List.cons_ne_nil _ _
  induction h with
  | last first =>
    intro s hs
    rw [List.mem_singleton.mp hs]
    exact hfirst first
  | more first _ ih =>
    intro s hs
    rcases List.mem_cons.mp hs with rfl | hs
    · exact hfirst first
    · exact ih s hs

theorem exists_keyLine (h : SectionsLines Gap lines sections) :
    ∃ line ∈ lines.tail, ∃ entry, KeyLine Gap line entry := by
  cases h with
  | last first =>
    cases first with
    | mk _ key _ => exact ⟨_, List.mem_cons_self, _, key⟩
  | more first _ =>
    cases first with
    | mk _ key _ => exact ⟨_, List.mem_cons_self, _, key⟩

end SectionsLines

namespace Section

/-- Lines with a line feed between each two. -/
def joined (lines : List (List Char)) : List Char := ['\n'].intercalate lines

theorem joined_cons (line : List Char) (lines : List (List Char)) :
    ∃ t, joined (line :: lines) = line ++ t ∧ Following t (joined lines) := by
  cases lines with
  | nil => exact ⟨[], by simp [joined], .last⟩
  | cons next lines =>
    exact ⟨'\n' :: joined (next :: lines), by simp [joined, List.intercalate_cons_cons], .next _⟩

section Reading

variable {lines : List (List Char)} {line : List Char}

theorem title_joined (hline : Unbroken line) {found : List Char × List Char} :
    Line.title (joined (line :: lines)) = .ok found ↔
      TitleLine line found.1 ∧ found.2 = joined lines := by
  obtain ⟨t, heq, ht⟩ := joined_cons line lines
  rw [heq]
  exact Line.title_eq_ok_iff hline ht

theorem entry_joined (hline : Unbroken line)
    {found : (List Char × List (List Char)) × List Char} :
    Line.entry (joined (line :: lines)) = .ok found ↔
      KeyLine Spaced line found.1 ∧ found.2 = joined lines := by
  obtain ⟨t, heq, ht⟩ := joined_cons line lines
  rw [heq]
  exact Line.entry_eq_ok_iff hline ht

/-- No line is both a title and a key: a colon follows the identifier, or the line ends. -/
theorem not_keyLine_of_titleLine (hline : Unbroken line) {title : List Char}
    {entry : List Char × List (List Char)} (h : TitleLine line title) : ¬ KeyLine Spaced line entry := by
  intro hkey
  obtain ⟨key, texts⟩ := entry
  have htitle : Line.title (line ++ []) = .ok (title, []) :=
    (Line.title_eq_ok_iff hline .last).mpr ⟨h, rfl⟩
  have hentry : Line.entry (line ++ []) = .ok ((key, texts), []) :=
    (Line.entry_eq_ok_iff hline .last).mpr ⟨hkey, rfl⟩
  obtain ⟨⟨name, after⟩, hname, htitle⟩ := bind_eq_ok.mp htitle
  obtain ⟨rest, hfinish, _⟩ := bind_eq_ok.mp htitle
  obtain ⟨afterKey, afterColon, hname', hcolon, _⟩ := Line.entry_eq_ok.mp hentry
  obtain ⟨rfl, rfl⟩ := Prod.mk.inj (Except.ok.inj (hname.symm.trans hname'))
  unfold Line.colon at hcolon
  split at hcolon
  next rest' heq =>
    have hskipped : Line.skipSpaces (Line.skipSemicolon (':' :: rest')) = ':' :: rest' := rfl
    have hended : Line.finish after = .ok rest := hfinish
    rw [Line.finish, heq, hskipped] at hended
    cases hended
  next => cases hcolon

/-- Lines that no key stands on. -/
def Keyless (lines : List (List Char)) : Prop :=
  ∀ line ∈ lines.head?, ∀ entry, ¬ KeyLine Spaced line entry

theorem entry_keyless (hlines : ∀ line ∈ lines, Unbroken line) (h : Keyless lines) :
    ∃ fault, Line.entry (joined lines) = .error fault := by
  cases hread : Line.entry (joined lines) with
  | error fault => exact ⟨fault, rfl⟩
  | ok found =>
    cases lines with
    | nil => cases hread
    | cons line lines =>
      have hline := hlines line List.mem_cons_self
      exact absurd ((entry_joined hline).mp hread).1 (h line rfl found.1)

theorem moreEntries_ok {s rest : List Char} {entry : List Char × List (List Char)}
    (h : Line.entry s = .ok (entry, rest)) :
    moreEntries s = (entry :: (moreEntries rest).1, (moreEntries rest).2) := by
  rw [moreEntries]
  split
  next found =>
    rw [h] at found
    cases found
    rfl
  next found =>
    rw [h] at found
    cases found

theorem moreEntries_error {s : List Char} {fault : LineFault} (h : Line.entry s = .error fault) :
    moreEntries s = ([], s) := by
  rw [moreEntries]
  split
  next found =>
    rw [h] at found
    cases found
  next => rfl

theorem moreEntries_eq {left : List (List Char)}
    {entries : List (List Char × List (List Char))}
    (hlines : ∀ line ∈ lines ++ left, Unbroken line) (h : List.Forall₂ (KeyLine Spaced) lines entries)
    (hleft : Keyless left) : moreEntries (joined (lines ++ left)) = (entries, joined left) := by
  induction h with
  | nil =>
    obtain ⟨fault, hfault⟩ := entry_keyless hlines hleft
    exact moreEntries_error hfault
  | @cons line entry lines entries hkey _ ih =>
    have hline := hlines line (by simp)
    have hread : Line.entry (joined (line :: (lines ++ left))) = .ok (entry, joined (lines ++ left)) :=
      (entry_joined hline).mpr ⟨hkey, rfl⟩
    rw [List.cons_append, moreEntries_ok hread,
      ih fun other hmem => hlines other (List.mem_cons_of_mem line hmem)]

theorem exists_entries (hlines : ∀ line ∈ lines, Unbroken line) :
    ∃ taken left, lines = taken ++ left ∧
      List.Forall₂ (KeyLine Spaced) taken (moreEntries (joined lines)).1 ∧
      (moreEntries (joined lines)).2 = joined left := by
  induction lines with
  | nil =>
    rw [moreEntries_error rfl]
    exact ⟨[], [], rfl, .nil, rfl⟩
  | cons line lines ih =>
    cases hread : Line.entry (joined (line :: lines)) with
    | error fault =>
      rw [moreEntries_error hread]
      exact ⟨[], line :: lines, rfl, .nil, rfl⟩
    | ok found =>
      obtain ⟨entry, rest⟩ := found
      obtain ⟨hkey, rfl⟩ := (entry_joined (hlines line List.mem_cons_self)).mp hread
      obtain ⟨taken, left, rfl, htaken, hleft⟩ :=
        ih fun other hmem => hlines other (List.mem_cons_of_mem line hmem)
      rw [moreEntries_ok hread]
      exact ⟨line :: taken, left, rfl, .cons hkey htaken, hleft⟩

theorem read_eq {left : List (List Char)} {s : Section}
    (hlines : ∀ line ∈ lines ++ left, Unbroken line) (h : SectionLines Spaced lines s)
    (hleft : Keyless left) : read (joined (lines ++ left)) = .ok (s, joined left) := by
  cases h with
  | @mk line title first later entry entries head key keys =>
    have htitle : Line.title (joined (line :: first :: (later ++ left))) =
        .ok (title, joined (first :: (later ++ left))) :=
      (title_joined (hlines line (by simp))).mpr ⟨head, rfl⟩
    have hfirst : Line.entry (joined (first :: (later ++ left))) =
        .ok (entry, joined (later ++ left)) :=
      (entry_joined (hlines first (by simp))).mpr ⟨key, rfl⟩
    have hmore : moreEntries (joined (later ++ left)) = (entries, joined left) := by
      refine moreEntries_eq (fun other hmem => hlines other ?_) keys hleft
      exact List.mem_cons_of_mem line (List.mem_cons_of_mem first hmem)
    refine bind_eq_ok.mpr ⟨_, htitle, bind_eq_ok.mpr ⟨_, hfirst, ?_⟩⟩
    dsimp only
    rw [hmore]
    rfl

theorem exists_section {s : Section} {rest : List Char} (hlines : ∀ line ∈ lines, Unbroken line)
    (h : read (joined lines) = .ok (s, rest)) :
    ∃ taken left, lines = taken ++ left ∧ SectionLines Spaced taken s ∧ rest = joined left := by
  obtain ⟨⟨title, afterTitle⟩, htitle, h⟩ := bind_eq_ok.mp h
  obtain ⟨⟨entry, afterFirst⟩, hfirst, h⟩ := bind_eq_ok.mp h
  cases lines with
  | nil => cases htitle
  | cons line lines =>
    obtain ⟨hhead, rfl⟩ := (title_joined (hlines line List.mem_cons_self)).mp htitle
    cases lines with
    | nil => cases hfirst
    | cons first lines =>
      obtain ⟨hkey, rfl⟩ := (entry_joined (hlines first (by simp))).mp hfirst
      obtain ⟨taken, left, heq, htaken, hleft⟩ :=
        exists_entries fun other hmem =>
          hlines other (List.mem_cons_of_mem line (List.mem_cons_of_mem first hmem))
      dsimp only at h
      rw [hleft] at h
      cases h
      refine ⟨line :: first :: taken, left, by rw [heq]; rfl, .mk hhead hkey htaken, rfl⟩

theorem readMore_ok {s rest : List Char} {first : Section} (h : read s = .ok (first, rest)) :
    readMore s = (first :: (readMore rest).1, (readMore rest).2) := by
  rw [readMore]
  split
  next found =>
    rw [h] at found
    cases found
    rfl
  next found =>
    rw [h] at found
    cases found

theorem readMore_error {s : List Char} {fault : LineFault} (h : read s = .error fault) :
    readMore s = ([], s) := by
  rw [readMore]
  split
  next found =>
    rw [h] at found
    cases found
  next => rfl

end Reading

/-- A section begins with a title, so no key goes on with the section before it. -/
theorem keyless_of_sectionsLines {lines : List (List Char)} {sections : List Section}
    (hlines : ∀ line ∈ lines, Unbroken line) (h : SectionsLines Spaced lines sections) :
    Keyless lines := by
  intro line hline entry
  cases h with
  | last first =>
    cases first with
    | mk head _ _ =>
      obtain rfl := Option.some.inj hline
      exact not_keyLine_of_titleLine (hlines _ List.mem_cons_self) head
  | more first others =>
    cases first with
    | mk head _ _ =>
      obtain rfl := Option.some.inj hline
      exact not_keyLine_of_titleLine (hlines _ List.mem_cons_self) head

theorem readAll_eq_ok_iff {s rest : List Char} {sections : List Section} :
    readAll s = .ok (sections, rest) ↔ readMore s = (sections, rest) ∧ sections ≠ [] := by
  unfold readAll
  cases hread : read s with
  | error fault =>
    rw [readMore_error hread]
    refine iff_of_false (fun h => by cases h) ?_
    rintro ⟨h, hne⟩
    exact hne (Prod.mk.inj h).1.symm
  | ok found =>
    rw [readMore_ok hread]
    constructor
    · intro h
      have hpair := Except.ok.inj h
      exact ⟨hpair, by rw [← (Prod.mk.inj hpair).1]; exact List.cons_ne_nil _ _⟩
    · rintro ⟨h, _⟩
      exact congrArg Except.ok h

theorem readMore_eq {lines : List (List Char)} {sections : List Section}
    (hlines : ∀ line ∈ lines, Unbroken line) (h : SectionsLines Spaced lines sections) :
    readMore (joined lines) = (sections, []) := by
  induction h with
  | @last lines s first =>
    have hread : read (joined (lines ++ [])) = .ok (s, []) :=
      read_eq (by rwa [List.append_nil]) first (by simp [Keyless])
    rw [List.append_nil] at hread
    rw [readMore_ok hread, readMore_error rfl]
  | @more lines later s sections first others ih =>
    have hlater : ∀ line ∈ later, Unbroken line :=
      fun line hmem => hlines line (List.mem_append_right _ hmem)
    rw [readMore_ok (read_eq hlines first (keyless_of_sectionsLines hlater others)), ih hlater]

/-- Every section that is read stands in the lines, and reading stops at the beginning of a line. -/
theorem exists_sections {lines : List (List Char)} (hlines : ∀ line ∈ lines, Unbroken line) :
    ∃ taken left, lines = taken ++ left ∧ (readMore (joined lines)).2 = joined left ∧
      ((readMore (joined lines)).1 ≠ [] → SectionsLines Spaced taken (readMore (joined lines)).1) ∧
      ((readMore (joined lines)).1 = [] → taken = []) := by
  generalize hs : joined lines = s
  fun_induction readMore s generalizing lines with
  | case1 s first rest found sections rest' more ih =>
    subst hs
    obtain ⟨taken, left, rfl, hfirst, rfl⟩ := exists_section hlines found
    obtain ⟨taken', left', rfl, hrest, hsections, hnone⟩ :=
      ih (fun line hmem => hlines line (List.mem_append_right _ hmem)) rfl
    rw [more] at hrest hsections hnone
    refine ⟨taken ++ taken', left', (List.append_assoc _ _ _).symm, hrest, fun _ => ?_, by simp⟩
    cases sections with
    | nil =>
      rw [hnone rfl, List.append_nil]
      exact .last hfirst
    | cons next sections => exact .more hfirst (hsections (List.cons_ne_nil _ _))
  | case2 s fault found => exact ⟨[], lines, rfl, hs.symm, by simp, by simp⟩

end Section

end Trajectory
