import Trajectory.Proofs.Document.Tables
import Trajectory.Proofs.Number.Fraction
import Trajectory.Proofs.Settings.Standard
import Trajectory.Proofs.Task.Changes

namespace Trajectory

namespace Document

variable {α : Type}

/-- The same section, its keys in any order. -/
def SameSection (s s' : String × Entries α) : Prop := s.1 = s'.1 ∧ s.2.list.Perm s'.2.list

/-- The same document, its sections and the keys of each in any order. -/
def Reordered (d d' : Document α) : Prop :=
  ∃ sections, List.Forall₂ SameSection d.sections sections ∧ sections.Perm d'.sections

theorem titles_of_sameSection {sections sections' : List (String × Entries α)}
    (h : List.Forall₂ SameSection sections sections') :
    sections.map Prod.fst = sections'.map Prod.fst := by
  induction h with
  | nil => rfl
  | cons hs _ ih => rw [List.map_cons, List.map_cons, hs.1, ih]

theorem Tidy.keys_of_mem {d : Document α} (h : d.Tidy) {s : String × Entries α}
    (hs : s ∈ d.sections) : (s.2.list.map Prod.fst).Nodup :=
  h.keys s.1 s.2 (lookup_of_mem hs h.titles)

end Document

namespace Task

open Document (SameSection)

variable {α : Type} [Scalar α] [Numeral α]

theorem readSection_perm_iff {t u : Task α} {title : String} {entries entries' : Entries α}
    (hkeys : (entries.list.map Prod.fst).Nodup) (h : entries.list.Perm entries'.list) :
    readSection t title entries = .ok u ↔ readSection t title entries' = .ok u :=
  ⟨readSection_perm hkeys h, readSection_perm ((h.map Prod.fst).nodup_iff.mp hkeys) h.symm⟩

/-- Reads sections one after the other. -/
def readSections (t : Task α) (sections : List (String × Entries α)) :
    Except (SolverError α) (Task α) :=
  sections.foldlM (fun t s => readSection t s.1 s.2) t

theorem readSections_keys_iff {sections sections' : List (String × Entries α)}
    (h : List.Forall₂ SameSection sections sections')
    (hkeys : ∀ s ∈ sections, (s.2.list.map Prod.fst).Nodup) {t u : Task α} :
    readSections t sections = .ok u ↔ readSections t sections' = .ok u := by
  induction h generalizing t with
  | nil => exact Iff.rfl
  | @cons s s' _ _ hs _ ih =>
    obtain ⟨htitle, hperm⟩ := hs
    obtain ⟨hfirst, hrest⟩ := List.forall_mem_cons.mp hkeys
    refine bind_eq_ok.trans (Iff.trans (exists_congr fun v => ?_) bind_eq_ok.symm)
    refine and_congr ?_ (ih hrest)
    dsimp only
    rw [htitle]
    exact readSection_perm_iff hfirst hperm

theorem readSections_perm {sections sections' : List (String × Entries α)}
    (h : sections.Perm sections') (htitles : (sections.map Prod.fst).Nodup) {t u : Task α} :
    readSections t sections = .ok u ↔ readSections t sections' = .ok u := by
  have htitles' := (h.map Prod.fst).nodup_iff.mp htitles
  have happly {sections sections' : List (String × Entries α)} (h : sections.Perm sections')
      (htitles : (sections.map Prod.fst).Nodup) (hread : readSections t sections = .ok u) :
      readSections t sections' = .ok u :=
    readSection_changes.foldlM_perm (fun _ _ _ _ => SectionChange.commute) h htitles hread
  exact ⟨happly h htitles, happly h.symm htitles'⟩

theorem readSections_reordered {d d' : Document α} (htidy : d.Tidy) (h : d.Reordered d')
    {t u : Task α} : readSections t d.sections = .ok u ↔ readSections t d'.sections = .ok u := by
  obtain ⟨sections, hsections, hperm⟩ := h
  refine (readSections_keys_iff hsections fun s => htidy.keys_of_mem).trans ?_
  exact readSections_perm hperm (Document.titles_of_sameSection hsections ▸ htidy.titles)

section Equations

omit [Scalar α] in
theorem readEquations_eq_ok {t u : Task α} {key : String} {values : List (Value α)}
    (h : readEquations t key values = .ok u) :
    key = "eq" ∧ u.equations = t.equations ++ values.map Value.toText := by
  unfold readEquations at h
  split at h
  next hkey =>
    cases h
    exact ⟨hkey, rfl⟩
  next => cases h

omit [Scalar α] in
theorem equations_of_readEntries {t u : Task α} {entries : Entries α}
    (hkeys : (entries.list.map Prod.fst).Nodup)
    (h : readEntries readEquations t entries = .ok u) :
    u.equations = t.equations ++ ((entries.list.lookup "eq").getD []).map Value.toText := by
  obtain ⟨list⟩ := entries
  cases list with
  | nil =>
    cases h
    exact (List.append_nil _).symm
  | cons entry list =>
    obtain ⟨t₁, hentry, hrest⟩ := bind_eq_ok.mp h
    obtain ⟨hkey, hequations⟩ := readEquations_eq_ok hentry
    cases list with
    | nil =>
      cases hrest
      rw [lookup_cons, if_pos hkey.symm]
      exact hequations
    | cons entry' list =>
      obtain ⟨_, hentry', _⟩ := bind_eq_ok.mp hrest
      obtain ⟨hkey', _⟩ := readEquations_eq_ok hentry'
      have hnew := (List.nodup_cons.mp hkeys).1
      rw [List.map_cons, List.mem_cons, hkey, hkey'] at hnew
      exact absurd (.inl rfl) hnew

omit [Scalar α] [Numeral α] in
theorem SectionChange.equations {title : String} {f : Task α → Task α} (hf : SectionChange title f)
    (htitle : title ≠ "equations") (t : Task α) : (f t).equations = t.equations := by
  refine Composite.keeps hf (K := fun u => u.equations = t.equations) ?_ rfl
  rintro f u ⟨p, rfl, hwrite⟩ hu
  cases hwrite with
  | equations _ => exact absurd rfl htitle
  | _ => exact hu

def equationTexts (sections : List (String × Entries α)) : List String :=
  (((sections.lookup "equations").bind fun entries => entries.list.lookup "eq").getD []).map
    Value.toText

theorem equations_of_readSections {sections : List (String × Entries α)}
    (htitles : (sections.map Prod.fst).Nodup)
    (hkeys : ∀ s ∈ sections, (s.2.list.map Prod.fst).Nodup) {t u : Task α}
    (h : readSections t sections = .ok u) :
    u.equations = t.equations ++ equationTexts sections := by
  induction sections generalizing t with
  | nil =>
    cases h
    exact (List.append_nil _).symm
  | cons s sections ih =>
    obtain ⟨title, entries⟩ := s
    obtain ⟨hnew, htitles⟩ := List.nodup_cons.mp htitles
    obtain ⟨hentries, hkeys⟩ := List.forall_mem_cons.mp hkeys
    obtain ⟨t₁, hsection, hrest⟩ := bind_eq_ok.mp h
    have hlater := ih htitles hkeys hrest
    by_cases htitle : title = "equations"
    · subst htitle
      have hnone : sections.lookup "equations" = none := by
        refine List.lookup_eq_none_iff.mpr fun s hs => ?_
        refine bne_iff_ne.mpr fun heq => hnew ?_
        have hmem : s.1 ∈ sections.map Prod.fst := List.mem_map_of_mem hs
        rwa [← heq] at hmem
      have hnomore : equationTexts sections = [] := by
        rw [equationTexts, hnone]
        rfl
      rw [hlater, hnomore, List.append_nil, equations_of_readEntries hentries hsection, equationTexts,
        lookup_cons, if_pos rfl]
      rfl
    · obtain ⟨f, hf, hread⟩ := readSection_changes hsection
      obtain rfl : t₁ = f t := Except.ok.inj (hsection.symm.trans (hread t))
      rw [hlater, hf.equations htitle, equationTexts, equationTexts, lookup_cons,
        if_neg (Ne.symm htitle)]

end Equations

section Sound

/-- The settings of the task have passed their checks. -/
structure Sound (t : Task α) : Prop where
  range : ∀ r, t.range? = some r → r.Valid
  tolerance : ∀ tolerance, t.tolerance? = some tolerance → tolerance.validate = .ok ()

omit [Numeral α] in
/-- Ranges and tolerances have no entries of their own in a task. -/
theorem EntryChange.sound {title key : String} {f : Task α → Task α} (hf : EntryChange title key f)
    {t : Task α} (ht : t.Sound) : (f t).Sound := by
  obtain ⟨p, _, hkey, hwrite⟩ := hf
  cases hwrite with
  | range _ => cases hkey
  | tolerance _ => cases hkey
  | _ => exact ⟨ht.range, ht.tolerance⟩

omit [Numeral α] in
theorem sound_of_readEntries {title : String}
    {read : Task α → String → List (Value α) → Except (SolverError α) (Task α)}
    (hread : Changes read (EntryChange title)) {t u : Task α} {entries : Entries α}
    (h : readEntries read t entries = .ok u) (ht : t.Sound) : u.Sound :=
  hread.foldlM_keeps (fun _ _ _ hf => hf.sound) h ht

theorem sound_of_readSection {t u : Task α} {title : String} {entries : Entries α}
    (h : readSection t title entries = .ok u) (ht : t.Sound) : u.Sound := by
  unfold readSection at h
  split at h
  next => exact sound_of_readEntries readEquations_changes h ht
  next => exact sound_of_readEntries readConditions_changes h ht
  next =>
    obtain ⟨read, _, h⟩ := bind_eq_ok.mp h
    obtain ⟨range, hmake, h⟩ := bind_eq_ok.mp h
    cases h
    refine ⟨fun r hr => ?_, ht.tolerance⟩
    obtain rfl := Option.some.inj hr
    exact Range.valid_of_make (mapError_eq_ok.mp hmake)
  next =>
    obtain ⟨read, _, h⟩ := bind_eq_ok.mp h
    obtain ⟨_, hvalid, h⟩ := bind_eq_ok.mp h
    cases h
    refine ⟨ht.range, fun tolerance htolerance => ?_⟩
    obtain rfl := Option.some.inj htolerance
    exact mapError_eq_ok.mp hvalid
  next => exact sound_of_readEntries readSolver_changes h ht
  next => exact sound_of_readEntries readOutput_changes h ht
  next => cases h

theorem sound_of_readSections {sections : List (String × Entries α)} {t u : Task α}
    (h : readSections t sections = .ok u) (ht : t.Sound) : u.Sound := by
  induction sections generalizing t with
  | nil =>
    cases h
    exact ht
  | cons s sections ih =>
    obtain ⟨t₁, hsection, hrest⟩ := bind_eq_ok.mp h
    exact ih hrest (sound_of_readSection hsection ht)

theorem ofDocument_eq_ok_iff {d : Document α} {t : Task α} :
    ofDocument d = .ok t ↔ readSections {} d.sections = .ok t ∧ t.equations ≠ [] := by
  constructor
  · intro h
    obtain ⟨u, hread, h⟩ := bind_eq_ok.mp h
    dsimp only at h
    split at h
    next => cases h
    next hsome =>
      cases h
      exact ⟨hread, by simpa using hsome⟩
  · rintro ⟨hread, hsome⟩
    refine bind_eq_ok.mpr ⟨t, hread, ?_⟩
    dsimp only
    rw [if_neg (by simpa using hsome)]
    rfl

theorem sound_of_ofDocument {d : Document α} {t : Task α} (h : ofDocument d = .ok t) : t.Sound :=
  sound_of_readSections (ofDocument_eq_ok_iff.mp h).1 ⟨nofun, nofun⟩

theorem sound_of_ofText {s : String} {t : Task α} (h : ofText s = .ok t) : t.Sound := by
  obtain ⟨d, _, h⟩ := bind_eq_ok.mp h
  exact sound_of_ofDocument h

end Sound

/-- A document is read as the same task in whatever order its sections and their keys are visited, with
the texts of its equations and settings that have passed their checks. -/
theorem ofDocument_reordered {d d' : Document α} (htidy : d.Tidy) (h : d.Reordered d')
    (t : Task α) : (ofDocument d = .ok t ↔ ofDocument d' = .ok t) ∧
    (ofDocument d = .ok t → t.Sound ∧ t.equations ≠ [] ∧
      ∃ values, d.get? "equations" "eq" = some values ∧
        t.equations = values.map Value.toText) := by
  refine ⟨?_, fun hread => ?_⟩
  · rw [ofDocument_eq_ok_iff, ofDocument_eq_ok_iff]
    exact and_congr_left fun _ => readSections_reordered htidy h
  · obtain ⟨hsections, hsome⟩ := ofDocument_eq_ok_iff.mp hread
    refine ⟨sound_of_ofDocument hread, hsome, ?_⟩
    have hequations : t.equations = ((d.get? "equations" "eq").getD []).map Value.toText :=
      equations_of_readSections htidy.titles (fun _ => htidy.keys_of_mem) hsections
    cases hvalues : d.get? "equations" "eq" with
    | none =>
      rw [hvalues] at hequations
      exact absurd hequations hsome
    | some values =>
      rw [hvalues] at hequations
      exact ⟨values, rfl, hequations⟩

/-- A range whose start is not below the standard end. -/
def lateSource : String := "equations\neq: y' = -y, z' = y\nrange\nstart: 2\nend: 3.5"

def lateDocument : Document Fraction where
  sections := [("equations", ⟨[("eq", [.text "y' = -y", .text "z' = y"])]⟩),
    ("range", ⟨[("start", [.integer 2]), ("end", [.real ⟨7 / 2⟩])]⟩)]

/-- The same with the end before the start and the range before the equations. -/
def backwardDocument : Document Fraction where
  sections := [("range", ⟨[("end", [.real ⟨7 / 2⟩]), ("start", [.integer 2])]⟩),
    ("equations", ⟨[("eq", [.text "y' = -y", .text "z' = y"])]⟩)]

theorem ofDocument_reordered_late : lateDocument.Tidy ∧ lateDocument.Reordered backwardDocument ∧
    Document.ofText lateSource = .ok lateDocument ∧
    ∃ t, ofDocument lateDocument = .ok t ∧ ofDocument backwardDocument = .ok t ∧
      t.equations = ["y' = -y", "z' = y"] := by
  have hread : Document.ofText lateSource = .ok lateDocument := by decide +kernel
  have htidy := Document.tidy_of_ofText hread
  have hreordered : lateDocument.Reordered backwardDocument :=
    ⟨[lateDocument.sections[0], backwardDocument.sections[0]],
      .cons ⟨rfl, .refl _⟩ (.cons ⟨rfl, .swap _ _ _⟩ .nil), .swap _ _ _⟩
  have htask : (ofDocument lateDocument).isOk = true := by decide +kernel
  cases h : ofDocument lateDocument with
  | error e =>
    rw [h] at htask
    cases htask
  | ok t =>
    obtain ⟨hiff, hfacts⟩ := ofDocument_reordered htidy hreordered t
    obtain ⟨_, _, values, hvalues, hequations⟩ := hfacts h
    refine ⟨htidy, hreordered, hread, t, rfl, hiff.mp h, ?_⟩
    obtain rfl := Option.some.inj hvalues
    exact hequations

end Task

end Trajectory
