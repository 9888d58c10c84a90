import Trajectory.Proofs.Document.LineGrammar

namespace Trajectory.Line

open Comment (Unbroken)

variable {t rest : List Char}

theorem isFieldChar_iff {c : Char} :
    isFieldChar c = true ↔ c ≠ ',' ∧ c ≠ ';' ∧ c ≠ '\n' ∧ c ≠ '\r' := by
  simp [isFieldChar, and_assoc]

theorem isFieldChar_of_isSpace {c : Char} (h : isSpace c = true) : isFieldChar c = true := by
  rcases isSpace_iff.mp h with rfl | rfl <;> rfl

theorem isBlankText_of_spaced {s : List Char} (h : Spaced s) : Text.isBlankText s = true := by
  refine List.all_eq_true.mpr fun c hc => ?_
  rcases h c hc with rfl | rfl <;> rfl

theorem trim_spaced {g : List Char} (hg : Spaced g) (s : List Char) :
    Text.trim (g ++ s) = Text.trim s := by
  have hblank := List.all_eq_true.mp (isBlankText_of_spaced hg)
  rw [Text.trim, Text.trimStart, List.dropWhile_append_of_pos hblank, Text.trim, Text.trimStart]

theorem field?_eq {field : List Char} (h : IsField field)
    (ht : ∀ c ∈ t.head?, isFieldChar c = false) :
    field? (field ++ t) = some (Text.trim field, t) := by
  have hall : ∀ c ∈ field, isFieldChar c = true := fun c hc => isFieldChar_iff.mpr (h.chars c hc)
  have htext : (Text.trim field).isEmpty = false := by simpa using h.text
  rw [field?, Text.takeWhile_eq hall ht, Text.dropWhile_eq hall ht]
  simp [htext]

/-- Spaces before a field are skipped, and those that it begins with make no difference to it. -/
theorem field?_skipSpaces {g field : List Char} (hg : Spaced g) (h : IsField field)
    (ht : ∀ c ∈ t.head?, isFieldChar c = false) :
    field? (skipSpaces (g ++ (field ++ t))) = some (Text.trim field, t) := by
  obtain ⟨b, hb, heq⟩ := exists_spaces field
  have htrim : Text.trim field = Text.trim (skipSpaces field) := by
    conv => lhs; rw [heq]
    exact trim_spaced hb _
  have hown : IsField (skipSpaces field) := by
    refine ⟨fun c hc => h.chars c ?_, htrim ▸ h.text⟩
    rw [heq]
    exact List.mem_append_right _ hc
  have hhead : ∀ c ∈ (skipSpaces field ++ t).head?, isSpace c = false := by
    intro c hc
    cases hskipped : skipSpaces field with
    | nil => exact absurd (by rw [hskipped]; rfl) hown.text
    | cons d own =>
      rw [hskipped, List.cons_append] at hc
      exact head_skipSpaces field c (by rw [hskipped]; exact hc)
  have hsplit : g ++ (field ++ t) = (g ++ b) ++ (skipSpaces field ++ t) := by
    conv => lhs; rw [heq]
    simp only [List.append_assoc]
  rw [hsplit, skipSpaces_eq (hg.append hb) hhead, field?_eq hown ht, htrim]

theorem field?_eq_none (ht : ∀ c ∈ t.head?, isFieldChar c = false) : field? t = none := by
  have hnone : t.takeWhile isFieldChar = [] := Text.takeWhile_append [] ht
  rw [field?, hnone]
  rfl

def listed (fields : List (List Char)) : List Char := fields.flatMap fun field => ',' :: field

theorem intercalate_cons (field : List Char) (fields : List (List Char)) :
    [','].intercalate (field :: fields) = field ++ listed fields := by
  induction fields generalizing field with
  | nil => simp [listed]
  | cons next fields ih =>
    rw [List.intercalate_cons_cons, ih, listed, listed, List.flatMap_cons]
    simp

/-- Where the fields of a line end. -/
def EndsFields (t : List Char) : Prop := ∀ c ∈ t.head?, isFieldChar c = false ∧ c ≠ ','

theorem EndsFields.listed (ht : EndsFields t) (fields : List (List Char)) :
    ∀ c ∈ (listed fields ++ t).head?, isFieldChar c = false := by
  intro c hc
  cases fields with
  | nil => exact (ht c hc).1
  | cons field fields =>
    obtain rfl : ',' = c := by simpa [Line.listed] using hc
    rfl

theorem moreFields_of_head {s : List Char} (h : ∀ c ∈ s.head?, c ≠ ',') : moreFields s = ([], s) := by
  unfold moreFields
  split
  next later => exact absurd rfl (h ',' rfl)
  next => rfl

theorem moreFields_some {later field after : List Char}
    (h : field? (skipSpaces later) = some (field, after)) :
    moreFields (',' :: later) = (field :: (moreFields after).1, (moreFields after).2) := by
  rw [moreFields]
  split
  next found =>
    rw [h] at found
    cases found
    rfl
  next found =>
    rw [h] at found
    cases found

theorem moreFields_none {later : List Char} (h : field? (skipSpaces later) = none) :
    moreFields (',' :: later) = ([], ',' :: later) := by
  rw [moreFields]
  split
  next found =>
    rw [h] at found
    cases found
  next => rfl

theorem moreFields_eq {fields : List (List Char)} (h : ∀ field ∈ fields, IsField field)
    (ht : EndsFields t) : moreFields (listed fields ++ t) = (fields.map Text.trim, t) := by
  induction fields with
  | nil => exact moreFields_of_head fun c hc => (ht c hc).2
  | cons field fields ih =>
    have hread := field?_skipSpaces (g := []) spaced_nil (h field List.mem_cons_self)
      (ht.listed fields)
    have hmore := ih fun other hmem => h other (List.mem_cons_of_mem field hmem)
    have hsplit : listed (field :: fields) ++ t = ',' :: ([] ++ (field ++ (listed fields ++ t))) := by
      simp [listed]
    rw [hsplit, moreFields_some hread, hmore, List.map_cons]

theorem fields_eq {g : List Char} {fields : List (List Char)} (hg : Spaced g)
    (h : ∀ field ∈ fields, IsField field) (ht : EndsFields t)
    (hspace : ∀ c ∈ t.head?, isSpace c = false) :
    Line.fields (g ++ ([','].intercalate fields ++ t)) = (fields.map Text.trim, t) := by
  cases fields with
  | nil =>
    rw [List.intercalate_nil, List.nil_append, Line.fields, skipSpaces_eq hg hspace,
      field?_eq_none fun c hc => (ht c hc).1]
    rfl
  | cons field fields =>
    have hread := field?_skipSpaces hg (h field List.mem_cons_self) (ht.listed fields)
    have hmore := moreFields_eq (fun other hmem => h other (List.mem_cons_of_mem field hmem)) ht
    rw [intercalate_cons, List.append_assoc, Line.fields, hread]
    simp only [hmore, List.map_cons]

theorem field?_append (s : List Char) (ht : ∀ c ∈ t.head?, isFieldChar c = false) :
    field? (s ++ t) = (field? s).map fun found => (found.1, found.2 ++ t) := by
  rw [field?, field?, Text.takeWhile_append s ht, Text.dropWhile_append s ht]
  split <;> rfl

theorem skipped_append (s : List Char) (ht : Following t rest) :
    field? (skipSpaces (s ++ t)) =
      (field? (skipSpaces s)).map fun found => (found.1, found.2 ++ t) := by
  rw [skipSpaces_append s (ht.head rfl), field?_append _ (ht.head rfl)]

theorem moreFields_append (s : List Char) (ht : Following t rest) :
    moreFields (s ++ t) = ((moreFields s).1, (moreFields s).2 ++ t) := by
  fun_induction moreFields s with
  | case1 later field after found fields rest' more ih =>
    have hread : field? (skipSpaces (later ++ t)) = some (field, after ++ t) := by
      rw [skipped_append later ht, found]
      rfl
    rw [List.cons_append, moreFields_some hread, ih, more]
  | case2 later found =>
    have hread : field? (skipSpaces (later ++ t)) = none := by
      rw [skipped_append later ht, found]
      rfl
    rw [List.cons_append, moreFields_none hread]
  | case3 s hs =>
    refine moreFields_of_head fun c hc hcomma => ?_
    cases s with
    | nil => cases (ht.head (p := (· == ',')) rfl c hc).symm.trans (beq_iff_eq.mpr hcomma)
    | cons d s =>
      obtain rfl : d = c := by simpa using hc
      exact hs s (by rw [hcomma])

theorem fields_append (s : List Char) (ht : Following t rest) :
    Line.fields (s ++ t) = ((Line.fields s).1, (Line.fields s).2 ++ t) := by
  rw [Line.fields, skipped_append s ht, skipSpaces_append s (ht.head rfl), Line.fields]
  cases field? (skipSpaces s) with
  | none => rfl
  | some found => simp only [Option.map_some, moreFields_append found.2 ht]

theorem IsField.spaced {g field : List Char} (h : IsField field) (hg : Spaced g) :
    IsField (g ++ field) where
  chars c hc := by
    rcases List.mem_append.mp hc with hc | hc
    · exact isFieldChar_iff.mp (isFieldChar_of_isSpace (spaced_iff.mp hg c hc))
    · exact h.chars c hc
  text := by
    rw [trim_spaced hg]
    exact h.text

theorem exists_field {s field after : List Char} (h : field? (skipSpaces s) = some (field, after)) :
    ∃ own, IsField own ∧ s = own ++ after ∧ field = Text.trim own ∧
      ∀ c ∈ after.head?, isFieldChar c = false := by
  obtain ⟨g, hg, heq⟩ := exists_spaces s
  unfold field? at h
  dsimp only at h
  split at h
  next => cases h
  next htext =>
    cases h
    have hown : IsField ((skipSpaces s).takeWhile isFieldChar) := by
      refine ⟨fun c hc => isFieldChar_iff.mp ?_, by simpa using htext⟩
      exact List.all_eq_true.mp List.all_takeWhile c hc
    refine ⟨_, hown.spaced hg, ?_, (trim_spaced hg _).symm, Text.dropWhile_head⟩
    rw [List.append_assoc, List.takeWhile_append_dropWhile, ← heq]

theorem isSpace_of_isFieldChar {c : Char} (h : isFieldChar c = false) : isSpace c = false :=
  Bool.eq_false_iff.mpr fun hspace => by simp [isFieldChar_of_isSpace hspace] at h

theorem exists_listed {s : List Char} (hs : ∀ c ∈ s.head?, isSpace c = false) :
    ∃ fields, (∀ field ∈ fields, IsField field) ∧ s = listed fields ++ (moreFields s).2 ∧
      (moreFields s).1 = fields.map Text.trim ∧
      ∀ c ∈ (moreFields s).2.head?, isSpace c = false := by
  fun_induction moreFields s with
  | case1 later field after found fields rest more ih =>
    obtain ⟨own, hown, rfl, rfl, hafter⟩ := exists_field found
    obtain ⟨others, hothers, heq, hmap, hrest⟩ := ih fun c hc => isSpace_of_isFieldChar (hafter c hc)
    rw [more] at heq hmap hrest
    refine ⟨own :: others, ?_, ?_, ?_, hrest⟩
    · intro other hmem
      rcases List.mem_cons.mp hmem with rfl | hmem
      · exact hown
      · exact hothers other hmem
    · conv => lhs; rw [heq]
      simp [listed]
    · exact congrArg (Text.trim own :: ·) hmap
  | case2 => exact ⟨[], by simp, rfl, rfl, hs⟩
  | case3 => exact ⟨[], by simp, rfl, rfl, hs⟩

/-- What is read as fields stands so on the line, after spaces, and no spaces are left after it. -/
theorem exists_fields (s : List Char) : ∃ g fields, Spaced g ∧ (∀ field ∈ fields, IsField field) ∧
    s = g ++ ([','].intercalate fields ++ (Line.fields s).2) ∧
    (Line.fields s).1 = fields.map Text.trim ∧ ∀ c ∈ (Line.fields s).2.head?, isSpace c = false := by
  unfold Line.fields
  split
  next field after found =>
    obtain ⟨own, hown, rfl, rfl, hafter⟩ := exists_field found
    obtain ⟨others, hothers, heq, hmap, hrest⟩ :=
      exists_listed fun c hc => isSpace_of_isFieldChar (hafter c hc)
    refine ⟨[], own :: others, spaced_nil, ?_, ?_, ?_, hrest⟩
    · intro other hmem
      rcases List.mem_cons.mp hmem with rfl | hmem
      · exact hown
      · exact hothers other hmem
    · rw [intercalate_cons, List.nil_append, List.append_assoc, ← heq]
    · simp only [hmap, List.map_cons]
  next =>
    obtain ⟨g, hg, heq⟩ := exists_spaces s
    refine ⟨g, [], hg, by simp, ?_, rfl, head_skipSpaces s⟩
    rw [List.intercalate_nil, List.nil_append]
    exact heq

theorem exists_padded {s field : List Char} {fields : List (List Char)} (hs : Spaced s)
    (h : ∀ other ∈ field :: fields, IsField other) :
    ∃ field' fields', (∀ other ∈ field' :: fields', IsField other) ∧
      [','].intercalate (field :: fields) ++ s = [','].intercalate (field' :: fields') ∧
      (field :: fields).map Text.trim = (field' :: fields').map Text.trim := by
  induction fields generalizing field with
  | nil =>
    have htrim : Text.trim (field ++ s) = Text.trim field :=
      Text.trim_append (isBlankText_of_spaced hs)
    have hfield := h field List.mem_cons_self
    have hpadded : IsField (field ++ s) := by
      refine ⟨fun c hc => ?_, htrim ▸ hfield.text⟩
      rcases List.mem_append.mp hc with hc | hc
      · exact hfield.chars c hc
      · exact isFieldChar_iff.mp (isFieldChar_of_isSpace (spaced_iff.mp hs c hc))
    exact ⟨field ++ s, [], by simpa using hpadded, by simp, by simp [htrim]⟩
  | cons next fields ih =>
    obtain ⟨next', fields', hall, heq, hmap⟩ :=
      ih fun other hmem => h other (List.mem_cons_of_mem field hmem)
    refine ⟨field, next' :: fields', ?_, ?_, by rw [List.map_cons, hmap]; rfl⟩
    · intro other hmem
      rcases List.mem_cons.mp hmem with rfl | hmem
      · exact h other List.mem_cons_self
      · exact hall other hmem
    · rw [List.intercalate_cons_cons, List.append_assoc, heq, List.intercalate_cons_cons]

/-- A list of fields with the end of its line, the spaces before the end taken to the last field. -/
theorem exists_tight {g t : List Char} {fields : List (List Char)} (hg : Spaced g)
    (h : ∀ field ∈ fields, IsField field) (ht : Closing t) :
    ∃ g' fields' t', Spaced g' ∧ (∀ field ∈ fields', IsField field) ∧
      g ++ ([','].intercalate fields ++ t) = g' ++ ([','].intercalate fields' ++ t') ∧
      fields.map Text.trim = fields'.map Text.trim ∧ Closing t' ∧ EndsFields t' := by
  cases ht with
  | semicolon hs =>
    exact ⟨g, fields, _, hg, h, rfl, rfl, .semicolon hs, by simp [EndsFields, isFieldChar]⟩
  | plain hs =>
    have hends : EndsFields [] := by simp [EndsFields]
    cases fields with
    | nil =>
      exact ⟨g ++ t, [], [], hg.append hs, h, by simp, rfl, .plain spaced_nil, hends⟩
    | cons field fields =>
      obtain ⟨field', fields', hall, heq, hmap⟩ := exists_padded hs h
      exact ⟨g, field' :: fields', [], hg, hall, by rw [heq, List.append_nil], hmap,
        .plain spaced_nil, hends⟩

variable {line : List Char}

theorem title_eq_ok_iff (hline : Unbroken line) (ht : Following t rest)
    {found : List Char × List Char} :
    title (line ++ t) = .ok found ↔ TitleLine line found.1 ∧ found.2 = rest := by
  obtain ⟨name, after⟩ := found
  constructor
  · intro h
    obtain ⟨⟨own, later⟩, hname, h⟩ := bind_eq_ok.mp h
    obtain ⟨after', hfinish, h⟩ := bind_eq_ok.mp h
    cases h
    obtain ⟨b, later, hb, hword, _, rfl, rfl⟩ := (identifier_eq_ok_iff ht).mp hname
    have hlater : Unbroken later := hline.append_right.append_right
    obtain ⟨⟨m, s, hm, hs, rfl⟩, rfl⟩ := (finish_eq_ok_iff hlater ht).mp hfinish
    exact ⟨.mk hb hword hm hs, rfl⟩
  · rintro ⟨h, rfl⟩
    dsimp only at h
    cases h with
    | @mk b _ m s hb hword hm hs =>
      have hlater : Unbroken (m ++ s) := hline.append_right.append_right
      have hname := (identifier_eq_ok_iff ht).mpr
        ⟨b, m ++ s, hb, hword, head_between hm hs.head, rfl, rfl⟩
      have hfinish := (finish_eq_ok_iff hlater ht).mpr ⟨⟨m, s, hm, hs, rfl⟩, rfl⟩
      exact bind_eq_ok.mpr ⟨_, hname, bind_eq_ok.mpr ⟨_, hfinish, rfl⟩⟩

theorem entry_eq_ok {s key after : List Char} {texts : List (List Char)} :
    entry s = .ok ((key, texts), after) ↔ ∃ afterKey afterColon,
      identifier s = .ok (key, afterKey) ∧ colon afterKey = .ok afterColon ∧
      (Line.fields afterColon).1 = texts ∧ finish (Line.fields afterColon).2 = .ok after := by
  constructor
  · intro h
    obtain ⟨⟨own, afterKey⟩, hkey, h⟩ := bind_eq_ok.mp h
    obtain ⟨afterColon, hcolon, h⟩ := bind_eq_ok.mp h
    obtain ⟨rest, hfinish, h⟩ := bind_eq_ok.mp h
    have hpair := Except.ok.inj h
    rw [← (Prod.mk.inj hpair).2, ← (Prod.mk.inj (Prod.mk.inj hpair).1).1]
    exact ⟨afterKey, afterColon, hkey, hcolon, (Prod.mk.inj (Prod.mk.inj hpair).1).2, hfinish⟩
  · rintro ⟨afterKey, afterColon, hkey, hcolon, rfl, hfinish⟩
    exact bind_eq_ok.mpr ⟨_, hkey, bind_eq_ok.mpr ⟨_, hcolon, bind_eq_ok.mpr ⟨_, hfinish, rfl⟩⟩⟩

/-- A line is read as a key with its fields if and only if it is one. -/
theorem entry_eq_ok_iff (hline : Unbroken line) (ht : Following t rest)
    {found : (List Char × List (List Char)) × List Char} :
    entry (line ++ t) = .ok found ↔ KeyLine Spaced line found.1 ∧ found.2 = rest := by
  obtain ⟨⟨key, texts⟩, after⟩ := found
  constructor
  · intro h
    obtain ⟨afterKey, afterColon, hkey, hcolon, htexts, hfinish⟩ := entry_eq_ok.mp h
    obtain ⟨b, later, hb, hword, _, rfl, rfl⟩ := (identifier_eq_ok_iff ht).mp hkey
    obtain ⟨m, later, hm, rfl, rfl⟩ := (colon_eq_ok_iff ht).mp hcolon
    obtain ⟨g, fields, hg, hfields, heq, hmap, hhead⟩ := exists_fields later
    rw [fields_append later ht] at htexts hfinish
    have hrest : Unbroken (Line.fields later).2 := by
      have hlater : Unbroken ([':'] ++ later) := hline.append_right.append_right.append_right
      rw [heq] at hlater
      exact hlater.append_right.append_right.append_right
    obtain ⟨hended, rfl⟩ := (finish_eq_ok_iff hrest ht).mp hfinish
    have hkeyLine : KeyLine Spaced (b ++ (key ++ (m ++ ':' :: (g ++ ([','].intercalate fields ++
        (Line.fields later).2))))) (key, fields.map Text.trim) :=
      .mk hb hword hm hg hfields (hended.closing hhead)
    rw [← heq, ← hmap, htexts] at hkeyLine
    exact ⟨hkeyLine, rfl⟩
  · rintro ⟨h, rfl⟩
    dsimp only at h
    cases h with
    | @mk b _ m g s fields hb hword hm hg hfields hs =>
      obtain ⟨g', fields', s', hg', hfields', heq, hmap, hs', hends⟩ := exists_tight hg hfields hs
      rw [heq] at hline ⊢
      have hrest : Unbroken s' := by
        have hlater : Unbroken ([':'] ++ (g' ++ ([','].intercalate fields' ++ s'))) :=
          hline.append_right.append_right.append_right
        exact hlater.append_right.append_right.append_right
      have hcolonHead : ∀ c ∈ (':' :: (g' ++ ([','].intercalate fields' ++ s'))).head?,
          Text.isWordChar c = false := by
        intro c hc
        obtain rfl : ':' = c := by simpa using hc
        rfl
      have hkey := (identifier_eq_ok_iff ht).mpr
        ⟨b, _, hb, hword, head_between hm hcolonHead, rfl, rfl⟩
      have hcolon := (colon_eq_ok_iff ht).mpr
        ⟨m, g' ++ ([','].intercalate fields' ++ s'), hm, rfl, rfl⟩
      have hread := fields_eq hg' hfields' hends fun c hc => isSpace_of_isFieldChar (hends c hc).1
      have hfinish := (finish_eq_ok_iff hrest ht).mpr
        ⟨⟨[], s', spaced_nil, hs', rfl⟩, rfl⟩
      refine entry_eq_ok.mpr ⟨_, _, hkey, hcolon, ?_⟩
      rw [fields_append _ ht, hread, hmap]
      exact ⟨rfl, hfinish⟩

end Trajectory.Line
