import Mathlib.Algebra.Group.Int.Defs
import Mathlib.Data.List.Forall2
import Mathlib.Data.List.Nodup
import Trajectory.Document.Basic
import Trajectory.Outcome

namespace Trajectory

namespace Value

variable {α : Type} [Scalar α]

/-- A text that is an integer of 64 bits. -/
def IsShort (s : List Char) (n : Int) : Prop :=
  Decimal.integer? s = some n ∧ -2 ^ 63 ≤ n ∧ n < 2 ^ 63

/-- The value of a field: the first of an integer, a number, a truth value and a text that it is. -/
inductive Typed : List Char → Value α → Prop where
  | integer {s : List Char} {n : Int} (short : IsShort s n) : Typed s (integer n)
  | real {s : List Char} {x : α} (noInteger : ∀ n, ¬ IsShort s n)
    (number : Scalar.ofText? s = some x) : Typed s (real x)
  | flag {s : List Char} {b : Bool} (noInteger : ∀ n, ¬ IsShort s n)
    (noNumber : (Scalar.ofText? s : Option α) = none) (word : s = (toString b).toList) :
    Typed s (flag b)
  | text {s : List Char} (noInteger : ∀ n, ¬ IsShort s n)
    (noNumber : (Scalar.ofText? s : Option α) = none) (noWord : ∀ b : Bool, s ≠ (toString b).toList) :
    Typed s (text (String.ofList s))

theorem filter_isShort {s : List Char} {n : Int} :
    (Decimal.integer? s).filter isShort = some n ↔ IsShort s n := by
  rw [Option.filter_eq_some_iff, IsShort, isShort, Bool.and_eq_true, decide_eq_true_iff,
    decide_eq_true_iff]
  exact Iff.rfl

theorem flag?_eq_some {s : List Char} {b : Bool} : flag? s = some b ↔ s = (toString b).toList := by
  have htrue : (toString true).toList = ['t', 'r', 'u', 'e'] := rfl
  have hfalse : (toString false).toList = ['f', 'a', 'l', 's', 'e'] := rfl
  unfold flag?
  cases b with
  | true =>
    rw [htrue]
    split <;> simp_all
  | false =>
    rw [hfalse]
    split <;> simp_all

theorem typed_ofField (s : List Char) : Typed s (ofField s : Value α) := by
  unfold ofField
  split
  next n h => exact .integer (filter_isShort.mp h)
  next hinteger =>
    have noInteger : ∀ n, ¬ IsShort s n := fun n h => by
      rw [filter_isShort.mpr h] at hinteger
      cases hinteger
    split
    next x h => exact .real noInteger h
    next hnumber =>
      split
      next b h => exact .flag noInteger hnumber (flag?_eq_some.mp h)
      next hflag =>
        refine .text noInteger hnumber fun b h => ?_
        rw [flag?_eq_some.mpr h] at hflag
        cases hflag

end Value

section Alter

variable {β : Type}

theorem lookup_cons (name k : String) (b : β) (items : List (String × β)) :
    ((name, b) :: items).lookup k = if k = name then some b else items.lookup k := by
  rw [List.lookup_cons]
  by_cases hk : k = name
  · rw [if_pos hk, beq_iff_eq.mpr hk]
  · rw [if_neg hk, beq_eq_false_iff_ne.mpr hk]

theorem lookup_of_mem {items : List (String × β)} {item : String × β} (h : item ∈ items)
    (hkeys : (items.map Prod.fst).Nodup) : items.lookup item.1 = some item.2 := by
  induction items with
  | nil => cases h
  | cons first items ih =>
    obtain ⟨hnew, hrest⟩ := List.nodup_cons.mp hkeys
    rw [lookup_cons]
    rcases List.mem_cons.mp h with rfl | h
    · exact if_pos rfl
    · have hne : item.1 ≠ first.1 := fun heq => hnew (heq ▸ List.mem_map_of_mem h)
      rw [if_neg hne]
      exact ih h hrest

theorem mem_of_lookup {items : List (String × β)} {key : String} {b : β}
    (h : items.lookup key = some b) : (key, b) ∈ items := by
  obtain ⟨before, after, rfl, _⟩ := List.lookup_eq_some_iff.mp h
  exact List.mem_append_right before List.mem_cons_self

variable (key : String) (f : Option β → β) (items : List (String × β))

theorem lookup_alter (k : String) : (alter key f items).lookup k =
    if k = key then some (f (items.lookup key)) else items.lookup k := by
  induction items with
  | nil => exact lookup_cons key k (f none) []
  | cons item items ih =>
    obtain ⟨name, b⟩ := item
    unfold alter
    split
    next hname =>
      obtain rfl : name = key := beq_iff_eq.mp hname
      rw [lookup_cons, lookup_cons, lookup_cons, if_pos rfl]
      split <;> rfl
    next hname =>
      have hne : key ≠ name := fun h => hname (beq_iff_eq.mpr h.symm)
      rw [lookup_cons, lookup_cons, lookup_cons, if_neg hne, ih]
      by_cases hk : k = name
      · rw [if_pos hk, if_pos hk, if_neg (hk.trans_ne hne.symm)]
      · rw [if_neg hk, if_neg hk]

theorem mem_keys_alter {k : String} : k ∈ (alter key f items).map Prod.fst ↔
    k = key ∨ k ∈ items.map Prod.fst := by
  induction items with
  | nil => simp [alter]
  | cons item items ih =>
    unfold alter
    split
    next hname => simp [beq_iff_eq.mp hname]
    next =>
      rw [List.map_cons, List.mem_cons, ih, List.map_cons, List.mem_cons]
      exact or_left_comm

theorem nodup_keys_alter (h : (items.map Prod.fst).Nodup) :
    ((alter key f items).map Prod.fst).Nodup := by
  induction items with
  | nil => simp [alter]
  | cons item items ih =>
    obtain ⟨hnew, hitems⟩ := List.nodup_cons.mp h
    unfold alter
    split
    next hname =>
      rw [beq_iff_eq.mp hname] at hnew
      exact List.nodup_cons.mpr ⟨hnew, hitems⟩
    next hname =>
      refine List.nodup_cons.mpr ⟨fun hmem => ?_, ih hitems⟩
      rcases (mem_keys_alter key f items).mp hmem with heq | hmem
      · exact hname (beq_iff_eq.mpr heq)
      · exact hnew hmem

end Alter

/-- A key of a section, with the title it stands under. -/
structure KeyedFields where
  title : List Char
  key : List Char
  fields : List (List Char)

/-- The keys of all sections, in the order of their lines. -/
def Section.keyed (sections : List Section) : List KeyedFields :=
  sections.flatMap fun s => s.entries.map fun entry => ⟨s.title, entry.1, entry.2⟩

/-- Whether a line gives values for a key under a title. -/
def KeyedFields.isFor (title key : String) (line : KeyedFields) : Bool :=
  line.title == title.toList && line.key == key.toList

/-- The fields of all lines for a key under a title. -/
def Section.fieldsFor (sections : List Section) (title key : String) : List (List Char) :=
  ((keyed sections).filter (KeyedFields.isFor title key)).flatMap KeyedFields.fields

namespace Document

variable {α : Type}

/-- The list of values under a title and a key. -/
def get? (d : Document α) (title key : String) : Option (List (Value α)) :=
  (d.sections.lookup title).bind fun entries => entries.list.lookup key

/-- No title stands twice in a document, and no key twice under a title. -/
structure Tidy (d : Document α) : Prop where
  titles : (d.sections.map Prod.fst).Nodup
  keys : ∀ title entries, d.sections.lookup title = some entries → (entries.list.map Prod.fst).Nodup

theorem get?_add (d : Document α) (title key : String) (values : List (Value α)) (t k : String) :
    (d.add title key values).get? t k =
      if t = title ∧ k = key then some ((d.get? t k).getD [] ++ values) else d.get? t k := by
  unfold get? add addValues
  rw [lookup_alter]
  by_cases ht : t = title
  · subst ht
    rw [if_pos rfl, Option.bind_some, lookup_alter]
    cases d.sections.lookup t with
    | none => by_cases hk : k = key <;> simp [hk]
    | some entries => by_cases hk : k = key <;> simp [hk]
  · simp [ht]

theorem isSome_lookup_add (d : Document α) (title key : String) (values : List (Value α))
    (t : String) : ((d.add title key values).sections.lookup t).isSome = true ↔
      t = title ∨ (d.sections.lookup t).isSome = true := by
  rw [add, lookup_alter]
  split
  next h => simp [h]
  next h => simp [h]

theorem Tidy.add {d : Document α} (h : Tidy d) (title key : String) (values : List (Value α)) :
    Tidy (d.add title key values) where
  titles := nodup_keys_alter _ _ _ h.titles
  keys t entries hentries := by
    rw [Document.add, lookup_alter] at hentries
    split at hentries
    next =>
      obtain rfl := Option.some.inj hentries
      refine nodup_keys_alter _ _ _ ?_
      cases hold : d.sections.lookup title with
      | none => exact List.nodup_nil
      | some old => exact h.keys title old hold
    next => exact h.keys t entries hentries

variable [Scalar α]

def addLine (d : Document α) (line : KeyedFields) : Document α :=
  d.add (String.ofList line.title) (String.ofList line.key) (line.fields.map Value.ofField)

theorem ofSections_eq (sections : List Section) :
    (ofSections sections : Document α) = (Section.keyed sections).foldl addLine {} := by
  rw [ofSections, Section.keyed, List.foldl_flatMap]
  congr 1
  funext d s
  rw [List.foldl_map]
  rfl

theorem isFor_iff {title key : String} {line : KeyedFields} : line.isFor title key = true ↔
    title = String.ofList line.title ∧ key = String.ofList line.key := by
  simp only [KeyedFields.isFor, Bool.and_eq_true, beq_iff_eq]
  constructor
  · rintro ⟨h, h'⟩
    rw [h, h', String.ofList_toList, String.ofList_toList]
    exact ⟨rfl, rfl⟩
  · rintro ⟨rfl, rfl⟩
    rw [String.toList_ofList, String.toList_ofList]
    exact ⟨rfl, rfl⟩

theorem get?_addLine (d : Document α) (line : KeyedFields) (t k : String) :
    (d.addLine line).get? t k =
      if line.isFor t k then some ((d.get? t k).getD [] ++ line.fields.map Value.ofField)
      else d.get? t k := by
  rw [addLine, get?_add]
  by_cases h : line.isFor t k = true
  · rw [if_pos (isFor_iff.mp h), if_pos h]
  · rw [if_neg (mt isFor_iff.mpr h), if_neg h]

/-- Each line adds its values after those that stand there already. -/
theorem get?_lines (lines : List KeyedFields) (d : Document α) (t k : String) :
    (lines.foldl addLine d).get? t k =
      if lines.any (KeyedFields.isFor t k) then
        some ((d.get? t k).getD [] ++
          ((lines.filter (KeyedFields.isFor t k)).flatMap KeyedFields.fields).map Value.ofField)
      else d.get? t k := by
  induction lines generalizing d with
  | nil => rfl
  | cons line lines ih =>
    rw [List.foldl_cons, ih, get?_addLine, List.any_cons]
    by_cases h : line.isFor t k = true
    · rw [if_pos h, h, Bool.true_or, if_pos rfl, List.filter_cons_of_pos h, List.flatMap_cons,
        List.map_append, Option.getD_some, List.append_assoc]
      split
      next => rfl
      next hnone =>
        have hempty : lines.filter (KeyedFields.isFor t k) = [] := by simpa using hnone
        rw [hempty]
        simp
    · have hother : line.isFor t k = false := by simpa using h
      rw [if_neg h, hother, Bool.false_or, List.filter_cons_of_neg h]

theorem isSome_lookup_lines (lines : List KeyedFields) (d : Document α) (t : String) :
    ((lines.foldl addLine d).sections.lookup t).isSome = true ↔
      (∃ line ∈ lines, line.title = t.toList) ∨ (d.sections.lookup t).isSome = true := by
  induction lines generalizing d with
  | nil => simp
  | cons line lines ih =>
    have htitle : t = String.ofList line.title ↔ line.title = t.toList := by
      rw [← String.toList_inj, String.toList_ofList, eq_comm]
    rw [List.foldl_cons, ih, addLine, isSome_lookup_add, htitle, List.exists_mem_cons_iff, or_assoc]
    exact or_left_comm

theorem tidy_lines (lines : List KeyedFields) {d : Document α} (h : Tidy d) :
    Tidy (lines.foldl addLine d) := by
  induction lines generalizing d with
  | nil => exact h
  | cons line lines ih => exact ih (h.add _ _ _)

theorem tidy_ofSections (sections : List Section) : Tidy (ofSections sections : Document α) := by
  rw [ofSections_eq]
  exact tidy_lines _ ⟨List.nodup_nil, by simp⟩

theorem exists_sections_of_ofText {s : String} {d : Document α} (h : ofText s = .ok d) :
    ∃ sections rest, Section.readAll (Comment.remove s.toList) = .ok (sections, rest) ∧
      d = ofSections sections := by
  obtain ⟨⟨d', rest⟩, hfirst, h⟩ := bind_eq_ok.mp h
  rw [mapError_eq_ok] at hfirst
  obtain ⟨⟨sections, rest'⟩, hall, hfirst⟩ := bind_eq_ok.mp hfirst
  cases hfirst
  dsimp only at h
  split at h
  next =>
    cases h
    exact ⟨sections, rest, hall, rfl⟩
  next => cases h

/-- Titles and keys that are repeated in a text stand once in the document. -/
theorem tidy_of_ofText {s : String} {d : Document α} (h : ofText s = .ok d) : Tidy d := by
  obtain ⟨sections, _, _, rfl⟩ := exists_sections_of_ofText h
  exact tidy_ofSections sections

/-- What a document holds of a list of sections: their titles and keys, and for each key the values of
its fields. -/
structure Holds (d : Document α) (sections : List Section) : Prop where
  titles : ∀ t, (d.sections.lookup t).isSome = true ↔ ∃ s ∈ sections, s.title = t.toList
  keys : ∀ t k, (d.get? t k).isSome = true ↔
    ∃ s ∈ sections, s.title = t.toList ∧ ∃ entry ∈ s.entries, entry.1 = k.toList
  values : ∀ t k values, d.get? t k = some values →
    List.Forall₂ Value.Typed (Section.fieldsFor sections t k) values
  tidy : Tidy d

theorem any_keyed {sections : List Section} {t k : String} :
    (Section.keyed sections).any (KeyedFields.isFor t k) = true ↔
      ∃ s ∈ sections, s.title = t.toList ∧ ∃ entry ∈ s.entries, entry.1 = k.toList := by
  simp [Section.keyed, KeyedFields.isFor, and_comm]

theorem exists_keyed {sections : List Section} (h : ∀ s ∈ sections, s.entries ≠ []) {t : String} :
    (∃ line ∈ Section.keyed sections, line.title = t.toList) ↔
      ∃ s ∈ sections, s.title = t.toList := by
  constructor
  · rintro ⟨line, hline, heq⟩
    obtain ⟨s, hs, hline⟩ := List.mem_flatMap.mp hline
    obtain ⟨entry, _, rfl⟩ := List.mem_map.mp hline
    exact ⟨s, hs, heq⟩
  · rintro ⟨s, hs, heq⟩
    obtain ⟨entry, entries, hentries⟩ := List.exists_cons_of_ne_nil (h s hs)
    refine ⟨⟨s.title, entry.1, entry.2⟩, List.mem_flatMap.mpr ⟨s, hs, ?_⟩, heq⟩
    exact List.mem_map.mpr ⟨entry, hentries ▸ List.mem_cons_self, rfl⟩

theorem get?_ofSections {sections : List Section} {t k : String}
    (h : (Section.keyed sections).any (KeyedFields.isFor t k) = true) :
    (ofSections sections : Document α).get? t k =
      some ((Section.fieldsFor sections t k).map Value.ofField) := by
  rw [ofSections_eq, get?_lines, if_pos h]
  rfl

theorem holds_ofSections {sections : List Section} (h : ∀ s ∈ sections, s.entries ≠ []) :
    Holds (ofSections sections : Document α) sections := by
  have htidy := tidy_ofSections (α := α) sections
  rw [ofSections_eq] at htidy ⊢
  have hget (t k : String) := get?_lines (Section.keyed sections) ({} : Document α) t k
  refine ⟨fun t => ?_, fun t k => ?_, fun t k values hvalues => ?_, htidy⟩
  · rw [isSome_lookup_lines, exists_keyed h]
    exact or_iff_left (by simp)
  · rw [hget, ← any_keyed]
    split
    next hkey => exact iff_of_true rfl hkey
    next hkey => exact iff_of_false (by simp [get?]) hkey
  · rw [hget] at hvalues
    split at hvalues
    next =>
      obtain rfl := Option.some.inj hvalues
      exact List.forall₂_map_right_iff.mpr
        (List.forall₂_same.mpr fun field _ => Value.typed_ofField field)
    next => cases hvalues

end Document

end Trajectory
