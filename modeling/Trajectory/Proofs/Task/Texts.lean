import Trajectory.Proofs.Decimal.PlainInteger
import Trajectory.Proofs.Document.Trimmed
import Trajectory.Proofs.Expr.Token
import Trajectory.Proofs.Task.Reading

namespace Trajectory

namespace Value

variable {α : Type} [Scalar α] [Numeral α]

/-- A field that is printed as it was written. -/
inductive Kept (α : Type) [Scalar α] [Numeral α] : List Char → Prop
  | integer {s : List Char} {n : Int} (short : IsShort s n) (plain : Decimal.PlainInteger s) : Kept α s
  | real {s : List Char} {x : α} (noInteger : ∀ n, ¬ IsShort s n)
    (number : Scalar.ofText? s = some x) (same : Trajectory.text x = String.ofList s) : Kept α s
  | other {s : List Char} (noInteger : ∀ n, ¬ IsShort s n)
    (noNumber : (Scalar.ofText? s : Option α) = none) : Kept α s

theorem toText_ofField_eq_iff (s : List Char) :
    (ofField s : Value α).toText = String.ofList s ↔ Kept α s := by
  have htyped : Typed s (ofField s : Value α) := typed_ofField s
  generalize (ofField s : Value α) = v at htyped
  cases htyped with
  | @integer n short =>
    rw [toText, Decimal.toString_eq_iff short.1]
    constructor
    · exact .integer short
    · intro h
      cases h with
      | integer _ plain => exact plain
      | real noInteger => exact absurd short (noInteger n)
      | other noInteger => exact absurd short (noInteger n)
  | @real x noInteger number =>
    constructor
    · exact .real noInteger number
    · intro h
      cases h with
      | integer short => exact absurd short (noInteger _)
      | real _ number' same =>
        obtain rfl := Option.some.inj (number.symm.trans number')
        exact same
      | other _ noNumber => cases noNumber.symm.trans number
  | @flag b noInteger noNumber word =>
    refine iff_of_true ?_ (.other noInteger noNumber)
    rw [word, String.ofList_toList]
    cases b <;> rfl
  | text noInteger noNumber noWord => exact iff_of_true rfl (.other noInteger noNumber)

section Printed

open Text (isBlank)

theorem isBlank_of_mem_double (x : Float) : ∀ c ∈ (Trajectory.text x).toList, isBlank c = false := by
  intro c hc
  cases hfinite : x.isFinite with
  | true =>
    obtain ⟨digits, hdigits, htext, _⟩ := Binary64.exists_digits hfinite
    rw [htext] at hc
    have hnumber := hdigits.isBlank_of_mem
    split at hc
    next =>
      rcases List.mem_cons.mp hc with rfl | hc
      · decide
      · exact hnumber c hc
    next => exact hnumber c hc
  | false =>
    change (Binary64.parts x).isFinite = false at hfinite
    cases hparts : Binary64.parts x with
    | notANumber =>
      have htext : Trajectory.text x = String.ofList ['N', 'a', 'N'] := by
        simp only [Trajectory.text, Binary64.render, hparts]
      have hword : ∀ c ∈ ['N', 'a', 'N'], isBlank c = false := by
        simp only [List.forall_mem_cons, List.not_mem_nil, false_implies, implies_true, and_true]
        decide
      rw [htext, String.toList_ofList] at hc
      exact hword c hc
    | infinity sign =>
      have htext : Trajectory.text x =
          String.ofList (if Binary64.isNegative sign then '-' :: ['i', 'n', 'f'] else ['i', 'n', 'f']) := by
        simp only [Trajectory.text, Binary64.render, hparts]
      have hword : ∀ c ∈ '-' :: ['i', 'n', 'f'], isBlank c = false := by
        simp only [List.forall_mem_cons, List.not_mem_nil, false_implies, implies_true, and_true]
        decide
      rw [htext, String.toList_ofList] at hc
      split at hc
      next => exact hword c hc
      next => exact hword c (List.mem_cons_of_mem '-' hc)
    | zero sign =>
      rw [hparts] at hfinite
      cases hfinite
    | finite sign m e hm =>
      rw [hparts] at hfinite
      cases hfinite

theorem trimmed_toText {s : List Char} (h : Text.trim s = s) :
    Text.trimmed (ofField s : Value Float).toText = (ofField s : Value Float).toText := by
  have htyped : Typed s (ofField s : Value Float) := typed_ofField s
  generalize (ofField s : Value Float) = v at htyped
  cases htyped with
  | @integer n short =>
    refine Text.trimmed_of_not_blank fun c hc => ?_
    rcases (Decimal.plainInteger_toString n).mem c hc with hdigit | rfl
    · exact Text.isBlank_of_isWordChar (Text.isWordChar_of_isDigit hdigit)
    · decide
  | @real x _ _ => exact Text.trimmed_of_not_blank (isBlank_of_mem_double x)
  | @flag b _ _ _ => cases b <;> decide
  | text =>
    show Text.trimmed (String.ofList s) = String.ofList s
    rw [Text.trimmed, String.toList_ofList, h]

end Printed

end Value

namespace Task

variable {α : Type}

/-- The settings that are texts. -/
inductive TextKey where
  | logFile
  | csv
  | arg

namespace TextKey

/-- The part of a task that the text belongs to. -/
def place : TextKey → Place
  | logFile => .logFile
  | csv => .csv
  | arg => .range

def title (k : TextKey) : String := k.place.title

def key : TextKey → String
  | logFile => "log_file"
  | csv => "csv"
  | arg => "arg"

def of? : TextKey → Task α → Option String
  | logFile, t => t.logFile?
  | csv, t => t.csv?
  | arg, t => t.range?.map Range.arg

theorem of?_write {k : TextKey} {p : Place} {f : Task α → Task α} (hne : p ≠ k.place)
    (hf : Write p f) (t : Task α) : k.of? (f t) = k.of? t := by
  cases hf <;> cases k <;> first | rfl | exact absurd rfl hne

theorem of?_section {k : TextKey} {title : String} {f : Task α → Task α} (hne : title ≠ k.title)
    (hf : SectionChange title f) {t : Task α} {s? : Option String} (ht : k.of? t = s?) :
    k.of? (f t) = s? := by
  refine Composite.keeps hf (K := fun u => k.of? u = s?) ?_ ht
  rintro f u ⟨p, rfl, hwrite⟩ hu
  rw [of?_write (fun heq => hne (congrArg Place.title heq)) hwrite]
  exact hu

theorem of?_entry {k : TextKey} {title other : String} {f : Task α → Task α} (hne : other ≠ k.key)
    (hf : EntryChange title other f) (t : Task α) : k.of? (f t) = k.of? t := by
  obtain ⟨p, _, hkey, hwrite⟩ := hf
  refine of?_write (fun heq => hne ?_) hwrite t
  rw [heq] at hkey
  cases k with
  | logFile => exact (Option.some.inj hkey).symm
  | csv => exact (Option.some.inj hkey).symm
  | arg => cases hkey

end TextKey

variable [Numeral α]

theorem word_eq_ok {title key s : String} {values : List (Value α)}
    (h : word title key values = .ok s) : ∃ v, values = [v] ∧ s = v.toText := by
  obtain ⟨v, hsingle, h⟩ := bind_eq_ok.mp h
  cases h
  unfold single at hsingle
  split at hsingle
  next =>
    cases hsingle
    exact ⟨v, rfl, rfl⟩
  next => cases hsingle

namespace TextKey

/-- What is stored of a value: the argument is trimmed once more. -/
def stored : TextKey → Value α → String
  | arg, v => Text.trimmed v.toText
  | _, v => v.toText

/-- The text is that of a single value. -/
def Shows (k : TextKey) (values : List (Value α)) (t : Task α) : Prop :=
  ∃ v, values = [v] ∧ k.of? t = some (k.stored v)

variable [Scalar α] {t u : Task α} {entries : Entries α} {values : List (Value α)}

omit [Scalar α] in
theorem shows_of_readEntries {k : TextKey} {title : String}
    {read : Task α → String → List (Value α) → Except (SolverError α) (Task α)}
    (hread : Changes read (EntryChange title))
    (hset : ∀ t u, read t k.key values = .ok u → k.Shows values u)
    (hkeys : (entries.list.map Prod.fst).Nodup) (hlookup : entries.list.lookup k.key = some values)
    (h : readEntries read t entries = .ok u) : k.Shows values u := by
  refine hread.foldlM_of_mem hset (fun other f t hne hf ht => ?_) hkeys (mem_of_lookup hlookup) h
  obtain ⟨v, hvalues, hv⟩ := ht
  exact ⟨v, hvalues, (of?_entry hne hf t).trans hv⟩

theorem shows_of_readRange {r : Range α} (hkeys : (entries.list.map Prod.fst).Nodup)
    (hlookup : entries.list.lookup "arg" = some values)
    (h : readEntries readRange Range.standard entries = .ok r) :
    ∃ v, values = [v] ∧ r.arg = v.toText := by
  refine readRange_changes.foldlM_of_mem (K := fun r => ∃ v, values = [v] ∧ r.arg = v.toText)
    (fun b c hset => ?_) (fun other f b hne hf hb => ?_) hkeys
    (mem_of_lookup hlookup) h
  · obtain ⟨arg, hword, hset⟩ := bind_eq_ok.mp hset
    cases hset
    exact word_eq_ok hword
  · cases hf with
    | arg => exact absurd rfl hne
    | _ => exact hb

theorem shows_of_readSection {k : TextKey} (hkeys : (entries.list.map Prod.fst).Nodup)
    (hlookup : entries.list.lookup k.key = some values)
    (h : readSection t k.title entries = .ok u) : k.Shows values u := by
  cases k with
  | logFile =>
    refine shows_of_readEntries readSolver_changes (fun t u hset => ?_) hkeys hlookup h
    obtain ⟨file, hword, hset⟩ := bind_eq_ok.mp hset
    cases hset
    obtain ⟨v, hvalues, rfl⟩ := word_eq_ok hword
    exact ⟨v, hvalues, rfl⟩
  | csv =>
    refine shows_of_readEntries readOutput_changes (fun t u hset => ?_) hkeys hlookup h
    obtain ⟨file, hword, hset⟩ := bind_eq_ok.mp hset
    cases hset
    obtain ⟨v, hvalues, rfl⟩ := word_eq_ok hword
    exact ⟨v, hvalues, rfl⟩
  | arg =>
    obtain ⟨r, hr, h⟩ := bind_eq_ok.mp h
    obtain ⟨checked, hchecked, h⟩ := bind_eq_ok.mp h
    cases h
    obtain ⟨v, hvalues, harg⟩ := shows_of_readRange hkeys hlookup hr
    obtain ⟨hmade, _⟩ := Range.eq_of_make (mapError_eq_ok.mp hchecked)
    refine ⟨v, hvalues, ?_⟩
    rw [of?, Option.map_some, hmade, harg]
    rfl

theorem shows_of_ofDocument {k : TextKey} {d : Document α} (htidy : d.Tidy)
    (hvalues : d.get? k.title k.key = some values) (h : ofDocument d = .ok t) : k.Shows values t := by
  obtain ⟨hread, _⟩ := ofDocument_eq_ok_iff.mp h
  obtain ⟨entries, hsection, hlookup⟩ := Option.bind_eq_some_iff.mp hvalues
  have hkeys := htidy.keys k.title entries hsection
  refine readSection_changes.foldlM_of_mem (fun t u hset => ?_) (fun other f t hne hf ht => ?_)
    htidy.titles (mem_of_lookup hsection) hread
  · exact shows_of_readSection hkeys hlookup hset
  · obtain ⟨v, hvalues, hv⟩ := ht
    exact ⟨v, hvalues, of?_section hne hf hv⟩

theorem stored_ofField {field : List Char} (h : Text.trim field = field) (k : TextKey) :
    k.stored (Value.ofField field : Value Float) = (Value.ofField field : Value Float).toText := by
  cases k with
  | arg => exact Value.trimmed_toText h
  | _ => rfl

end TextKey

/-- Each text key that stands in the text of a task has one field there, and the task stores what is
printed of that field once it is read. This is the field as it was written unless it is a number that is
written otherwise than it is printed. -/
theorem texts_of_ofText {s : String} {t : Task Float} (h : ofText s = .ok t) :
    ∃ sections rest, Section.readAll (Comment.remove s.toList) = .ok (sections, rest) ∧
      ∀ k : TextKey,
        (∃ found ∈ sections, found.title = k.title.toList ∧
          ∃ entry ∈ found.entries, entry.1 = k.key.toList) →
        ∃ field, Section.fieldsFor sections k.title k.key = [field] ∧
          k.of? t = some (Value.ofField field : Value Float).toText ∧
            (k.of? t = some (String.ofList field) ↔ Value.Kept Float field) := by
  obtain ⟨d, hd, ht⟩ := bind_eq_ok.mp h
  rw [mapError_eq_ok] at hd
  obtain ⟨sections, rest, hall, rfl⟩ := Document.exists_sections_of_ofText hd
  refine ⟨sections, rest, hall, fun k hk => ?_⟩
  have hvalues := Document.get?_ofSections (α := Float) (Document.any_keyed.mpr hk)
  obtain ⟨v, hv, hstored⟩ := TextKey.shows_of_ofDocument (Document.tidy_ofSections sections) hvalues ht
  obtain ⟨field, rest', hfields, hfield, hrest⟩ := List.map_eq_cons_iff.mp hv
  obtain rfl : rest' = [] := List.map_eq_nil_iff.mp hrest
  have hmem : field ∈ Section.fieldsFor sections k.title k.key := by
    rw [hfields]
    exact List.mem_singleton_self field
  have htrim : Text.trim field = field :=
    Section.trimmed_fieldsFor (Section.trimmed_of_readAll hall) k.title k.key field hmem
  rw [← hfield, TextKey.stored_ofField htrim] at hstored
  refine ⟨field, hfields, hstored, ?_⟩
  rw [hstored, Option.some.injEq]
  exact Value.toText_ofField_eq_iff field

/-- Two names of files and a name of the argument that can all be read as numbers. -/
def numeralNames : String :=
  "equations\n eq: y' = y\nrange\n arg: Infinity\nsolver\n log_file: 1e3\noutput\n csv: 007\n"

namespace TextKey

def numeral : TextKey → String
  | logFile => "1e3"
  | csv => "007"
  | arg => "Infinity"

/-- The name as it is printed once it is read as a number. -/
def renamed : TextKey → String
  | logFile => "1000"
  | csv => "7"
  | arg => "inf"

theorem forall_of_all {P : TextKey → Bool} (h : [logFile, csv, arg].all P = true) (k : TextKey) :
    P k = true := by
  refine List.all_eq_true.mp h k ?_
  cases k <;> simp

end TextKey

theorem sections_of_numeralNames :
    ∃ sections rest, Section.readAll (Comment.remove numeralNames.toList) = .ok (sections, rest) ∧
      ∀ k : TextKey,
        (∃ found ∈ sections, found.title = k.title.toList ∧
          ∃ entry ∈ found.entries, entry.1 = k.key.toList) ∧
        Section.fieldsFor sections k.title k.key = [k.numeral.toList] := by
  have hread : (match Section.readAll (Comment.remove numeralNames.toList) with
      | .ok (sections, _) => [.logFile, .csv, .arg].all fun k : TextKey =>
          (sections.any fun found => found.title == k.title.toList &&
            found.entries.any fun entry => entry.1 == k.key.toList) &&
          Section.fieldsFor sections k.title k.key == [k.numeral.toList]
      | .error _ => false) = true := by decide +kernel
  split at hread
  next sections rest hsections =>
    refine ⟨sections, rest, hsections, fun k => ?_⟩
    simpa only [Bool.and_eq_true, List.any_eq_true, beq_iff_eq] using TextKey.forall_of_all hread k
  next => cases hread

theorem task_of_numeralNames :
    ∃ t : Task Float, ofText numeralNames = .ok t ∧ ∀ k : TextKey, k.of? t = some k.renamed := by
  have hread : (match (ofText numeralNames : Except (SolverError Float) (Task Float)) with
      | .ok t => [.logFile, .csv, .arg].all fun k : TextKey => k.of? t == some k.renamed
      | .error _ => false) = true := by decide +kernel
  split at hread
  next t ht =>
    exact ⟨t, ht, fun k => beq_iff_eq.mp (TextKey.forall_of_all hread k)⟩
  next => cases hread

theorem texts_of_numeralNames :
    ∃ t : Task Float, ofText numeralNames = .ok t ∧
      ∃ sections rest, Section.readAll (Comment.remove numeralNames.toList) = .ok (sections, rest) ∧
        ∀ k : TextKey, ∃ field, Section.fieldsFor sections k.title k.key = [field] ∧
          k.of? t = some (Value.ofField field : Value Float).toText ∧ ¬ Value.Kept Float field := by
  obtain ⟨t, ht, hrenamed⟩ := task_of_numeralNames
  obtain ⟨sections, rest, hall, hwritten⟩ := sections_of_numeralNames
  obtain ⟨sections', rest', hall', htexts⟩ := texts_of_ofText ht
  cases hall.symm.trans hall'
  refine ⟨t, ht, sections, rest, hall, fun k => ?_⟩
  obtain ⟨hstands, hfields⟩ := hwritten k
  obtain ⟨field, hfield, hstored, hkept⟩ := htexts k hstands
  refine ⟨field, hfield, hstored, fun h => ?_⟩
  obtain rfl : k.numeral.toList = field := (List.cons.inj (hfields.symm.trans hfield)).1
  have hsame := hkept.mpr h
  rw [hrenamed k] at hsame
  cases k <;> exact absurd hsame (by decide)

/-- No text key of this document keeps the text that is written there. -/
theorem numeralNames_renamed :
    ∃ t : Task Float, ofText numeralNames = .ok t ∧
      ∃ sections rest, Section.readAll (Comment.remove numeralNames.toList) = .ok (sections, rest) ∧
        ∀ k : TextKey, ∃ field, Section.fieldsFor sections k.title k.key = [field] ∧
          k.of? t ≠ some (String.ofList field) := by
  obtain ⟨t, ht, hrenamed⟩ := task_of_numeralNames
  obtain ⟨sections, rest, hall, hwritten⟩ := sections_of_numeralNames
  refine ⟨t, ht, sections, rest, hall, fun k => ⟨k.numeral.toList, (hwritten k).2, ?_⟩⟩
  rw [hrenamed k]
  cases k <;> decide

end Task

end Trajectory
