import Trajectory.Outcome
import Trajectory.Record

namespace Trajectory

namespace Record

/-- Where a reader of a table is in a field. -/
inductive Place where
  | opening
  | plain
  | quoted
  /-- After a quote in a quoted field: the last one, or the first of two. -/
  | closing
deriving Repr, DecidableEq

/-- A table that is being read: the records so far, the fields of the next record and the characters of the
next field, all in reverse. -/
structure Reader where
  records : List (List (List Char)) := []
  fields : List (List Char) := []
  field : List Char := []
  place : Place := .opening
deriving Repr, DecidableEq

namespace Reader

def add (r : Reader) (c : Char) : Reader := { r with field := c :: r.field }

def endField (r : Reader) : Reader :=
  { r with fields := r.field.reverse :: r.fields, field := [], place := .opening }

def endRecord (r : Reader) : Reader :=
  { r with records := r.fields.reverse :: r.records, fields := [] }

/-- Takes what ends a field: a comma, or the end of the line. -/
def separate? (r : Reader) (c : Char) : Option Reader :=
  if c = ',' then some r.endField
  else if c = '\n' then some r.endField.endRecord
  else none

def next? (r : Reader) (c : Char) : Option Reader :=
  match r.place with
  | .opening =>
    if c = '"' then some { r with place := .quoted }
    else r.separate? c <|> some { r.add c with place := .plain }
  | .plain => r.separate? c <|> some (r.add c)
  | .quoted => if c = '"' then some { r with place := .closing } else some (r.add c)
  | .closing => if c = '"' then some { r.add c with place := .quoted } else r.separate? c

def takeAll? (r : Reader) (s : List Char) : Option Reader := s.foldlM next? r

/-- Whether nothing has been read since the last record. -/
def isDone (r : Reader) : Bool := r.place = .opening && r.fields.isEmpty && r.field.isEmpty

end Reader

/-- The records of a text, if it is a table. -/
def read? (s : List Char) : Option (List (List (List Char))) :=
  ((Reader.takeAll? {} s).filter Reader.isDone).map fun r => r.records.reverse

namespace Reader

/-- A reader in front of a field. -/
def between (records : List (List (List Char))) (fields : List (List Char)) : Reader :=
  ⟨records, fields, [], .opening⟩

theorem takeAll_append (r : Reader) (s t : List Char) :
    r.takeAll? (s ++ t) = (r.takeAll? s).bind fun q => q.takeAll? t := List.foldlM_append

theorem takeAll_cons (r : Reader) (c : Char) (s : List Char) :
    r.takeAll? (c :: s) = (r.next? c).bind fun q => q.takeAll? s := List.foldlM_cons

variable {records : List (List (List Char))} {fields : List (List Char)}

/-- Inside quotes every character stands for itself, a doubled quote for one. -/
theorem takeAll_escape (s field : List Char) :
    Reader.takeAll? ⟨records, fields, field, .quoted⟩ (escape s) =
      some ⟨records, fields, s.reverse ++ field, .quoted⟩ := by
  induction s generalizing field with
  | nil => rfl
  | cons c s ih =>
    have hsplit : escape (c :: s) = escape [c] ++ escape s := by simp [escape]
    have hfirst : Reader.takeAll? ⟨records, fields, field, .quoted⟩ (escape [c]) =
        some ⟨records, fields, c :: field, .quoted⟩ := by
      by_cases hc : c = '"'
      · subst hc
        rfl
      · simp [hc, escape, takeAll?, next?, add]
    rw [hsplit, takeAll_append, hfirst, Option.bind_some, ih]
    simp

theorem separate_of_ordinary {c : Char} (h : isSpecial c = false) (r : Reader) :
    r.separate? c = none ∧ c ≠ '"' := by
  simp only [isSpecial, Bool.or_eq_false_iff, beq_eq_false_iff_ne] at h
  simp [separate?, h]

theorem takeAll_plain {s : List Char} (h : s.any isSpecial = false) (field : List Char) :
    Reader.takeAll? ⟨records, fields, field, .plain⟩ s =
      some ⟨records, fields, s.reverse ++ field, .plain⟩ := by
  induction s generalizing field with
  | nil => rfl
  | cons c s ih =>
    have hc : isSpecial c = false ∧ s.any isSpecial = false := by simpa using h
    have hnext : Reader.next? ⟨records, fields, field, .plain⟩ c =
        some ⟨records, fields, c :: field, .plain⟩ := by
      simp [next?, separate_of_ordinary hc.1, add]
    rw [takeAll_cons, hnext, Option.bind_some, ih hc.2]
    simp

theorem exists_takeAll_field (records : List (List (List Char))) (fields : List (List Char))
    (s : List Char) : ∃ p, p ≠ .quoted ∧
    (between records fields).takeAll? (writeField s) = some ⟨records, fields, s.reverse, p⟩ := by
  rw [writeField]
  cases hspecial : s.any isSpecial with
  | true =>
    refine ⟨.closing, by decide, ?_⟩
    have hopen : (between records fields).next? '"' = some ⟨records, fields, [], .quoted⟩ := rfl
    have hclose : Reader.takeAll? ⟨records, fields, s.reverse, .quoted⟩ ['"'] =
        some ⟨records, fields, s.reverse, .closing⟩ := rfl
    rw [if_pos rfl, quote, List.cons_append, takeAll_cons, hopen, Option.bind_some, takeAll_append,
      takeAll_escape, Option.bind_some, List.append_nil, hclose]
  | false =>
    rw [if_neg (by simp)]
    cases s with
    | nil => exact ⟨.opening, by decide, rfl⟩
    | cons c s =>
      refine ⟨.plain, by decide, ?_⟩
      have hc : isSpecial c = false ∧ s.any isSpecial = false := by simpa using hspecial
      have hopen : (between records fields).next? c = some ⟨records, fields, [c], .plain⟩ := by
        obtain ⟨hseparate, hquote⟩ := separate_of_ordinary hc.1 ⟨records, fields, [], .opening⟩
        simp [between, next?, hseparate, hquote, add]
      rw [takeAll_cons, hopen, Option.bind_some, takeAll_plain hc.2, List.reverse_cons]

/-- Outside quotes a comma or a line feed ends the field, wherever in it the reader is. -/
theorem takeAll_separator {c : Char} (hc : c = ',' ∨ c = '\n') {p : Place} (hp : p ≠ .quoted)
    (field : List Char) : Reader.takeAll? ⟨records, fields, field, p⟩ [c] =
      Reader.separate? ⟨records, fields, field, .opening⟩ c := by
  cases p with
  | quoted => exact absurd rfl hp
  | opening => rcases hc with rfl | rfl <;> rfl
  | plain => rcases hc with rfl | rfl <;> rfl
  | closing => rcases hc with rfl | rfl <;> rfl

theorem takeAll_field (s : List Char) {c : Char} (hc : c = ',' ∨ c = '\n') :
    (between records fields).takeAll? (writeField s ++ [c]) =
      Reader.separate? ⟨records, fields, s.reverse, .opening⟩ c := by
  obtain ⟨p, hp, hfield⟩ := exists_takeAll_field records fields s
  rw [takeAll_append, hfield, Option.bind_some, takeAll_separator hc hp]

theorem takeAll_fields (f : List Char) (fs : List (List Char)) :
    (between records fields).takeAll? ([','].intercalate ((f :: fs).map writeField) ++ ['\n']) =
      some (between ((fields.reverse ++ f :: fs) :: records) []) := by
  induction fs generalizing f fields with
  | nil =>
    have hone : [','].intercalate ([f].map writeField) = writeField f := by simp [List.intercalate]
    rw [hone, takeAll_field f (.inr rfl)]
    simp [separate?, endField, endRecord, between]
  | cons g fs ih =>
    have hsplit : [','].intercalate ((f :: g :: fs).map writeField) ++ ['\n'] =
        writeField f ++ [','] ++ ([','].intercalate ((g :: fs).map writeField) ++ ['\n']) := by
      simp [List.intercalate]
    have hcomma : Reader.separate? ⟨records, fields, f.reverse, .opening⟩ ',' =
        some (between records (f :: fields)) := by
      simp [separate?, endField, between]
    rw [hsplit, takeAll_append, takeAll_field f (.inl rfl), hcomma, Option.bind_some, ih]
    simp

end Reader

theorem writeField_eq_nil {s : List Char} (h : writeField s = []) : s = [] := by
  unfold writeField at h
  split at h
  next => simp [quote] at h
  next => exact h

/-- Only a record of one empty field would be an empty line. -/
theorem eq_of_isEmpty {f : List Char} {fs : List (List Char)}
    (h : ([','].intercalate ((f :: fs).map writeField)).isEmpty = true) : f :: fs = [[]] := by
  cases fs with
  | nil =>
    have hone : writeField f = [] := by simpa [List.intercalate] using h
    rw [writeField_eq_nil hone]
  | cons g fs => simp [List.intercalate] at h

theorem takeAll_writeLine {record : List (List Char)} (h : record ≠ [])
    (records : List (List (List Char))) :
    (Reader.between records []).takeAll? (writeLine record) =
      some (Reader.between (record :: records) []) := by
  cases record with
  | nil => exact absurd rfl h
  | cons f fs =>
    unfold writeLine
    dsimp only
    split
    next hempty =>
      rw [eq_of_isEmpty hempty]
      rfl
    next => exact Reader.takeAll_fields f fs

theorem takeAll_lines {rows : List (List (List Char))} (h : ∀ r ∈ rows, r ≠ [])
    (records : List (List (List Char))) :
    (Reader.between records []).takeAll? (rows.flatMap writeLine) =
      some (Reader.between (rows.reverse ++ records) []) := by
  induction rows generalizing records with
  | nil => rfl
  | cons r rows ih =>
    rw [List.flatMap_cons, Reader.takeAll_append, takeAll_writeLine (h r List.mem_cons_self),
      Option.bind_some, ih fun q hq => h q (List.mem_cons_of_mem r hq)]
    simp

theorem read_lines {records : List (List (List Char))} (h : ∀ r ∈ records, r ≠ []) :
    read? (records.flatMap writeLine) = some records := by
  have htaken := takeAll_lines h []
  rw [List.append_nil] at htaken
  have hstart : Reader.takeAll? {} (records.flatMap writeLine) = some (Reader.between records.reverse []) :=
    htaken
  have hdone : (Reader.between records.reverse []).isDone = true := rfl
  rw [read?, hstart, Option.filter_some, if_pos hdone, Option.map_some]
  simp [Reader.between]

example : read? "x,\"a \"\"b\"\"\",\n\"\"\n".toList = some [["x".toList, "a \"b\"".toList, []], [[]]] := by
  decide +kernel

section Lengths

theorem writeLines_of_equal {size : Nat} {records : List (List (List Char))}
    (h : ∀ r ∈ records, r.length = size) : writeLines size records = .ok (records.flatMap writeLine) := by
  induction records with
  | nil => rfl
  | cons r records ih =>
    have hr : ¬ r.length ≠ size := fun hne => hne (h r List.mem_cons_self)
    rw [writeLines, if_neg hr, ih fun q hq => h q (List.mem_cons_of_mem r hq)]
    rfl

theorem writeLines_of_unequal {size : Nat} {records : List (List (List Char))}
    {q : List (List Char)} (hq : q ∈ records) (hne : q.length ≠ size) :
    ∃ given, given ≠ size ∧ writeLines size records = .error (.lengths given size) := by
  induction records with
  | nil => cases hq
  | cons r records ih =>
    by_cases hr : r.length ≠ size
    · refine ⟨r.length, hr, ?_⟩
      rw [writeLines, if_pos hr]
      rfl
    · have hlater : q ∈ records := by
        rcases List.mem_cons.mp hq with rfl | hlater
        · exact absurd hne hr
        · exact hlater
      obtain ⟨given, hgiven, herror⟩ := ih hlater
      refine ⟨given, hgiven, ?_⟩
      rw [writeLines, if_neg hr, herror]
      rfl

variable {r : List (List Char)} {records : List (List (List Char))}

theorem write_of_equal (h : ∀ q ∈ records, q.length = r.length) :
    write (r :: records) = .ok ((r :: records).flatMap writeLine) := by
  rw [write, writeLines_of_equal h]
  rfl

theorem write_of_unequal {q : List (List Char)} (hq : q ∈ records) (hne : q.length ≠ r.length) :
    ∃ given, given ≠ r.length ∧ write (r :: records) = .error (.lengths given r.length) := by
  obtain ⟨given, hgiven, herror⟩ := writeLines_of_unequal hq hne
  refine ⟨given, hgiven, ?_⟩
  rw [write, herror]
  rfl

end Lengths

end Record

end Trajectory
