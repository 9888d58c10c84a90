import Trajectory.Document.Line
import Trajectory.Proofs.Document.Lines

namespace Trajectory.Line

open Text (isIdentifier)
open Comment (Unbroken)

def Spaced (s : List Char) : Prop := ∀ c ∈ s, c = ' ' ∨ c = '\t'

/-- The end of a line: spaces, which a semicolon may stand before. -/
inductive Closing : List Char → Prop where
  | plain {s : List Char} (spaces : Spaced s) : Closing s
  | semicolon {s : List Char} (spaces : Spaced s) : Closing (';' :: s)

/-- A text between commas that is not blank. -/
structure IsField (s : List Char) : Prop where
  chars : ∀ c ∈ s, c ≠ ',' ∧ c ≠ ';' ∧ c ≠ '\n' ∧ c ≠ '\r'
  text : Text.trim s ≠ []

/-- A title alone on its line. -/
inductive TitleLine : List Char → List Char → Prop where
  | mk {b title m t : List Char} (before : Spaced b) (name : isIdentifier title = true)
    (between : Spaced m) (closing : Closing t) : TitleLine (b ++ (title ++ (m ++ t))) title

/-- A key with its fields, which are listed without the blanks around them. The texts that may stand
between the colon and the first field are those of `Gap`. -/
inductive KeyLine (Gap : List Char → Prop) :
    List Char → List Char × List (List Char) → Prop where
  | mk {b key m g t : List Char} {fields : List (List Char)} (before : Spaced b)
    (name : isIdentifier key = true) (between : Spaced m) (gap : Gap g)
    (listed : ∀ field ∈ fields, IsField field) (closing : Closing t) :
    KeyLine Gap (b ++ (key ++ (m ++ ':' :: (g ++ ([','].intercalate fields ++ t)))))
      (key, fields.map Text.trim)

/-- The text after a line, when there is another line and when there is none. -/
inductive Following : List Char → List Char → Prop where
  | last : Following [] []
  | next (rest : List Char) : Following ('\n' :: rest) rest

theorem Following.head {t rest : List Char} (h : Following t rest) {p : Char → Bool}
    (hp : p '\n' = false) : ∀ c ∈ t.head?, p c = false := by
  intro c hc
  cases h with
  | last => cases hc
  | next =>
    obtain rfl : '\n' = c := by simpa using hc
    exact hp

theorem isSpace_iff {c : Char} : isSpace c = true ↔ c = ' ' ∨ c = '\t' := by simp [isSpace]

theorem Spaced.append {s t : List Char} (hs : Spaced s) (ht : Spaced t) : Spaced (s ++ t) :=
  fun c hc => (List.mem_append.mp hc).elim (hs c) (ht c)

theorem spaced_nil : Spaced [] := fun _ hc => absurd hc List.not_mem_nil

theorem spaced_iff {s : List Char} : Spaced s ↔ ∀ c ∈ s, isSpace c = true := by
  simp only [Spaced, isSpace_iff]

theorem exists_spaces (s : List Char) : ∃ b, Spaced b ∧ s = b ++ skipSpaces s :=
  ⟨s.takeWhile isSpace, spaced_iff.mpr (List.all_eq_true.mp List.all_takeWhile),
    List.takeWhile_append_dropWhile.symm⟩

theorem head_skipSpaces (s : List Char) : ∀ c ∈ (skipSpaces s).head?, isSpace c = false :=
  Text.dropWhile_head

theorem skipSpaces_eq {b s : List Char} (hb : Spaced b) (hs : ∀ c ∈ s.head?, isSpace c = false) :
    skipSpaces (b ++ s) = s :=
  Text.dropWhile_eq (spaced_iff.mp hb) hs

theorem skipSpaces_append (s : List Char) {t : List Char} (ht : ∀ c ∈ t.head?, isSpace c = false) :
    skipSpaces (s ++ t) = skipSpaces s ++ t :=
  Text.dropWhile_append s ht

theorem isWordChar_of_isSpace {c : Char} (h : isSpace c = true) : Text.isWordChar c = false := by
  rcases isSpace_iff.mp h with rfl | rfl <;> rfl

theorem isSpace_of_isIdentifierStart {c : Char} (h : Text.isIdentifierStart c = true) :
    isSpace c = false := by
  refine Bool.eq_false_iff.mpr fun hspace => ?_
  rcases isSpace_iff.mp hspace with rfl | rfl <;> cases h

/-- The first colon of a key line is the one after its key. -/
theorem KeyLine.dropWhile {Gap : List Char → Prop} {line : List Char}
    {entry : List Char × List (List Char)} (h : KeyLine Gap line entry) :
    ∃ g fields t, Gap g ∧ (∀ field ∈ fields, IsField field) ∧ Closing t ∧
      line.dropWhile (· != ':') = ':' :: (g ++ ([','].intercalate fields ++ t)) := by
  cases h with
  | @mk b key m g t fields hb hkey hm hg hfields ht =>
    have hspaced {s : List Char} (hs : Spaced s) : ∀ c ∈ s, (c != ':') = true := by
      intro c hc
      rcases hs c hc with rfl | rfl <;> rfl
    have hword : ∀ c ∈ key, (c != ':') = true := by
      intro c hc
      refine bne_iff_ne.mpr fun hcolon => ?_
      have hall := Text.isWordChar_of_isIdentifier hkey c hc
      rw [hcolon] at hall
      cases hall
    refine ⟨g, fields, t, hg, hfields, ht, ?_⟩
    rw [List.dropWhile_append_of_pos (hspaced hb), List.dropWhile_append_of_pos hword]
    exact Text.dropWhile_eq (hspaced hm) (by simp)

theorem head_between {m t : List Char} (hm : Spaced m)
    (ht : ∀ c ∈ t.head?, Text.isWordChar c = false) :
    ∀ c ∈ (m ++ t).head?, Text.isWordChar c = false := by
  intro c hc
  cases m with
  | nil => exact ht c hc
  | cons a m =>
    obtain rfl : a = c := by simpa using hc
    exact isWordChar_of_isSpace (spaced_iff.mp hm a List.mem_cons_self)

theorem Closing.head {t : List Char} (h : Closing t) :
    ∀ c ∈ t.head?, Text.isWordChar c = false := by
  intro c hc
  cases h with
  | plain hspaces =>
    exact isWordChar_of_isSpace (spaced_iff.mp hspaces c (List.mem_of_mem_head? hc))
  | semicolon =>
    obtain rfl : ';' = c := by simpa using hc
    rfl

variable {line t rest : List Char}

/-- An identifier is read up to the first character that none goes on with. -/
theorem identifier_eq_ok_iff (ht : Following t rest) {name after : List Char} :
    identifier (line ++ t) = .ok (name, after) ↔
      ∃ b later, Spaced b ∧ isIdentifier name = true ∧ (∀ c ∈ later.head?, Text.isWordChar c = false) ∧
        line = b ++ (name ++ later) ∧ after = later ++ t := by
  have hspace := ht.head (p := isSpace) rfl
  have hword := ht.head (p := Text.isWordChar) rfl
  constructor
  · intro h
    obtain ⟨b, hb, hline⟩ := exists_spaces line
    unfold identifier at h
    rw [skipSpaces_append line hspace] at h
    cases hskipped : skipSpaces line with
    | nil =>
      rw [hskipped] at h
      cases ht with
      | last => cases h
      | next => cases h
    | cons c own =>
      rw [hskipped, List.cons_append, Text.takeIdentifier?] at h
      split at h
      next found hfound =>
        split at hfound
        next hstart =>
          cases hfound
          cases h
          refine ⟨b, own.dropWhile Text.isWordChar, hb, ?_, Text.dropWhile_head, ?_, ?_⟩
          · simp [isIdentifier, hstart]
          · rw [Text.takeWhile_append own hword, List.cons_append,
              List.takeWhile_append_dropWhile, ← hskipped, ← hline]
          · exact Text.dropWhile_append own hword
        next => cases hfound
      next => cases h
  · rintro ⟨b, later, hb, hname, hlater, rfl, rfl⟩
    cases name with
    | nil => cases hname
    | cons c own =>
      obtain ⟨hstart, hown⟩ := Bool.and_eq_true_iff.mp hname
      have hskipped : skipSpaces (b ++ (c :: (own ++ (later ++ t)))) = c :: (own ++ (later ++ t)) :=
        skipSpaces_eq hb (by simpa using isSpace_of_isIdentifierStart hstart)
      have hafter : ∀ d ∈ (later ++ t).head?, Text.isWordChar d = false := by
        cases later with
        | nil => exact hword
        | cons d later => simpa using hlater
      have hall := List.all_eq_true.mp hown
      rw [identifier, List.append_assoc, List.append_assoc, List.cons_append, hskipped,
        Text.takeIdentifier?, if_pos hstart, Text.takeWhile_eq hall hafter,
        Text.dropWhile_eq hall hafter]

theorem colon_eq_ok_iff (ht : Following t rest) {after : List Char} :
    colon (line ++ t) = .ok after ↔
      ∃ m later, Spaced m ∧ line = m ++ ':' :: later ∧ after = later ++ t := by
  constructor
  · intro h
    obtain ⟨m, hm, hline⟩ := exists_spaces line
    unfold colon at h
    rw [skipSpaces_append line (ht.head rfl)] at h
    cases hskipped : skipSpaces line with
    | nil =>
      rw [hskipped] at h
      cases ht with
      | last => cases h
      | next => cases h
    | cons c own =>
      rw [hskipped, List.cons_append] at h
      split at h
      next heq =>
        cases h
        cases heq
        exact ⟨m, own, hm, by rw [← hskipped, ← hline], rfl⟩
      next => cases h
  · rintro ⟨m, later, hm, rfl, rfl⟩
    have hskipped : skipSpaces (m ++ ':' :: (later ++ t)) = ':' :: (later ++ t) :=
      skipSpaces_eq hm (by simp [isSpace])
    rw [colon, List.append_assoc, List.cons_append, hskipped]
    rfl

theorem spaced_of_skipSpaces {s : List Char} (h : skipSpaces s = []) : Spaced s := by
  obtain ⟨b, hb, heq⟩ := exists_spaces s
  rw [h, List.append_nil] at heq
  rwa [heq]

theorem skipSpaces_spaced {s : List Char} (h : Spaced s) : skipSpaces s = [] := by
  have hnil := skipSpaces_eq (s := []) h (by simp)
  rwa [List.append_nil] at hnil

theorem skipSemicolon_append (s : List Char) {t : List Char} (ht : ∀ c ∈ t.head?, c ≠ ';') :
    skipSemicolon (s ++ t) = skipSemicolon s ++ t := by
  unfold skipSemicolon
  split
  next later heq =>
    cases s with
    | nil => exact absurd rfl (ht ';' (by rw [List.nil_append] at heq; simp [heq]))
    | cons c s =>
      obtain ⟨rfl, rfl⟩ := List.cons.inj heq
      rfl
  next hnot =>
    split
    next s => exact absurd rfl (hnot (s ++ t))
    next => rfl

/-- What stands before the end of a line. -/
def Ended (s : List Char) : Prop := ∃ m t, Spaced m ∧ Closing t ∧ s = m ++ t

theorem ended_iff {s : List Char} :
    Ended s ↔ skipSpaces (skipSemicolon (skipSpaces s)) = [] := by
  constructor
  · rintro ⟨m, t, hm, ht, rfl⟩
    cases ht with
    | plain ht =>
      rw [skipSpaces_spaced (hm.append ht)]
      rfl
    | semicolon ht =>
      rw [skipSpaces_eq hm (by simp [isSpace])]
      exact skipSpaces_spaced ht
  · intro h
    obtain ⟨m, hm, heq⟩ := exists_spaces s
    refine ⟨m, skipSpaces s, hm, ?_, heq⟩
    unfold skipSemicolon at h
    split at h
    next later hlater =>
      rw [hlater]
      exact .semicolon (spaced_of_skipSpaces h)
    next => exact .plain (spaced_of_skipSpaces h)

theorem Ended.closing {s : List Char} (h : Ended s) (hs : ∀ c ∈ s.head?, isSpace c = false) :
    Closing s := by
  obtain ⟨m, t, hm, ht, rfl⟩ := h
  cases m with
  | nil => exact ht
  | cons c m =>
    have hspace := spaced_iff.mp hm c List.mem_cons_self
    rw [hs c rfl] at hspace
    cases hspace

theorem mem_of_skipped {s : List Char} {c : Char}
    (h : c ∈ skipSpaces (skipSemicolon (skipSpaces s))) : c ∈ s := by
  have hspaces {s : List Char} : skipSpaces s <:+ s := List.dropWhile_suffix isSpace
  have hsemicolon {s : List Char} : skipSemicolon s <:+ s := by
    unfold skipSemicolon
    split
    next => exact List.suffix_cons _ _
    next => exact List.suffix_refl _
  exact hspaces.mem (hsemicolon.mem (hspaces.mem h))

/-- A line is finished where nothing else stands on it, and reading goes on with the next line. -/
theorem finish_eq_ok_iff (hline : Unbroken line) (ht : Following t rest) {after : List Char} :
    finish (line ++ t) = .ok after ↔ Ended line ∧ after = rest := by
  have hspace := ht.head (p := isSpace) rfl
  have hsemicolon : ∀ c ∈ t.head?, c ≠ ';' := by
    intro c hc hmark
    cases (ht.head (p := (· == ';')) rfl c hc).symm.trans (beq_iff_eq.mpr hmark)
  rw [finish, skipSpaces_append line hspace, skipSemicolon_append _ hsemicolon,
    skipSpaces_append _ hspace, ended_iff]
  cases hleft : skipSpaces (skipSemicolon (skipSpaces line)) with
  | nil =>
    cases ht with
    | last => simp [eq_comm]
    | next => simp [eq_comm]
  | cons c left =>
    have hc : c ∈ line := mem_of_skipped (hleft ▸ List.mem_cons_self)
    have hfeed : c ≠ '\n' := fun h => hline.noFeed (h ▸ hc)
    have hreturn : c ≠ '\r' := fun h => hline.noReturn (h ▸ hc)
    simp [hfeed, hreturn]

end Trajectory.Line
