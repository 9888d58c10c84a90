import Trajectory.Proofs.Decimal.NumberText
import Trajectory.Proofs.Expr.Alphabet
import Trajectory.Proofs.Expr.Matched
import Trajectory.Proofs.Text

namespace Trajectory

open Text (isBlank isBlankText)

inductive Mark where
  | plus
  | minus
  | times
  | slash
  | caret
  | opening
  | closing
deriving Repr, DecidableEq

namespace Mark

def char : Mark → Char
  | plus => '+'
  | minus => '-'
  | times => '*'
  | slash => '/'
  | caret => '^'
  | opening => '('
  | closing => ')'

theorem isMark_char (m : Mark) : Cut.isMark m.char = true := by cases m <;> decide

theorem isBlank_char (m : Mark) : isBlank m.char = false := Cut.isBlank_of_isMark m.isMark_char

end Mark

/-- A word of an expression: a number, a name, an operator or a bracket. -/
inductive Token where
  | number (digits : List Char) (proper : Decimal.NumberText digits)
  | name (identifier : List Char) (proper : Text.isIdentifier identifier = true)
  | mark (m : Mark)

namespace Token

def text : Token → List Char
  | number digits _ => digits
  | name identifier _ => identifier
  | mark m => [m.char]

end Token

/-- The texts of a list of words. -/
inductive Spells : List Token → List Char → Prop
  | blank {s : List Char} (hs : isBlankText s = true) : Spells [] s
  | token {b s : List Char} {t : Token} {ts : List Token} (hb : isBlankText b = true)
      (hs : Spells ts s) : Spells (t :: ts) (b ++ (t.text ++ s))

namespace Decimal.NumberText

theorem split {s : List Char} (h : NumberText s) :
    ∃ mantissa exponent, s = mantissa ++ exponent ∧ mantissa ≠ [] ∧
      (∀ c ∈ mantissa, Cut.isNumberChar c = true) ∧ ExponentText exponent := by
  cases h with
  | @whole digits exponent hs he =>
    exact ⟨digits, exponent, rfl, hs.1, fun c hc => by simp [Cut.isNumberChar, hs.2 c hc], he⟩
  | @pointed whole places exponent hs he =>
    refine ⟨whole ++ '.' :: places, exponent, rfl, by simp, ?_, he⟩
    intro c hc
    simp only [List.mem_append, List.mem_cons] at hc
    rcases hc with hc | rfl | hc
    · simp [Cut.isNumberChar, hs.2 c (by simp [hc])]
    · rfl
    · simp [Cut.isNumberChar, hs.2 c (by simp [hc])]

theorem mem {s : List Char} (h : NumberText s) :
    ∀ c ∈ s, Cut.isNumberChar c = true ∨ c ∈ ['e', 'E', '+', '-'] := by
  obtain ⟨mantissa, exponent, rfl, _, hm, he⟩ := h.split
  intro c hc
  rcases List.mem_append.mp hc with hc | hc
  · exact .inl (hm c hc)
  · exact (he.mem c hc).imp_left fun hd => by simp [Cut.isNumberChar, hd]

theorem isBlank_of_mem {s : List Char} (h : NumberText s) : ∀ c ∈ s, isBlank c = false := by
  intro c hc
  rcases h.mem c hc with hc | hc
  · exact Cut.isBlank_of_isNumberChar hc
  · have hexponent : ['e', 'E', '+', '-'].all (fun c => !isBlank c) = true := by decide
    simpa using List.all_eq_true.mp hexponent c hc

theorem last {s : List Char} (h : NumberText s) :
    ∀ c ∈ s.getLast?, Cut.isNumberChar c = true := by
  have hdigits {t : List Char} (ht : Digits t) (c : Char) (hc : c ∈ t.getLast?) :
      Cut.isNumberChar c = true := by
    simp [Cut.isNumberChar, ht.2 c (List.mem_of_getLast? hc)]
  obtain ⟨mantissa, exponent, rfl, _, hm, he⟩ := h.split
  intro c hc
  cases he with
  | nil => exact hm c (List.mem_of_getLast? (by simpa using hc))
  | @unsigned mark t _ ht =>
    obtain ⟨d, t, rfl⟩ := List.exists_cons_of_ne_nil ht.1
    exact hdigits ht c (by simpa using hc)
  | @signed mark sign t _ _ ht =>
    obtain ⟨d, t, rfl⟩ := List.exists_cons_of_ne_nil ht.1
    exact hdigits ht c (by simpa using hc)

end Decimal.NumberText

namespace Token

theorem isBlank_of_mem_text (t : Token) : ∀ c ∈ t.text, isBlank c = false := by
  intro c hc
  cases t with
  | number digits proper => exact proper.isBlank_of_mem c hc
  | name identifier proper =>
    exact Text.isBlank_of_isWordChar (Text.isWordChar_of_isIdentifier proper c hc)
  | mark m =>
    obtain rfl := List.mem_singleton.mp hc
    exact m.isBlank_char

theorem trim_text (t : Token) {b c : List Char} (hb : isBlankText b = true)
    (hc : isBlankText c = true) : Text.trim (b ++ (t.text ++ c)) = t.text := by
  refine Text.trim_eq hb hc (fun x hx => ?_) (fun x hx => ?_)
  · exact t.isBlank_of_mem_text x (List.mem_of_mem_head? hx)
  · exact t.isBlank_of_mem_text x (List.mem_of_getLast? hx)

theorem text_ne_nil (t : Token) : t.text ≠ [] := by
  cases t with
  | number digits proper =>
    obtain ⟨mantissa, exponent, rfl, hne, _⟩ := proper.split
    simp [text, hne]
  | name identifier proper =>
    rintro rfl
    cases proper
  | mark m => simp [text]

end Token

namespace Spells

variable {ts us : List Token} {s t b : List Char}

theorem blank_append (hb : isBlankText b = true) (h : Spells ts s) : Spells ts (b ++ s) := by
  cases h with
  | blank hs => exact .blank (Text.isBlankText_append.mpr ⟨hb, hs⟩)
  | @token c s t ts hc hs =>
    rw [← List.append_assoc]
    exact .token (Text.isBlankText_append.mpr ⟨hb, hc⟩) hs

theorem append (h : Spells ts s) (ht : Spells us t) : Spells (ts ++ us) (s ++ t) := by
  induction h with
  | blank hs => exact ht.blank_append hs
  | token hb _ ih =>
    rw [List.append_assoc, List.append_assoc]
    exact .token hb ih

theorem append_blank (h : Spells ts s) (hb : isBlankText b = true) : Spells ts (s ++ b) := by
  simpa using h.append (.blank hb)

theorem singleton (t : Token) : Spells [t] t.text := by
  simpa using Spells.token (b := []) (t := t) rfl (.blank (s := []) rfl)

theorem mark (m : Mark) (h : Spells ts s) : Spells (.mark m :: ts) (m.char :: s) :=
  .token (t := .mark m) (b := []) rfl h

theorem bracketed (h : Spells ts s) :
    Spells (.mark .opening :: ts ++ [.mark .closing]) ('(' :: s ++ [')']) :=
  (h.append (singleton (.mark .closing))).mark .opening

theorem name {n : List Char} (proper : Text.isIdentifier n = true) (hb : isBlankText b = true)
    (h : Spells ts s) : Spells (.name n proper :: ts) (n ++ (b ++ s)) :=
  .token (t := .name n proper) (b := []) rfl (h.blank_append hb)

theorem of_blank_append (hb : isBlankText b = true) (h : Spells ts (b ++ s)) : Spells ts s := by
  generalize hu : b ++ s = u at h
  cases h with
  | blank hs => exact .blank (Text.isBlankText_append.mp (hu ▸ hs)).2
  | @token c v t ts hc hv =>
    rcases List.append_eq_append_iff.mp hu with ⟨d, rfl, rfl⟩ | ⟨d, rfl, hd⟩
    · exact .token (Text.isBlankText_append.mp hc).2 hv
    · have hblank := (Text.isBlankText_append.mp hb).2
      obtain rfl := Text.eq_nil_of_append_eq t.text_ne_nil t.isBlank_of_mem_text hblank hd
      obtain rfl : t.text ++ v = s := hd
      exact .token (b := []) rfl hv

theorem of_append_blank (hb : isBlankText b = true) (h : Spells ts (s ++ b)) : Spells ts s := by
  generalize hu : s ++ b = u at h
  induction h generalizing s with
  | blank hs => exact .blank (Text.isBlankText_append.mp (hu ▸ hs)).1
  | @token c v t ts hc hv ih =>
    rw [← List.append_assoc] at hu
    rcases List.append_eq_append_iff.mp hu.symm with ⟨d, rfl, hd⟩ | ⟨d, hd, rfl⟩
    · rw [List.append_assoc]
      exact .token hc (ih hd.symm)
    · have hblank := (Text.isBlankText_append.mp hb).1
      have hreverse : t.text.reverse ++ c.reverse = d.reverse ++ s.reverse := by
        rw [← List.reverse_append, ← List.reverse_append, hd]
      have hnil : d.reverse = [] := by
        refine Text.eq_nil_of_append_eq ?_ ?_ ?_ hreverse
        · simpa using t.text_ne_nil
        · simpa using t.isBlank_of_mem_text
        · rwa [Text.isBlankText_reverse]
      obtain rfl : d = [] := by simpa using hnil
      have hs : s = c ++ (t.text ++ []) := by simpa using hd.symm
      rw [hs]
      exact .token hc (ih rfl)

theorem trim (h : Spells ts s) : Spells ts (Text.trim s) := by
  obtain ⟨b, c, hb, hc, hs⟩ := Text.trim_surrounded s
  rw [hs] at h
  exact (h.of_blank_append hb).of_append_blank hc

theorem of_trim (h : Spells ts (Text.trim s)) : Spells ts s := by
  obtain ⟨b, c, hb, hc, hs⟩ := Text.trim_surrounded s
  rw [hs]
  exact (h.append_blank hc).blank_append hb

theorem of_append (h : Spells (ts ++ us) s) :
    ∃ u v, s = u ++ v ∧ Spells ts u ∧ Spells us v := by
  induction ts generalizing s with
  | nil => exact ⟨[], s, rfl, .blank rfl, h⟩
  | cons t ts ih =>
    cases h with
    | @token b s _ _ hb hs =>
      obtain ⟨u, v, rfl, hu, hv⟩ := ih hs
      exact ⟨b ++ (t.text ++ u), v, by simp, .token hb hu, hv⟩

theorem of_append_mark {m : Mark} (h : Spells (ts ++ .mark m :: us) s) :
    ∃ u v, s = u ++ m.char :: v ∧ Spells ts u ∧ Spells us v := by
  obtain ⟨u, v, rfl, hu, hv⟩ := h.of_append
  cases hv with
  | @token b v _ _ hb hv => exact ⟨u ++ b, v, by simp [Token.text], hu.append_blank hb, hv⟩

theorem of_nil (h : Spells [] s) : isBlankText s = true := by
  cases h with
  | blank hs => exact hs

theorem of_mark {m : Mark} (h : Spells (.mark m :: us) s) :
    ∃ b v, s = b ++ m.char :: v ∧ isBlankText b = true ∧ Spells us v := by
  cases h with
  | @token b v _ _ hb hv => exact ⟨b, v, rfl, hb, hv⟩

theorem of_bracketed (h : Spells (.mark .opening :: ts ++ [.mark .closing]) s) :
    ∃ b t c, s = b ++ ('(' :: t ++ [')'] ++ c) ∧ isBlankText b = true ∧ Spells ts t ∧
      isBlankText c = true := by
  obtain ⟨b, u, rfl, hb, hu⟩ := of_mark h
  obtain ⟨t, c, rfl, ht, hc⟩ := hu.of_append_mark
  exact ⟨b, t, c, by simp [Mark.char], hb, ht, hc.of_nil⟩

theorem of_call {n : List Char} {proper : Text.isIdentifier n = true}
    (h : Spells (.name n proper :: .mark .opening :: ts ++ [.mark .closing]) s) :
    ∃ b d t c, s = b ++ (n ++ (d ++ ('(' :: t ++ [')'] ++ c))) ∧ isBlankText b = true ∧
      isBlankText d = true ∧ Spells ts t ∧ isBlankText c = true := by
  cases h with
  | @token b u _ _ hb hu =>
    obtain ⟨d, t, c, rfl, hd, ht, hc⟩ := hu.of_bracketed
    exact ⟨b, d, t, c, rfl, hb, hd, ht, hc⟩

theorem of_singleton {t : Token} (h : Spells [t] s) :
    ∃ b c, s = b ++ (t.text ++ c) ∧ isBlankText b = true ∧ isBlankText c = true := by
  cases h with
  | @token b c _ _ hb hc =>
    cases hc with
    | blank hc => exact ⟨b, c, rfl, hb, hc⟩

end Spells

end Trajectory
