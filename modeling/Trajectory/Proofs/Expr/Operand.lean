import Trajectory.Proofs.Expr.Grammar

namespace Trajectory

open Text (isBlank isBlankText isWordChar)
open Trajectory.Bracket (Matched outerCutsFrom extend isBracket)

namespace Cut

/-- The text before a cut that a binary sign can be made at. -/
def EndsOperand (reversed : List Char) : Prop :=
  (∃ p ∈ (reversed.dropWhile isBlank).head?, isOpening p = false) ∧
    ∀ p earlier, reversed = p :: earlier → p = 'e' ∨ p = 'E' → endsInNumber earlier = false

theorem isBinarySign_iff {c : Cut} : c.isBinarySign = true ↔
    (c.mark = '+' ∨ c.mark = '-') ∧ EndsOperand c.reversed := by
  have hfollows : c.followsExponentMark = false ↔
      ∀ p earlier, c.reversed = p :: earlier → p = 'e' ∨ p = 'E' → endsInNumber earlier = false := by
    unfold followsExponentMark
    split
    next h => simp [h]
    next p earlier h => simp [h]
  unfold isBinarySign EndsOperand
  rw [← hfollows]
  split
  next h => simp [h]
  next p rest h => simp [h]

theorem isBinarySign_of_plain {c : Cut} (h : isMark c.mark = false) : c.isBinarySign = false := by
  rw [Bool.eq_false_iff, ne_eq, isBinarySign_iff]
  rintro ⟨hm | hm, _⟩ <;> · rw [hm] at h; cases h

theorem isOpening_of_isMark {c : Char} (h : isMark c = false) : isOpening c = false :=
  Bool.eq_false_iff.mpr fun ho => by simp [isMark_of_isOpening ho] at h

end Cut

/-- Nothing but blanks, or an operator or an opening bracket before them. -/
def Opens (reversed : List Char) : Prop :=
  ∀ c ∈ (reversed.dropWhile isBlank).head?, Cut.isOpening c = true

namespace Opens

variable {P : List Char}

theorem nil : Opens [] := by simp [Opens]

theorem mark {c : Char} (hc : Cut.isOpening c = true) (P : List Char) : Opens (c :: P) := by
  have hblank := Cut.isBlank_of_isMark (Cut.isMark_of_isOpening hc)
  simp [Opens, hblank, hc]

theorem blank_append {b : List Char} (hb : isBlankText b = true) (h : Opens P) :
    Opens (b.reverse ++ P) := by
  have hall : ∀ c ∈ b.reverse, isBlank c = true := by simpa [isBlankText] using hb
  rwa [Opens, List.dropWhile_append_of_pos hall]

theorem takeWhile_word (h : Opens P) :
    P.takeWhile (fun c => isWordChar c || c == '.') = [] := by
  cases P with
  | nil => rfl
  | cons c P =>
    have hc : (isWordChar c || c == '.') = false := by
      cases hb : isBlank c with
      | true =>
        have hword : isWordChar c = false := Bool.eq_false_iff.mpr fun hw => by
          simp [Text.isBlank_of_isWordChar hw] at hb
        have hpoint : c ≠ '.' := by
          rintro rfl
          cases hb
        simp [hword, hpoint]
      | false =>
        have hm := Cut.isMark_of_isOpening (h c (by simp [hb]))
        have hpoint : c ≠ '.' := by
          rintro rfl
          cases hm
        simp [Cut.isWordChar_of_isMark hm, hpoint]
    simp [hc]

theorem not_endsOperand (h : Opens P) : ¬ Cut.EndsOperand P := by
  rintro ⟨⟨p, hp, hopening⟩, _⟩
  rw [h p hp] at hopening
  cases hopening

end Opens

theorem Cut.endsOperand_of_last {w b P : List Char} {p : Char} (hp : isBlank p = false)
    (hopening : isOpening p = false)
    (he : p = 'e' ∨ p = 'E' → endsInNumber (w.reverse ++ P) = false) (hb : isBlankText b = true) :
    EndsOperand ((w ++ p :: b).reverse ++ P) := by
  have hall : ∀ c ∈ b.reverse, isBlank c = true := by simpa [isBlankText] using hb
  have hreverse : (w ++ p :: b).reverse ++ P = b.reverse ++ p :: (w.reverse ++ P) := by simp
  rw [hreverse]
  refine ⟨⟨p, by simp [List.dropWhile_append_of_pos hall, hp], hopening⟩, ?_⟩
  intro q earlier hq hmark
  cases hrev : b.reverse with
  | nil =>
    rw [hrev] at hq
    obtain ⟨rfl, rfl⟩ := List.cons.inj hq
    exact he hmark
  | cons c rest =>
    rw [hrev] at hq
    obtain ⟨rfl, _⟩ := List.cons.inj hq
    have hblank := hall c (by simp [hrev])
    rcases hmark with rfl | rfl <;> cases hblank

namespace Mark

theorem cases_of_sumOp {m : Mark} {op : BinaryOp} (h : m.sumOp? = some op) :
    m.char = '+' ∨ m.char = '-' := by
  cases m <;> simp_all [sumOp?, char]

theorem cases_of_productOp {m : Mark} {op : BinaryOp} (h : m.productOp? = some op) :
    m.char = '*' ∨ m.char = '/' := by
  cases m <;> simp_all [productOp?, char]

theorem isOpening_of_sumOp {m : Mark} {op : BinaryOp} (h : m.sumOp? = some op) :
    Cut.isOpening m.char = true ∧ isBracket m.char = false := by
  rcases cases_of_sumOp h with h | h <;> rw [h] <;> decide

theorem isOpening_of_productOp {m : Mark} {op : BinaryOp} (h : m.productOp? = some op) :
    Cut.isOpening m.char = true ∧ isBracket m.char = false := by
  rcases cases_of_productOp h with h | h <;> rw [h] <;> decide

end Mark

namespace Grammar

variable {α : Type} [Scalar α] {k : Category} {ts : List Token} {e : Expr α} {s P : List Char}

theorem isBracket_of_isMark {c : Char} (h : Cut.isMark c = false) : isBracket c = false :=
  Bool.eq_false_iff.mpr fun hb => by simp [Cut.isMark_of_isBracket hb] at h

theorem matched_of_plain (h : ∀ c ∈ s, Cut.isMark c = false) : Matched s :=
  .of_plain fun c hc => isBracket_of_isMark (h c hc)

theorem isMark_of_mem_blank {b : List Char} (hb : isBlankText b = true) :
    ∀ c ∈ b, Cut.isMark c = false :=
  fun c hc => Cut.isMark_of_isBlank (List.all_eq_true.mp hb c hc)

theorem isMark_of_mem_identifier {n : List Char} (hn : Text.isIdentifier n = true) :
    ∀ c ∈ n, Cut.isMark c = false :=
  fun c hc => Cut.isMark_of_isWordChar (Text.isWordChar_of_isIdentifier hn c hc)

theorem isBracket_of_mem_blank {b : List Char} (hb : isBlankText b = true) :
    ∀ c ∈ b, isBracket c = false :=
  fun c hc => isBracket_of_isMark (isMark_of_mem_blank hb c hc)

theorem isBracket_of_mem_identifier {n : List Char} (hn : Text.isIdentifier n = true) :
    ∀ c ∈ n, isBracket c = false :=
  fun c hc => isBracket_of_isMark (isMark_of_mem_identifier hn c hc)

theorem isBracket_of_mem_number (h : Decimal.NumberText s) : ∀ c ∈ s, isBracket c = false := by
  intro c hc
  rcases h.mem c hc with hc | hc
  · exact isBracket_of_isMark (Cut.isMark_of_isNumberChar hc)
  · have hexponent : ['e', 'E', '+', '-'].all (fun c => !isBracket c) = true := by decide
    simpa using List.all_eq_true.mp hexponent c hc

theorem matched_of_numberText (h : Decimal.NumberText s) : Matched s :=
  .of_plain (isBracket_of_mem_number h)

/-- The brackets of an expression match. -/
theorem matched (h : Derives k ts e) (hs : Spells ts s) : Matched s := by
  have hblank {b : List Char} (hb : isBlankText b = true) : Matched b :=
    matched_of_plain (isMark_of_mem_blank hb)
  induction h generalizing s with
  | product _ ih => exact ih hs
  | sum hm _ _ iha ihb =>
    obtain ⟨u, v, rfl, hu, hv⟩ := hs.of_append_mark
    exact (iha hu).append (.plain (Mark.isOpening_of_sumOp hm).2 (ihb hv))
  | unary _ ih => exact ih hs
  | factor hm _ _ iha ihb =>
    obtain ⟨u, v, rfl, hu, hv⟩ := hs.of_append_mark
    exact (iha hu).append (.plain (Mark.isOpening_of_productOp hm).2 (ihb hv))
  | power _ ih => exact ih hs
  | positive _ ih =>
    obtain ⟨u, v, rfl, hu, hv⟩ := hs.of_mark
    exact (hblank hu).append (.plain rfl (ih hv))
  | negative _ _ ih =>
    obtain ⟨u, v, rfl, hu, hv⟩ := hs.of_mark
    exact (hblank hu).append (.plain rfl (ih hv))
  | atom _ ih => exact ih hs
  | raised _ _ iha ihb =>
    obtain ⟨u, v, rfl, hu, hv⟩ := hs.of_append_mark
    exact (iha hu).append (.plain rfl (ihb hv))
  | @number digits proper v _ =>
    obtain ⟨b, c, rfl, hb, hc⟩ := hs.of_singleton
    exact (hblank hb).append ((matched_of_numberText proper).append (hblank hc))
  | @name n proper e _ =>
    obtain ⟨b, c, rfl, hb, hc⟩ := hs.of_singleton
    exact (hblank hb).append (.append (matched_of_plain (isMark_of_mem_identifier proper)) (hblank hc))
  | bracketed _ ih =>
    obtain ⟨b, t, c, rfl, hb, ht, hc⟩ := hs.of_bracketed
    exact (hblank hb).append (.append (.bracketed (ih ht)) (hblank hc))
  | @call n proper _ _ _ _ _ ih =>
    obtain ⟨b, d, t, c, rfl, hb, hd, ht, hc⟩ := hs.of_call
    refine (hblank hb).append (.append (matched_of_plain (isMark_of_mem_identifier proper)) ?_)
    exact (hblank hd).append ((Matched.bracketed (ih ht)).append (hblank hc))

theorem endsInNumber_of_identifier {w : List Char} {p : Char}
    (hn : Text.isIdentifier (w ++ [p]) = true) (hP : Opens P) :
    Cut.endsInNumber (w.reverse ++ P) = false := by
  have hword : ∀ c ∈ w.reverse, (isWordChar c || c == '.') = true := by
    intro c hc
    have hmem : c ∈ w ++ [p] := List.mem_append_left _ (List.mem_reverse.mp hc)
    simp [Text.isWordChar_of_isIdentifier hn c hmem]
  unfold Cut.endsInNumber
  simp only [List.takeWhile_append_of_pos hword, hP.takeWhile_word, List.append_nil]
  cases w with
  | nil => rfl
  | cons a w =>
    have hstart : Text.isIdentifierStart a = true := by
      simp only [List.cons_append, Text.isIdentifier, Bool.and_eq_true] at hn
      exact hn.1
    have hpoint : a ≠ '.' := by
      rintro rfl
      cases hstart
    have hnumber : Cut.isNumberChar a = false := by
      simp [Cut.isNumberChar, Text.isDigit_of_isIdentifierStart hstart, hpoint]
    simp [hnumber]

theorem exists_last {w : List Char} (h : w ≠ []) : ∃ v p, w = v ++ [p] :=
  ⟨w.dropLast, w.getLast h, (List.dropLast_concat_getLast h).symm⟩

theorem endsOperand_of_number {digits c : List Char} (proper : Decimal.NumberText digits)
    (hc : isBlankText c = true) (P : List Char) : Cut.EndsOperand ((digits ++ c).reverse ++ P) := by
  obtain ⟨w, p, rfl⟩ := exists_last (Token.number digits proper).text_ne_nil
  have hlast : Cut.isNumberChar p = true := proper.last p (by simp)
  have hexponent : ¬ (p = 'e' ∨ p = 'E') := by
    rintro (rfl | rfl) <;> cases hlast
  have hopening := Cut.isOpening_of_isMark (Cut.isMark_of_isNumberChar hlast)
  rw [List.append_assoc]
  exact Cut.endsOperand_of_last (Cut.isBlank_of_isNumberChar hlast) hopening
    (fun he => absurd he hexponent) hc

theorem endsOperand_of_name {n c : List Char} (proper : Text.isIdentifier n = true) (hP : Opens P)
    (hc : isBlankText c = true) : Cut.EndsOperand ((n ++ c).reverse ++ P) := by
  obtain ⟨w, p, rfl⟩ := exists_last (Token.name n proper).text_ne_nil
  have hlast : isWordChar p = true := Text.isWordChar_of_isIdentifier proper p (by simp)
  have hopening := Cut.isOpening_of_isMark (Cut.isMark_of_isWordChar hlast)
  rw [List.append_assoc]
  exact Cut.endsOperand_of_last (Text.isBlank_of_isWordChar hlast) hopening
    (fun _ => endsInNumber_of_identifier proper hP) hc

theorem endsOperand_of_closing {c : List Char} (hc : isBlankText c = true) (P : List Char) :
    Cut.EndsOperand ((')' :: c).reverse ++ P) :=
  Cut.endsOperand_of_last (w := []) rfl rfl (by simp) hc

/-- A binary sign can follow any expression. -/
theorem endsOperand (h : Derives k ts e) (hs : Spells ts s) (hP : Opens P) :
    Cut.EndsOperand (s.reverse ++ P) := by
  induction h generalizing s P with
  | product _ ih => exact ih hs hP
  | sum hm _ _ _ ihb =>
    -- The last operand ends the text, and the operator opens what is before it.
    obtain ⟨u, v, rfl, _, hv⟩ := hs.of_append_mark
    simpa using ihb hv (.mark (Mark.isOpening_of_sumOp hm).1 (u.reverse ++ P))
  | unary _ ih => exact ih hs hP
  | factor hm _ _ _ ihb =>
    obtain ⟨u, v, rfl, _, hv⟩ := hs.of_append_mark
    simpa using ihb hv (.mark (Mark.isOpening_of_productOp hm).1 (u.reverse ++ P))
  | power _ ih => exact ih hs hP
  | positive _ ih =>
    obtain ⟨u, v, rfl, _, hv⟩ := hs.of_mark
    simpa using ih hv (.mark rfl (u.reverse ++ P))
  | negative _ _ ih =>
    obtain ⟨u, v, rfl, _, hv⟩ := hs.of_mark
    simpa using ih hv (.mark rfl (u.reverse ++ P))
  | atom _ ih => exact ih hs hP
  | raised _ _ _ ihb =>
    obtain ⟨u, v, rfl, _, hv⟩ := hs.of_append_mark
    simpa using ihb hv (.mark rfl (u.reverse ++ P))
  | @number digits proper v _ =>
    obtain ⟨b, c, rfl, _, hc⟩ := hs.of_singleton
    simpa [Token.text] using endsOperand_of_number proper hc (b.reverse ++ P)
  | @name n proper e _ =>
    obtain ⟨b, c, rfl, hb, hc⟩ := hs.of_singleton
    simpa [Token.text] using endsOperand_of_name proper (hP.blank_append hb) hc
  | bracketed _ _ =>
    obtain ⟨b, t, c, rfl, _, _, hc⟩ := hs.of_bracketed
    simpa using endsOperand_of_closing hc ((b ++ '(' :: t).reverse ++ P)
  | @call n _ _ _ _ _ _ _ =>
    obtain ⟨b, d, t, c, rfl, _, _, _, hc⟩ := hs.of_call
    simpa using endsOperand_of_closing hc ((b ++ (n ++ (d ++ '(' :: t))).reverse ++ P)

end Grammar

end Trajectory
