import Trajectory.Proofs.Expr.Operand

namespace Trajectory

open Text (isBlank isBlankText)
open Trajectory.Bracket (Matched outerCuts outerCutsFrom extend isBracket)

namespace Grammar

/-- Whether an expression of a category may show a cut: a sum shows anything, a product no binary
sign, a signed power no operator of a product either, and an atom no power. -/
def Category.Admits : Category → Cut → Prop
  | sum, _ => True
  | product, c => c.isBinarySign = false
  | unary, c | power, c => c.isBinarySign = false ∧ c.mark ≠ '*' ∧ c.mark ≠ '/'
  | atom, c => (c.isBinarySign = false ∧ c.mark ≠ '*' ∧ c.mark ≠ '/') ∧ c.mark ≠ '^'

/-- Every cut of a text that follows `P` may be shown by a category. -/
def Shows (k : Category) (P s : List Char) : Prop := ∀ c ∈ outerCutsFrom 0 P s, k.Admits c

theorem Category.admits_of_plain (k : Category) {c : Cut} (h : Cut.isMark c.mark = false) :
    k.Admits c := by
  have hsign := Cut.isBinarySign_of_plain h
  have hne (m : Char) (hm : Cut.isMark m = true) : c.mark ≠ m := by
    intro heq
    rw [heq, hm] at h
    cases h
  have htimes := hne '*' rfl
  have hover := hne '/' rfl
  have hcaret := hne '^' rfl
  cases k <;> simp [Admits, hsign, htimes, hover, hcaret]

namespace Shows

variable {k : Category} {P s t u v : List Char} {m : Char}

theorem of_plain (h : ∀ c ∈ s, Cut.isMark c = false) : Shows k P s :=
  fun c hc => k.admits_of_plain (h c.mark (Bracket.mark_mem_of_outerCutsFrom hc))

theorem of_blank (hs : isBlankText s = true) : Shows k P s := of_plain (isMark_of_mem_blank hs)

theorem append (hs : Matched s) : Shows k P (s ++ t) ↔ Shows k P s ∧ Shows k (s.reverse ++ P) t := by
  have hextend (c : Cut) : k.Admits (extend t c) ↔ k.Admits c := by cases k <;> exact Iff.rfl
  unfold Shows
  rw [Bracket.outerCutsFrom_append hs]
  constructor
  · intro h
    refine ⟨fun c hc => ?_, fun c hc => h c (List.mem_append_right _ hc)⟩
    exact (hextend c).mp (h _ (List.mem_append_left _ (List.mem_map_of_mem hc)))
  · rintro ⟨hleft, hright⟩ c hc
    rcases List.mem_append.mp hc with hc | hc
    · obtain ⟨d, hd, rfl⟩ := List.mem_map.mp hc
      exact (hextend d).mpr (hleft d hd)
    · exact hright c hc

theorem mark (hm : isBracket m = false) :
    Shows k P (m :: v) ↔ k.Admits ⟨P, m, v⟩ ∧ Shows k (m :: P) v := by
  simp [Shows, Bracket.outerCutsFrom_mark hm]

theorem append_mark (hu : Matched u) (hm : isBracket m = false) :
    Shows k P (u ++ m :: v) ↔
      Shows k P u ∧ k.Admits ⟨u.reverse ++ P, m, v⟩ ∧ Shows k (m :: (u.reverse ++ P)) v := by
  rw [append hu, mark hm]

theorem bracketed (hs : Matched s) : Shows k P ('(' :: s ++ [')']) := by
  simp only [Shows, Bracket.outerCutsFrom_bracketed hs, List.not_mem_nil, false_implies, implies_true]

theorem product_of_unary (h : Shows .unary P s) : Shows .product P s :=
  fun c hc => And.left (h c hc)

theorem unary_of_atom (h : Shows .atom P s) : Shows .unary P s := fun c hc => And.left (h c hc)

end Shows

theorem Category.admits_of_opens {c : Cut} (hm : c.mark = '+' ∨ c.mark = '-') (h : Opens c.reversed) :
    unary.Admits c := by
  have hsign : c.isBinarySign = false := by
    rw [Bool.eq_false_iff, ne_eq, Cut.isBinarySign_iff]
    exact fun hbinary => h.not_endsOperand hbinary.2
  refine ⟨hsign, ?_, ?_⟩ <;> rcases hm with hm | hm <;> simp [hm]

variable {α : Type} [Scalar α] {k : Category} {ts : List Token} {e : Expr α} {s P : List Char}

theorem shows_of_number {digits : List Char} (h : Decimal.NumberText digits) (hP : Opens P) :
    Shows k P digits := by
  obtain ⟨mantissa, exponent, rfl, hne, hnumber, hexponent⟩ := h.split
  have hplain : ∀ c ∈ mantissa, Cut.isMark c = false :=
    fun c hc => Cut.isMark_of_isNumberChar (hnumber c hc)
  have hdigits {t : List Char} (ht : Decimal.Digits t) : ∀ c ∈ t, Cut.isMark c = false :=
    fun c hc => Cut.isMark_of_isWordChar (Text.isWordChar_of_isDigit (ht.2 c hc))
  rw [Shows.append (matched_of_plain hplain)]
  refine ⟨.of_plain hplain, ?_⟩
  cases hexponent with
  | nil => exact .of_plain (by simp)
  | @unsigned mark t hm ht =>
    refine .of_plain fun c hc => ?_
    rcases List.mem_cons.mp hc with rfl | hc
    · rcases hm with rfl | rfl <;> rfl
    · exact hdigits ht c hc
  | @signed mark sign t hm hsign ht =>
    have hmark : Cut.isMark mark = false := by rcases hm with rfl | rfl <;> rfl
    have hbracket : isBracket sign = false := by rcases hsign with rfl | rfl <;> rfl
    have hword : ∀ c ∈ mantissa.reverse, (Text.isWordChar c || c == '.') = true := by
      intro c hc
      have hn := hnumber c (List.mem_reverse.mp hc)
      simp only [Cut.isNumberChar, Bool.or_eq_true] at hn ⊢
      exact hn.imp_left Text.isWordChar_of_isDigit
    have hends : Cut.endsInNumber (mantissa.reverse ++ P) = true := by
      unfold Cut.endsInNumber
      simp only [List.takeWhile_append_of_pos hword, hP.takeWhile_word, List.append_nil]
      simpa [hne] using hnumber
    have hbinary : (Cut.mk (mark :: (mantissa.reverse ++ P)) sign t).isBinarySign = false := by
      rw [Bool.eq_false_iff, ne_eq, Cut.isBinarySign_iff]
      rintro ⟨_, _, hearlier⟩
      rw [hearlier mark _ rfl hm] at hends
      cases hends
    rw [Shows.mark (isBracket_of_isMark hmark), Shows.mark hbracket]
    refine ⟨k.admits_of_plain hmark, ?_, .of_plain (hdigits ht)⟩
    have hne (m : Char) (h : m ≠ '+' ∧ m ≠ '-') : sign ≠ m := by
      rintro rfl
      rcases hsign with rfl | rfl <;> simp at h
    cases k <;> simp [Category.Admits, hbinary, hne]

/-- An expression shows nothing that is looser than its category. -/
theorem shows (h : Derives k ts e) (hs : Spells ts s) (hP : Opens P) : Shows k P s := by
  induction h generalizing s P with
  | product _ _ => exact fun c _ => trivial
  | sum _ _ _ _ _ => exact fun c _ => trivial
  | unary _ ih => exact (ih hs hP).product_of_unary
  | factor hm ha _ iha ihb =>
    obtain ⟨u, v, rfl, hu, hv⟩ := hs.of_append_mark
    obtain ⟨hopening, hbracket⟩ := Mark.isOpening_of_productOp hm
    rw [Shows.append_mark (matched ha hu) hbracket]
    refine ⟨iha hu hP, ?_, (ihb hv (.mark hopening _)).product_of_unary⟩
    rw [Category.Admits, Bool.eq_false_iff, ne_eq, Cut.isBinarySign_iff]
    rintro ⟨hsign, _⟩
    rcases Mark.cases_of_productOp hm with hm | hm <;> simp [hm] at hsign
  | power _ ih => exact ih hs hP
  | positive _ ih =>
    -- A sign where an operand opens is not binary, so every category admits it.
    obtain ⟨b, v, rfl, hb, hv⟩ := hs.of_mark
    rw [Shows.append_mark (matched_of_plain (isMark_of_mem_blank hb)) rfl]
    exact ⟨.of_blank hb, Category.admits_of_opens (.inl rfl) (hP.blank_append hb),
      ih hv (.mark rfl _)⟩
  | negative _ _ ih =>
    obtain ⟨b, v, rfl, hb, hv⟩ := hs.of_mark
    rw [Shows.append_mark (matched_of_plain (isMark_of_mem_blank hb)) rfl]
    exact ⟨.of_blank hb, Category.admits_of_opens (.inr rfl) (hP.blank_append hb),
      ih hv (.mark rfl _)⟩
  | atom _ ih => exact (ih hs hP).unary_of_atom
  | raised ha _ iha ihb =>
    obtain ⟨u, v, rfl, hu, hv⟩ := hs.of_append_mark
    rw [Shows.append_mark (matched ha hu) rfl]
    refine ⟨(iha hu hP).unary_of_atom, ?_, ihb hv (.mark rfl _)⟩
    simp [Category.Admits, Cut.isBinarySign, Mark.char]
  | @number digits proper v _ =>
    obtain ⟨b, c, rfl, hb, hc⟩ := hs.of_singleton
    have hblank := matched_of_plain (isMark_of_mem_blank hb)
    show Shows .atom P (b ++ (digits ++ c))
    rw [Shows.append hblank, Shows.append (matched_of_numberText proper)]
    exact ⟨.of_blank hb, shows_of_number proper (hP.blank_append hb), .of_blank hc⟩
  | @name n proper e _ =>
    obtain ⟨b, c, rfl, hb, hc⟩ := hs.of_singleton
    have hword := isMark_of_mem_identifier proper
    have hblank := matched_of_plain (isMark_of_mem_blank hb)
    show Shows .atom P (b ++ (n ++ c))
    rw [Shows.append hblank, Shows.append (matched_of_plain hword)]
    exact ⟨.of_blank hb, .of_plain hword, .of_blank hc⟩
  | bracketed hsum _ =>
    obtain ⟨b, t, c, rfl, hb, ht, hc⟩ := hs.of_bracketed
    have hblank := matched_of_plain (isMark_of_mem_blank hb)
    have ht := matched hsum ht
    rw [Shows.append hblank, Shows.append ht.bracketed]
    exact ⟨.of_blank hb, .bracketed ht, .of_blank hc⟩
  | @call n proper _ _ _ hsum _ _ =>
    obtain ⟨b, d, t, c, rfl, hb, hd, ht, hc⟩ := hs.of_call
    have hblank {b : List Char} (hb : isBlankText b = true) :=
      matched_of_plain (isMark_of_mem_blank hb)
    have hword := isMark_of_mem_identifier proper
    have ht := matched hsum ht
    rw [Shows.append (hblank hb), Shows.append (matched_of_plain hword),
      Shows.append (hblank hd), Shows.append ht.bracketed]
    exact ⟨.of_blank hb, .of_plain hword, .of_blank hd, .bracketed ht, .of_blank hc⟩

theorem product_of_shows (h : Derives .sum ts e) (hs : Spells ts s) (hP : Opens P)
    (hshows : Shows .product P s) : Derives .product ts e := by
  cases h with
  | product h => exact h
  | sum hm ha hb =>
    obtain ⟨u, v, rfl, hu, hv⟩ := hs.of_append_mark
    rw [Shows.append_mark (matched ha hu) (Mark.isOpening_of_sumOp hm).2] at hshows
    have hplain := hshows.2.1
    rw [Category.Admits, Bool.eq_false_iff, ne_eq, Cut.isBinarySign_iff] at hplain
    exact absurd ⟨Mark.cases_of_sumOp hm, endsOperand ha hu hP⟩ hplain

theorem unary_of_shows (h : Derives .sum ts e) (hs : Spells ts s) (hP : Opens P)
    (hshows : Shows .unary P s) : Derives .unary ts e := by
  cases product_of_shows h hs hP hshows.product_of_unary with
  | unary h => exact h
  | factor hm ha hb =>
    obtain ⟨u, v, rfl, hu, hv⟩ := hs.of_append_mark
    rw [Shows.append_mark (matched ha hu) (Mark.isOpening_of_productOp hm).2] at hshows
    obtain ⟨_, htimes, hover⟩ := hshows.2.1
    rcases Mark.cases_of_productOp hm with hm | hm
    · exact absurd hm htimes
    · exact absurd hm hover

/-- Nothing but a sign at its beginning tells a signed power from a power. -/
theorem power_of_head (h : Derives .unary ts e) (hs : Spells ts s)
    (hhead : ∀ c ∈ s.head?, isBlank c = false ∧ c ≠ '+' ∧ c ≠ '-') : Derives .power ts e := by
  have hsign {m : Mark} {us : List Token} (hs : Spells (.mark m :: us) s) :
      m.char ≠ '+' ∧ m.char ≠ '-' := by
    obtain ⟨b, v, rfl, hb, _⟩ := hs.of_mark
    obtain rfl := Text.eq_nil_of_head hb fun c hc => (hhead c hc).1
    exact (hhead m.char rfl).2
  cases h with
  | power h => exact h
  | positive _ => exact absurd rfl (hsign hs).1
  | negative _ _ => exact absurd rfl (hsign hs).2

theorem atom_of_shows (h : Derives .power ts e) (hs : Spells ts s) (hshows : Shows .atom P s) :
    Derives .atom ts e := by
  cases h with
  | atom h => exact h
  | raised ha _ =>
    obtain ⟨u, v, rfl, hu, hv⟩ := hs.of_append_mark
    rw [Shows.append_mark (matched ha hu) rfl] at hshows
    exact absurd rfl hshows.2.1.2

end Grammar

end Trajectory
