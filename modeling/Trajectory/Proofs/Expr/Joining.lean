import Mathlib.Data.List.Chain
import Trajectory.Number.Binary64
import Trajectory.Proofs.Expr.Depth
import Trajectory.Proofs.Expr.Place
import Trajectory.Proofs.Expr.Reading

namespace Trajectory

open Text (isBlank isBlankText size)
open Trajectory.Bracket (outerCuts)

namespace Token

def IsOperand : Token → Prop
  | mark _ => False
  | _ => True

/-- The words that an operand can end with: a number, a name or a closing bracket. -/
def EndsOperand : Token → Prop
  | mark m => m = .closing
  | _ => True

/-- The change of depth that a word makes. -/
def step : Token → Int
  | mark .opening => 1
  | mark .closing => -1
  | _ => 0

theorem rise_text (t : Token) : Bracket.rise t.text = t.step := by
  cases t with
  | number digits proper => exact Bracket.rise_of_plain (Grammar.isBracket_of_mem_number proper)
  | name identifier proper => exact Bracket.rise_of_plain (Grammar.isBracket_of_mem_identifier proper)
  | mark m => cases m <;> rfl

end Token

/-- The number of brackets that are open after some words. -/
def openBrackets : List Token → Int
  | [] => 0
  | t :: ts => t.step + openBrackets ts

theorem Spells.rise_eq {ts : List Token} {s : List Char} (h : Spells ts s) :
    Bracket.rise s = openBrackets ts := by
  have hblank {b : List Char} (hb : isBlankText b = true) : Bracket.rise b = 0 :=
    Bracket.rise_of_plain (Grammar.isBracket_of_mem_blank hb)
  induction h with
  | blank hs => exact hblank hs
  | @token b s t ts hb _ ih =>
    rw [Bracket.rise_append, Bracket.rise_append, hblank hb, t.rise_text, ih, Int.zero_add, openBrackets]

/-- No number and no name comes right after the end of an operand. -/
def Orderly (ts : List Token) : Prop := ts.IsChain fun t u => u.IsOperand → ¬ t.EndsOperand

namespace Orderly

variable {ts us before : List Token} {m : Mark}

theorem mark (hm : m ≠ .closing) (h : Orderly us) : Orderly (.mark m :: us) :=
  List.isChain_cons.mpr ⟨fun _ _ _ => hm, h⟩

theorem append_mark (h : Orderly ts) (h' : Orderly (.mark m :: us)) : Orderly (ts ++ .mark m :: us) := by
  refine List.isChain_append.mpr ⟨h, h', fun t _ u hu hoperand => ?_⟩
  obtain rfl : .mark m = u := by simpa using hu
  cases hoperand

theorem bracketed (h : Orderly ts) : Orderly (.mark .opening :: ts ++ [.mark .closing]) :=
  (h.mark (by decide)).append_mark (List.isChain_singleton _)

theorem name {n : List Char} {proper : Text.isIdentifier n = true} (h : Orderly (.mark m :: us)) :
    Orderly (.name n proper :: .mark m :: us) := by
  refine List.isChain_cons.mpr ⟨fun u hu hoperand => ?_, h⟩
  obtain rfl : .mark m = u := by simpa using hu
  cases hoperand

theorem of_derives {α : Type} [Scalar α] {k : Grammar.Category} {e : Expr α}
    (h : Grammar.Derives k ts e) : Orderly ts := by
  have hsum {m : Mark} {op : BinaryOp} (hm : m.sumOp? = some op) : m ≠ .closing := by
    rintro rfl
    cases hm
  have hproduct {m : Mark} {op : BinaryOp} (hm : m.productOp? = some op) : m ≠ .closing := by
    rintro rfl
    cases hm
  induction h with
  | product _ ih => exact ih
  | sum hm _ _ iha ihb => exact iha.append_mark (ihb.mark (hsum hm))
  | unary _ ih => exact ih
  | factor hm _ _ iha ihb => exact iha.append_mark (ihb.mark (hproduct hm))
  | power _ ih => exact ih
  | positive _ ih => exact ih.mark (by decide)
  | negative _ _ ih => exact ih.mark (by decide)
  | atom _ ih => exact ih
  | raised _ _ iha ihb => exact iha.append_mark (ihb.mark (by decide))
  | number _ => exact List.isChain_singleton _
  | name _ => exact List.isChain_singleton _
  | bracketed _ ih => exact ih.bracketed
  | call _ _ ih => exact ih.bracketed.name

theorem not_endsOperand {t : Token} (h : Orderly (before ++ t :: us)) (ht : t.IsOperand) :
    ∀ p ∈ before.getLast?, ¬ p.EndsOperand :=
  fun p hp => (List.isChain_append.mp h).2.2 p hp t rfl ht

end Orderly

section Ends

variable {before : List Token} {u : List Char}

theorem Mark.isOpening_of_ne {m : Mark} (hm : m ≠ .closing) : Cut.isOpening m.char = true := by
  cases m with
  | closing => exact absurd rfl hm
  | _ => rfl

theorem Spells.opens (hu : Spells before u) (hlast : ∀ p ∈ before.getLast?, ¬ p.EndsOperand) :
    Opens u.reverse := by
  rcases List.eq_nil_or_concat before with rfl | ⟨earlier, p, rfl⟩
  · simpa using Opens.nil.blank_append hu.of_nil
  · rw [List.concat_eq_append] at hu hlast
    have hends : ¬ p.EndsOperand := hlast p (by simp)
    cases p with
    | number digits proper => exact absurd trivial hends
    | name n proper => exact absurd trivial hends
    | mark m =>
      have hm : m ≠ .closing := hends
      obtain ⟨x, y, rfl, _, hy⟩ := hu.of_append_mark
      simpa using (Opens.mark (Mark.isOpening_of_ne hm) x.reverse).blank_append hy.of_nil

theorem Spells.endsOperand {p : Token} (hu : Spells before u) (horderly : Orderly before)
    (hp : p ∈ before.getLast?) (hends : p.EndsOperand) : Cut.EndsOperand u.reverse := by
  obtain ⟨earlier, rfl⟩ := List.getLast?_eq_some_iff.mp hp
  obtain ⟨x, y, rfl, hx, hy⟩ := hu.of_append
  obtain ⟨b, c, rfl, hb, hc⟩ := hy.of_singleton
  cases p with
  | number digits proper =>
    simpa [Token.text] using Grammar.endsOperand_of_number proper hc (x ++ b).reverse
  | name n proper =>
    have hopens := (hx.append_blank hb).opens (horderly.not_endsOperand trivial)
    simpa [Token.text] using Grammar.endsOperand_of_name proper hopens hc
  | mark m =>
    obtain rfl : m = .closing := hends
    simpa [Token.text, Mark.char] using Grammar.endsOperand_of_closing hc (x ++ b).reverse

theorem Spells.endsOperand_iff (hu : Spells before u) (horderly : Orderly before) :
    Cut.EndsOperand u.reverse ↔ ∃ p ∈ before.getLast?, p.EndsOperand := by
  constructor
  · intro h
    by_contra hnone
    push Not at hnone
    exact (hu.opens hnone).not_endsOperand h
  · rintro ⟨p, hp, hends⟩
    exact hu.endsOperand horderly hp hends

end Ends

/-- At an offset stands the sign `m`, outside all brackets and after a word that ends an operand. -/
def JoiningSign (ts : List Token) (s : List Char) (i : Nat) (m : Char) : Prop :=
  ∃ before mark, StandsAt ts s before (.mark mark) i ∧ mark.char = m ∧ (mark = .plus ∨ mark = .minus) ∧
    openBrackets before = 0 ∧ ∃ p ∈ before.getLast?, p.EndsOperand

/-- At an offset stands a sign that belongs to the operand after it. -/
def UnarySign (ts : List Token) (s : List Char) (i : Nat) : Prop :=
  ∃ before mark, StandsAt ts s before (.mark mark) i ∧ (mark = .plus ∨ mark = .minus) ∧
    ∀ p ∈ before.getLast?, ¬ p.EndsOperand

/-- The byte at an offset is one of a number. -/
def InNumber (ts : List Token) (s : List Char) (i : Nat) : Prop :=
  ∃ before digits proper j, StandsAt ts s before (.number digits proper) j ∧ j ≤ i ∧ i < j + size digits

namespace JoiningSign

variable {ts : List Token} {s : List Char} {i : Nat} {m : Char}

theorem not_unary (h : JoiningSign ts s i m) : ¬ UnarySign ts s i := by
  rintro ⟨before, mark, hstands, _, hunary⟩
  obtain ⟨earlier, mark', hstands', _, _, _, p, hp, hends⟩ := h
  have hpos := mt Text.size_eq_zero_iff.mp (Token.mark mark).text_ne_nil
  obtain ⟨rfl, _⟩ := hstands.unique hstands' (Nat.le_refl i) (by omega)
  exact hunary p hp hends

theorem not_inNumber (h : JoiningSign ts s i m) : ¬ InNumber ts s i := by
  rintro ⟨before, digits, proper, j, hstands, hle, hlt⟩
  obtain ⟨_, mark, hstands', _⟩ := h
  obtain ⟨_, hsame⟩ := hstands.unique hstands' hle hlt
  cases hsame

/-- A joining sign is where a cut at a binary sign is made. -/
theorem exists_cut (h : JoiningSign ts s i m) (horderly : Orderly ts) :
    ∃ c ∈ outerCuts s, c.isBinarySign = true ∧ c.position = i ∧ c.mark = m := by
  obtain ⟨before, mark, ⟨after, u, v, rfl, rfl, hu, _, rfl⟩, rfl, hsign, hdepth, hlast⟩ := h
  have hchar : mark.char = '+' ∨ mark.char = '-' := by
    rcases hsign with rfl | rfl
    · exact .inl rfl
    · exact .inr rfl
  have hbracket : Bracket.isBracket mark.char = false := by rcases hchar with h | h <;> rw [h] <;> rfl
  have hends := (hu.endsOperand_iff (List.isChain_append.mp horderly).1).mpr hlast
  refine ⟨⟨u.reverse, mark.char, v⟩, ?_, Cut.isBinarySign_iff.mpr ⟨hchar, hends⟩, ?_, rfl⟩
  · rw [Bracket.mem_outerCuts_iff, Cut.whole_mk, Cut.before_mk, hu.rise_eq]
    exact ⟨rfl, hdepth, hbracket⟩
  · rw [Cut.position_eq, Cut.before_mk]

/-- The sign of an exponent, which stands in a number, is no binary sign. -/
theorem isBinarySign_of_number {digits a b u : List Char} (proper : Decimal.NumberText digits)
    (hdigits : digits = a ++ m :: b) (hu : Opens u.reverse) (v : List Char) :
    Cut.isBinarySign ⟨(u ++ a).reverse, m, v⟩ = false := by
  have hplain := Grammar.isBracket_of_mem_number proper
  have hcut : (⟨(u ++ a).reverse, m, b⟩ : Cut) ∈ Bracket.outerCutsFrom 0 u.reverse digits := by
    refine Bracket.mem_outerCutsFrom_iff.mpr ⟨a, by simp, hdigits, ?_, hplain m (by simp [hdigits])⟩
    rw [Bracket.rise_of_plain fun c hc => hplain c (by simp [hdigits, hc]), Int.add_zero]
  -- What stands after a cut does not tell whether it is made at a binary sign.
  have hnumber : Cut.isBinarySign ⟨(u ++ a).reverse, m, b⟩ = false :=
    Grammar.shows_of_number (k := .product) proper hu _ hcut
  exact hnumber

/-- A cut at a binary sign is made at a joining sign: what it is made at is no part of a number or a name. -/
theorem of_cut {c : Cut} (hs : Spells ts s) (horderly : Orderly ts) (hc : c ∈ outerCuts s)
    (hsign : c.isBinarySign = true) : JoiningSign ts s c.position c.mark := by
  obtain ⟨x, m, y, rfl⟩ := c.exists_eq
  rw [Bracket.mem_outerCuts_iff, Cut.whole_mk, Cut.before_mk] at hc
  obtain ⟨rfl, hdepth, _⟩ := hc
  rw [Cut.position_eq, Cut.before_mk]
  obtain ⟨hchar, hends⟩ := Cut.isBinarySign_iff.mp hsign
  have hm : isBlank m = false := by rcases hchar with rfl | rfl <;> rfl
  obtain ⟨before, t, after, u, a, b, v, rfl, hu, hv, htext, rfl, rfl⟩ := hs.exists_word hm
  cases t with
  | number digits proper =>
    have hnumber := isBinarySign_of_number proper htext (hu.opens (horderly.not_endsOperand trivial)) (b ++ v)
    rw [hsign] at hnumber
    cases hnumber
  | name n proper =>
    have hplain : Cut.isMark m = false := Grammar.isMark_of_mem_identifier proper m (by
      rw [show n = a ++ m :: b from htext]
      simp)
    rcases hchar with rfl | rfl <;> cases hplain
  | mark mark =>
    obtain ⟨rfl, rfl, rfl⟩ : a = [] ∧ mark.char = m ∧ b = [] := by
      cases a <;> simp_all [Token.text]
    have hlast := (hu.endsOperand_iff (List.isChain_append.mp horderly).1).mp (by simpa using hends)
    refine ⟨before, mark, ⟨after, u, v, rfl, by simp [Token.text], hu, hv, by simp⟩, rfl, ?_, ?_, hlast⟩
    · cases mark <;> simp_all [Mark.char]
    · rw [← hu.rise_eq]
      simpa using hdepth

end JoiningSign

namespace Grammar

open Trajectory.Bracket (lastBinarySign?)

variable {α : Type} [Scalar α] {ts : List Token} {e : Expr α} {s : List Char}

/-- In the text of an expression the search for the last binary sign finds the last joining sign, and nothing if and
only if there is none: never a unary sign and never a byte of a number. -/
theorem lastBinarySign_joins (h : Derives .sum ts e) (hs : Spells ts s) :
    (∀ i m, (lastBinarySign? s).map (fun c => (c.position, c.mark)) = some (i, m) ↔
      JoiningSign ts s i m ∧ ∀ j n, JoiningSign ts s j n → j ≤ i) ∧
    (lastBinarySign? s = none ↔ ∀ i m, ¬ JoiningSign ts s i m) ∧
    ∀ c, lastBinarySign? s = some c → ¬ UnarySign ts s c.position ∧ ¬ InNumber ts s c.position := by
  have horderly := Orderly.of_derives h
  rw [Bracket.lastBinarySign_eq]
  refine ⟨fun i m => ?_, ?_, fun c hc => ?_⟩
  · rw [Option.map_eq_some_iff]
    constructor
    · rintro ⟨c, hc, heq⟩
      obtain ⟨rfl, rfl⟩ := Prod.mk.inj heq
      obtain ⟨⟨hmem, hsign⟩, hgreatest⟩ := Bracket.lastCut_eq_some_iff_greatest.mp hc
      refine ⟨.of_cut hs horderly hmem hsign, fun j n hjoin => ?_⟩
      obtain ⟨d, hd, hdsign, rfl, _⟩ := hjoin.exists_cut horderly
      exact hgreatest d hd hdsign
    · rintro ⟨hjoin, hgreatest⟩
      obtain ⟨c, hc, hsign, rfl, rfl⟩ := hjoin.exists_cut horderly
      refine ⟨c, Bracket.lastCut_eq_some_iff_greatest.mpr ⟨⟨hc, hsign⟩, fun d hd hdsign => ?_⟩, rfl⟩
      exact hgreatest _ _ (.of_cut hs horderly hd hdsign)
  · rw [Bracket.lastCut_eq_none_iff]
    constructor
    · intro hnone i m hjoin
      obtain ⟨c, hc, hsign, _⟩ := hjoin.exists_cut horderly
      rw [hnone c hc] at hsign
      cases hsign
    · intro hnone c hc
      rw [Bool.eq_false_iff]
      exact fun hsign => hnone _ _ (.of_cut hs horderly hc hsign)
  · obtain ⟨⟨hmem, hsign⟩, _⟩ := Bracket.lastCut_eq_some_iff_greatest.mp hc
    have hjoin := JoiningSign.of_cut hs horderly hmem hsign
    exact ⟨hjoin.not_unary, hjoin.not_inNumber⟩

/-- A joining sign before an exponent, a difference in brackets and a factor that have signs of their own. -/
def signsExample : List Char := "xe - 3e-1*(a-b)*-y".toList

theorem lastBinarySign_joins_signs : ∃ ts, ∃ e : Expr Float, Derives .sum ts e ∧ Spells ts signsExample ∧
    (lastBinarySign? signsExample).map (fun c => (c.position, c.mark)) = some (3, '-') ∧
    JoiningSign ts signsExample 3 '-' ∧ (∀ j n, JoiningSign ts signsExample j n → j ≤ 3) ∧
    ¬ UnarySign ts signsExample 3 ∧ ¬ InNumber ts signsExample 3 := by
  have hname {n : List Char} (proper : Text.isIdentifier n = true) :
      ∃ e : Expr Float, Derives .atom [.name n proper] e ∧ Spells [.name n proper] n :=
    ⟨_, .name (named_iff.mpr rfl), .singleton (.name n proper)⟩
  have proper : Decimal.NumberText "3e-1".toList := Decimal.read_isSome_iff.mp (by decide +kernel)
  obtain ⟨v, hv⟩ : ∃ v : Float, Scalar.ofDecimalText? "3e-1".toList = some v := by
    refine Option.isSome_iff_exists.mp ?_
    rw [Scalar.ofDecimalText?, Option.isSome_map]
    exact Decimal.read_isSome_iff.mpr proper
  have hnumber : Derives .atom [.number _ proper] (.const v) := .number hv
  obtain ⟨xe, hxe, hxeText⟩ := hname (n := ['x', 'e']) (by decide)
  obtain ⟨a, ha, haText⟩ := hname (n := ['a']) (by decide)
  obtain ⟨b, hb, hbText⟩ := hname (n := ['b']) (by decide)
  obtain ⟨y, hy, hyText⟩ := hname (n := ['y']) (by decide)
  have hdifference := Derives.sum (m := .minus) rfl ha.sum_of_atom (.unary (.power (.atom hb)))
  have hproduct := Derives.factor (m := .times) rfl (.unary (.power (.atom hnumber)))
    (.power (.atom (.bracketed hdifference)))
  have hfactors := Derives.factor (m := .times) rfl hproduct
    (.negative (.power (.atom hy)) (negated_iff.mpr rfl))
  have hsum := Derives.sum (m := .minus) rfl hxe.sum_of_atom hfactors
  have hblank : isBlankText [' '] = true := by decide
  have hinner := spells_append_mark (n := .minus) haText hbText
  have hleft := spells_append_mark (n := .times) (.singleton (.number _ proper)) hinner.bracketed
  have hright := spells_append_mark (n := .times) hleft (hyText.mark .minus)
  have hspells : Spells _ signsExample :=
    spells_append_mark (n := .minus) (hxeText.append_blank hblank) (hright.blank_append hblank)
  have hfound : (lastBinarySign? signsExample).map (fun c => (c.position, c.mark)) = some (3, '-') := by
    decide +kernel
  obtain ⟨hlast, _, hnever⟩ := lastBinarySign_joins hsum hspells
  obtain ⟨hjoin, hgreatest⟩ := (hlast 3 '-').mp hfound
  obtain ⟨c, hc, hpair⟩ := Option.map_eq_some_iff.mp hfound
  have hposition : c.position = 3 := (Prod.mk.inj hpair).1
  have hthree := hnever c hc
  rw [hposition] at hthree
  exact ⟨_, _, hsum, hspells, hfound, hjoin, hgreatest, hthree⟩

end Grammar

end Trajectory
