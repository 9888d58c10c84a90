import Trajectory.Expr.Sign
import Trajectory.Proofs.Text

namespace Trajectory

namespace Text

theorem isDigit_iff {c : Char} : isDigit c = true ↔ 48 ≤ c.toNat ∧ c.toNat ≤ 57 := by
  simp [isDigit, Char.isDigit, UInt32.le_iff_toNat_le]

theorem isLetter_iff {c : Char} : isLetter c = true ↔
    (65 ≤ c.toNat ∧ c.toNat ≤ 90) ∨ (97 ≤ c.toNat ∧ c.toNat ≤ 122) := by
  have halpha : c.isAlpha = (decide (65 ≤ c.val ∧ c.val ≤ 90) ||
      decide (97 ≤ c.val) && decide (c.val ≤ 122)) := rfl
  simp [isLetter, halpha, UInt32.le_iff_toNat_le]

theorem isWordChar_iff {c : Char} : isWordChar c = true ↔
    (48 ≤ c.toNat ∧ c.toNat ≤ 57) ∨ (65 ≤ c.toNat ∧ c.toNat ≤ 90) ∨ c.toNat = 95 ∨
      (97 ≤ c.toNat ∧ c.toNat ≤ 122) := by
  have hunderscore : c = '_' ↔ c.toNat = 95 := Char.toNat_inj.symm
  simp only [isWordChar, Bool.or_eq_true, beq_iff_eq, isLetter_iff, isDigit_iff, hunderscore]
  omega

theorem isWordChar_of_isDigit {c : Char} (h : isDigit c = true) : isWordChar c = true := by
  simp [isWordChar, h]

theorem isDigit_of_isIdentifierStart {c : Char} (h : isIdentifierStart c = true) :
    isDigit c = false := by
  have hunderscore : c = '_' ↔ c.toNat = 95 := Char.toNat_inj.symm
  simp only [isIdentifierStart, Bool.or_eq_true, beq_iff_eq, isLetter_iff, hunderscore] at h
  rw [Bool.eq_false_iff, ne_eq, isDigit_iff]
  omega

theorem isBlank_of_isWordChar {c : Char} (h : isWordChar c = true) : isBlank c = false := by
  rw [isWordChar_iff] at h
  simp only [isBlank, Bool.or_eq_false_iff, Bool.and_eq_false_iff, decide_eq_false_iff_not,
    beq_eq_false_iff_ne]
  omega

end Text

namespace Cut

open Text

/-- The operators and brackets of expressions. -/
def isMark (c : Char) : Bool := isOpening c || c == ')'

theorem toNat_of_isMark {c : Char} (h : isMark c = true) : c.toNat ∈ [43, 45, 42, 47, 94, 40, 41] := by
  simp only [isMark, isOpening, Bool.or_eq_true, beq_iff_eq, or_assoc] at h
  rcases h with rfl | rfl | rfl | rfl | rfl | rfl | rfl <;> decide

theorem isBlank_of_isMark {c : Char} (h : isMark c = true) : isBlank c = false := by
  have hn := toNat_of_isMark h
  simp only [List.mem_cons, List.not_mem_nil, or_false] at hn
  simp only [isBlank, Bool.or_eq_false_iff, Bool.and_eq_false_iff, decide_eq_false_iff_not,
    beq_eq_false_iff_ne]
  omega

theorem isWordChar_of_isMark {c : Char} (h : isMark c = true) : isWordChar c = false := by
  have hn := toNat_of_isMark h
  simp only [List.mem_cons, List.not_mem_nil, or_false] at hn
  rw [Bool.eq_false_iff, ne_eq, isWordChar_iff]
  omega

theorem isMark_of_isBlank {c : Char} (h : isBlank c = true) : isMark c = false :=
  Bool.eq_false_iff.mpr fun hm => by simp [isBlank_of_isMark hm] at h

theorem isMark_of_isWordChar {c : Char} (h : isWordChar c = true) : isMark c = false :=
  Bool.eq_false_iff.mpr fun hm => by simp [isWordChar_of_isMark hm] at h

theorem isMark_of_isOpening {c : Char} (h : isOpening c = true) : isMark c = true := by
  simp [isMark, h]

theorem isMark_of_isBracket {c : Char} (h : Bracket.isBracket c = true) : isMark c = true := by
  simp only [Bracket.isBracket, Bool.or_eq_true, beq_iff_eq] at h
  rcases h with rfl | rfl <;> decide

theorem isMark_of_isNumberChar {c : Char} (h : isNumberChar c = true) : isMark c = false := by
  simp only [isNumberChar, Bool.or_eq_true, beq_iff_eq] at h
  rcases h with h | rfl
  · exact isMark_of_isWordChar (isWordChar_of_isDigit h)
  · decide

theorem isBlank_of_isNumberChar {c : Char} (h : isNumberChar c = true) : isBlank c = false := by
  simp only [isNumberChar, Bool.or_eq_true, beq_iff_eq] at h
  rcases h with h | rfl
  · exact isBlank_of_isWordChar (isWordChar_of_isDigit h)
  · decide

end Cut

end Trajectory
