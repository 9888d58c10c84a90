import Trajectory.Proofs.Decimal.WrittenNumber

namespace Trajectory.Decimal

open Text (isDigit)

/-- Digits without a zero before others. -/
inductive PlainDigits : List Char → Prop
  | zero : PlainDigits ['0']
  | more {c : Char} {s : List Char} (hc : c ≠ '0') (hs : Digits (c :: s)) : PlainDigits (c :: s)

inductive PlainInteger : List Char → Prop
  | natural {s : List Char} (hs : PlainDigits s) : PlainInteger s
  | negative {s : List Char} (hs : PlainDigits s) (hne : s ≠ ['0']) : PlainInteger ('-' :: s)

theorem PlainDigits.digits {s : List Char} (h : PlainDigits s) : Digits s := by
  cases h with
  | zero => exact ⟨by simp, by simp [isDigit]⟩
  | more _ hs => exact hs

theorem PlainInteger.mem {s : List Char} (h : PlainInteger s) : ∀ c ∈ s, isDigit c = true ∨ c = '-' := by
  intro c hc
  cases h with
  | natural hs => exact .inl (hs.digits.2 c hc)
  | negative hs _ =>
    rcases List.mem_cons.mp hc with rfl | hc
    · exact .inr rfl
    · exact .inl (hs.digits.2 c hc)

theorem toNat_of_isDigit {c : Char} (h : isDigit c = true) :
    c.toNat - '0'.toNat < 10 ∧ Nat.digitChar (c.toNat - '0'.toNat) = c := by
  have hrange : 48 ≤ c.toNat ∧ c.toNat ≤ 57 := Char.isDigit_iff_toNat.mp h
  have hzero : '0'.toNat = 48 := rfl
  have hless : c.toNat - '0'.toNat < 10 := by omega
  refine ⟨hless, Char.toNat_inj.mp ?_⟩
  rw [Nat.toNat_digitChar_of_lt_ten hless]
  omega

theorem digit_pos {c : Char} (h : isDigit c = true) (hc : c ≠ '0') : 0 < c.toNat - '0'.toNat := by
  refine Nat.pos_of_ne_zero fun hzero => hc ?_
  rw [← (toNat_of_isDigit h).2, hzero]
  rfl

theorem toDigits_ofDigitChars {s : List Char} (hs : ∀ c ∈ s, isDigit c = true) {n : Nat} (hn : 0 < n) :
    Nat.toDigits 10 (Nat.ofDigitChars 10 s n) = Nat.toDigits 10 n ++ s := by
  induction s generalizing n with
  | nil => simp
  | cons c s ih =>
    obtain ⟨hfirst, hrest⟩ := List.forall_mem_cons.mp hs
    obtain ⟨hless, hchar⟩ := toNat_of_isDigit hfirst
    have hlater := ih hrest (n := 10 * n + (c.toNat - '0'.toNat)) (by omega)
    rw [Nat.ofDigitChars_cons, hlater, ← Nat.toDigits_append_toDigits (by decide) hn hless,
      Nat.toDigits_of_lt_base hless, hchar, List.append_assoc]
    rfl

theorem toDigits_ofDigits {s : List Char} (h : PlainDigits s) : Nat.toDigits 10 (ofDigits s) = s := by
  cases h with
  | zero => rfl
  | @more c s hc hs =>
    obtain ⟨hfirst, hrest⟩ := List.forall_mem_cons.mp hs.2
    obtain ⟨hless, hchar⟩ := toNat_of_isDigit hfirst
    have hpos := digit_pos hfirst hc
    have hdigits : ofDigits (c :: s) = Nat.ofDigitChars 10 s (c.toNat - '0'.toNat) := by
      show Nat.ofDigitChars 10 (c :: s) 0 = _
      rw [Nat.ofDigitChars_cons, Nat.mul_zero, Nat.zero_add]
    rw [hdigits, toDigits_ofDigitChars hrest hpos, Nat.toDigits_of_lt_base hless, hchar]
    rfl

theorem ofDigits_pos {s : List Char} (h : PlainDigits s) (hne : s ≠ ['0']) : 0 < ofDigits s := by
  refine Nat.pos_of_ne_zero fun hzero => hne ?_
  rw [← toDigits_ofDigits h, hzero]
  rfl

theorem exists_toDigits {n : Nat} (hn : 0 < n) : ∃ c s, Nat.toDigits 10 n = c :: s ∧ c ≠ '0' := by
  induction n using Nat.strongRecOn with
  | ind n ih =>
    rw [Nat.toDigits_eq_if (by decide)]
    split
    next hless =>
      refine ⟨_, [], rfl, ?_⟩
      interval_cases n <;> decide
    next hless =>
      obtain ⟨c, s, hdigits, hc⟩ := ih (n / 10) (by omega) (by omega)
      exact ⟨c, s ++ _, by rw [hdigits, List.cons_append], hc⟩

theorem plainDigits_toDigits (n : Nat) : PlainDigits (Nat.toDigits 10 n) := by
  rcases Nat.eq_zero_or_pos n with rfl | hn
  · exact .zero
  · obtain ⟨c, s, hdigits, hc⟩ := exists_toDigits hn
    have hall : Digits (Nat.toDigits 10 n) := digits_digits n
    rw [hdigits] at hall ⊢
    exact .more hc hall

theorem toList_negSucc (m : Nat) :
    (toString (Int.negSucc m)).toList = '-' :: Nat.toDigits 10 (m + 1) := by
  simp [toString, Int.repr]

theorem plainInteger_toString (n : Int) : PlainInteger (toString n).toList := by
  cases n with
  | ofNat m =>
    have hlist : (toString (Int.ofNat m)).toList = Nat.toDigits 10 m := Nat.toList_repr
    rw [hlist]
    exact .natural (plainDigits_toDigits m)
  | negSucc m =>
    rw [toList_negSucc]
    refine .negative (plainDigits_toDigits (m + 1)) fun hzero => ?_
    obtain ⟨c, s, hdigits, hc⟩ := exists_toDigits (Nat.succ_pos m)
    rw [hdigits] at hzero
    exact hc (List.cons.inj hzero).1

theorem PlainDigits.natural_eq {s : List Char} (h : PlainDigits s) : natural? s = some (ofDigits s) := by
  have hall : s.all isDigit = true := List.all_eq_true.mpr h.digits.2
  rw [natural?, hall]
  simp [h.digits.1]

theorem integer_eq_natural {s : List Char} (hs : Digits s) :
    integer? s = (natural? s).map fun n => (n : Int) := by
  unfold integer?
  split
  next => exact absurd hs (not_digits_of_sign (.inr rfl))
  next => exact absurd hs (not_digits_of_sign (.inl rfl))
  next => rfl

theorem toString_eq {s : List Char} (h : PlainInteger s) {n : Int} (hn : integer? s = some n) :
    toString n = String.ofList s := by
  refine String.toList_inj.mp ?_
  rw [String.toList_ofList]
  cases h with
  | natural hs =>
    rw [integer_eq_natural hs.digits, hs.natural_eq] at hn
    obtain rfl : (ofDigits s : Int) = n := Option.some.inj hn
    exact Nat.toList_repr.trans (toDigits_ofDigits hs)
  | @negative s hs hne =>
    have hread : integer? ('-' :: s) = (natural? s).map fun n => -(n : Int) := rfl
    rw [hread, hs.natural_eq] at hn
    obtain rfl : -(ofDigits s : Int) = n := Option.some.inj hn
    have hpos := ofDigits_pos hs hne
    obtain ⟨m, hm⟩ : ∃ m, ofDigits s = m + 1 := ⟨ofDigits s - 1, by omega⟩
    have hdigits := toDigits_ofDigits hs
    rw [hm] at hdigits ⊢
    exact (toList_negSucc m).trans (congrArg (List.cons '-') hdigits)

/-- An integer is printed as it was written if and only if it was written plainly. -/
theorem toString_eq_iff {s : List Char} {n : Int} (hn : integer? s = some n) :
    toString n = String.ofList s ↔ PlainInteger s := by
  constructor
  · intro h
    have hplain := plainInteger_toString n
    rwa [h, String.toList_ofList] at hplain
  · exact fun h => toString_eq h hn

end Trajectory.Decimal
