import Trajectory.Decimal.Reading

namespace Trajectory.Decimal

open Text (isDigit)

/-- One digit or more. -/
def Digits (s : List Char) : Prop := s ≠ [] ∧ ∀ c ∈ s, isDigit c = true

/-- Nothing, or an exponent mark, an optional sign and digits. -/
inductive ExponentText : List Char → Prop
  | nil : ExponentText []
  | unsigned {mark : Char} {s : List Char} (hm : mark = 'e' ∨ mark = 'E') (hs : Digits s) :
      ExponentText (mark :: s)
  | signed {mark sign : Char} {s : List Char} (hm : mark = 'e' ∨ mark = 'E')
      (hsign : sign = '+' ∨ sign = '-') (hs : Digits s) : ExponentText (mark :: sign :: s)

inductive NumberText : List Char → Prop
  | whole {s exponent : List Char} (hs : Digits s) (he : ExponentText exponent) :
      NumberText (s ++ exponent)
  | pointed {s places exponent : List Char} (hs : Digits (s ++ places))
      (he : ExponentText exponent) : NumberText (s ++ '.' :: places ++ exponent)

theorem natural_isSome {s : List Char} : (natural? s).isSome ↔ Digits s := by
  unfold natural? Digits
  split
  next h => simpa using h
  next h => simpa using h

def SignedDigits (s : List Char) : Prop :=
  Digits s ∨ ∃ sign digits, s = sign :: digits ∧ (sign = '+' ∨ sign = '-') ∧ Digits digits

theorem not_digits_of_sign {sign : Char} {s : List Char} (h : sign = '+' ∨ sign = '-') :
    ¬ Digits (sign :: s) := by
  rintro ⟨-, hd⟩
  have hs := hd sign (by simp)
  rcases h with rfl | rfl <;> exact absurd hs (by decide)

theorem signedDigits_of_sign {sign : Char} {s : List Char} (h : sign = '+' ∨ sign = '-') :
    SignedDigits (sign :: s) ↔ Digits s := by
  constructor
  · rintro (hs | ⟨_, _, heq, _, hs⟩)
    · exact absurd hs (not_digits_of_sign h)
    · rwa [(List.cons.inj heq).2]
  · exact fun hs => .inr ⟨sign, s, rfl, h, hs⟩

theorem integer_isSome {s : List Char} : (integer? s).isSome ↔ SignedDigits s := by
  unfold integer?
  split
  next digits =>
    rw [signedDigits_of_sign (.inr rfl), ← natural_isSome]
    cases natural? digits <;> exact Iff.rfl
  next digits =>
    rw [signedDigits_of_sign (.inl rfl), ← natural_isSome]
    cases natural? digits <;> exact Iff.rfl
  next hminus hplus =>
    rw [SignedDigits, or_iff_left, ← natural_isSome]
    · cases natural? s <;> exact Iff.rfl
    · rintro ⟨sign, digits, rfl, rfl | rfl, _⟩
      · exact hplus digits rfl
      · exact hminus digits rfl

theorem exponent_isSome {s : List Char} : (exponent? s).isSome ↔ ExponentText s := by
  cases s with
  | nil => exact ⟨fun _ => .nil, fun _ => rfl⟩
  | cons mark s =>
    simp only [exponent?, Bool.or_eq_true, beq_iff_eq]
    constructor
    · intro h
      split at h
      next hm =>
        rcases integer_isSome.mp h with hs | ⟨sign, digits, rfl, hsign, hs⟩
        · exact .unsigned hm hs
        · exact .signed hm hsign hs
      next => cases h
    · intro h
      cases h with
      | unsigned hm hs => simpa [hm] using integer_isSome.mpr (.inl hs)
      | signed hm hsign hs => simpa [hm] using integer_isSome.mpr (.inr ⟨_, _, rfl, hsign, hs⟩)

theorem ExponentText.head_eq {s : List Char} (h : ExponentText s) :
    ∀ c ∈ s.head?, c = 'e' ∨ c = 'E' := by
  cases h <;> simp_all

theorem ExponentText.takeWhile_digits {s : List Char} (h : ExponentText s) :
    s.takeWhile isDigit = [] ∧ s.dropWhile isDigit = s := by
  cases s with
  | nil => simp
  | cons c s => rcases h.head_eq c rfl with rfl | rfl <;> exact ⟨rfl, rfl⟩

theorem ExponentText.fraction_eq {s : List Char} (h : ExponentText s) : fraction s = ([], s) := by
  cases s with
  | nil => rfl
  | cons c s => rcases h.head_eq c rfl with rfl | rfl <;> rfl

theorem ExponentText.mem {s : List Char} (h : ExponentText s) :
    ∀ c ∈ s, isDigit c = true ∨ c ∈ ['e', 'E', '+', '-'] := by
  intro c hc
  cases h with
  | nil => cases hc
  | unsigned hm hs =>
    rcases List.mem_cons.mp hc with rfl | hc
    · rcases hm with rfl | rfl <;> simp
    · exact .inl (hs.2 c hc)
  | signed hm hsign hs =>
    rcases List.mem_cons.mp hc with rfl | hc
    · rcases hm with rfl | rfl <;> simp
    · rcases List.mem_cons.mp hc with rfl | hc
      · rcases hsign with rfl | rfl <;> simp
      · exact .inl (hs.2 c hc)

theorem read_isSome_of_numberText {s : List Char} (h : NumberText s) : (read? s).isSome := by
  cases h with
  | @whole s exponent hs he =>
    have htake : (s ++ exponent).takeWhile isDigit = s := by
      simp [List.takeWhile_append_of_pos hs.2, he.takeWhile_digits]
    have hdrop : (s ++ exponent).dropWhile isDigit = exponent := by
      simp [List.dropWhile_append_of_pos hs.2, he.takeWhile_digits]
    simpa [read?, htake, hdrop, he.fraction_eq, hs.1] using exponent_isSome.mpr he
  | @pointed s places exponent hs he =>
    have hwhole : ∀ c ∈ s, isDigit c = true := fun c hc => hs.2 c (by simp [hc])
    have hplaces : ∀ c ∈ places, isDigit c = true := fun c hc => hs.2 c (by simp [hc])
    have hpoint : isDigit '.' = false := rfl
    have htake : (s ++ '.' :: places ++ exponent).takeWhile isDigit = s := by
      rw [List.append_assoc, List.takeWhile_append_of_pos hwhole]
      simp [hpoint]
    have hdrop : (s ++ '.' :: places ++ exponent).dropWhile isDigit =
        '.' :: (places ++ exponent) := by
      rw [List.append_assoc, List.dropWhile_append_of_pos hwhole]
      simp [hpoint]
    have hfraction : fraction ('.' :: (places ++ exponent)) = (places, exponent) := by
      simp [fraction, List.takeWhile_append_of_pos hplaces, List.dropWhile_append_of_pos hplaces,
        he.takeWhile_digits]
    have hdigits : ¬ (s = [] ∧ places = []) := by simpa using hs.1
    simp only [read?, htake, hdrop, hfraction]
    simpa [hdigits] using exponent_isSome.mpr he

theorem all_takeWhile {s : List Char} : ∀ c ∈ s.takeWhile isDigit, isDigit c = true :=
  List.all_eq_true.mp List.all_takeWhile

theorem numberText_of_read_isSome {s : List Char} (h : (read? s).isSome) : NumberText s := by
  have hs : s.takeWhile isDigit ++ s.dropWhile isDigit = s := List.takeWhile_append_dropWhile
  simp only [read?] at h
  split at h
  next => cases h
  next hdigits =>
    rw [Option.isSome_map] at h
    have he := exponent_isSome.mp h
    rw [← hs]
    unfold fraction at he hdigits
    split at he
    next rest hrest =>
      have hplaces : rest.takeWhile isDigit ++ rest.dropWhile isDigit = rest :=
        List.takeWhile_append_dropWhile
      rw [hrest] at hdigits ⊢
      rw [← hplaces, ← List.cons_append, ← List.append_assoc]
      refine .pointed ⟨by simpa using hdigits, ?_⟩ he
      intro c hc
      rcases List.mem_append.mp hc with hc | hc
      · exact all_takeWhile c hc
      · exact all_takeWhile c hc
    next hpoint =>
      refine .whole ⟨?_, all_takeWhile⟩ he
      intro hnil
      exact hdigits (by simp [hnil])

theorem read_isSome_iff {s : List Char} : (read? s).isSome ↔ NumberText s :=
  ⟨numberText_of_read_isSome, read_isSome_of_numberText⟩

end Trajectory.Decimal
