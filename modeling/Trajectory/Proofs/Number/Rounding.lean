import Trajectory.Proofs.Number.Special
import Trajectory.Stepper.Controller

namespace Trajectory.Binary64

open Float.Model (Format UnpackedFloat totalExponent)
open Float.Model.UnpackedFloat

/-- The exponent of the last place that `m * 2 ^ e` is rounded to. -/
def place (m : Nat) (e : Int) : Int := max (m.log2 + e - 52) (-1074)

/-- The mantissa `m` without its last `k` bits, rounded to the nearest one. -/
def nearest (m k : Nat) : Nat := (ExtendedMantissa.mk m false false >>> k).roundedMantissa

section Nearest

variable {m k : Nat}

theorem mantissa_shift (m k : Nat) : (ExtendedMantissa.mk m false false >>> k).mantissa = m / 2 ^ k := by
  induction k with
  | zero => exact (Nat.div_one m).symm
  | succ k ih =>
    show (ExtendedMantissa.mk m false false >>> k).mantissa / 2 = _
    rw [ih, Nat.div_div_eq_div_mul, Nat.pow_succ]

theorem roundBit_shift (m k : Nat) :
    (ExtendedMantissa.mk m false false >>> (k + 1)).roundBit = (m / 2 ^ k % 2 != 0) := by
  rw [← mantissa_shift]
  rfl

/-- A mantissa is rounded up only if its round bit is set, and then if it is odd in any case. -/
theorem rounded_cases (em : ExtendedMantissa) :
    em.roundBit = false ∧ em.roundedMantissa = em.mantissa ∨
      em.roundBit = true ∧ em.mantissa ≤ em.roundedMantissa ∧
        em.roundedMantissa ≤ em.mantissa + 1 ∧
          (em.mantissa % 2 = 1 → em.roundedMantissa = em.mantissa + 1) := by
  obtain ⟨m, roundBit, stickyBit⟩ := em
  cases roundBit <;> cases stickyBit <;>
    simp [ExtendedMantissa.roundedMantissa, ExtendedMantissa.accuracy,
      Accuracy.roundToNearestEven]
  omega

theorem nearest_bounds (m k : Nat) : m / 2 ^ k ≤ nearest m k ∧ nearest m k ≤ m / 2 ^ k + 1 := by
  rw [← mantissa_shift, nearest]
  rcases rounded_cases (ExtendedMantissa.mk m false false >>> k) with ⟨_, h⟩ | ⟨_, hlow, hhigh, _⟩
  · omega
  · exact ⟨hlow, hhigh⟩

/-- Rounding gives one bit more exactly from half a unit below on. -/
theorem nearest_eq_iff (h : m / 2 ^ k < 2 ^ 53) :
    nearest m k = 2 ^ 53 ↔ (2 ^ 54 - 1) * 2 ^ k ≤ 2 * m := by
  cases k with
  | zero =>
    have hexact : nearest m 0 = m := rfl
    rw [hexact]
    omega
  | succ k =>
    have hquotient : m / 2 ^ (k + 1) = m / 2 ^ k / 2 := by
      rw [Nat.div_div_eq_div_mul, Nat.pow_succ]
    have hhalf : (2 ^ 54 - 1) * 2 ^ (k + 1) ≤ 2 * m ↔ 2 ^ 54 - 1 ≤ m / 2 ^ k := by
      rw [Nat.le_div_iff_mul_le (Nat.two_pow_pos k), Nat.pow_succ]
      omega
    have hmantissa := mantissa_shift m (k + 1)
    have hround := roundBit_shift m k
    rw [hhalf, nearest]
    rw [hquotient] at h hmantissa
    generalize m / 2 ^ k = q at h hmantissa hround
    rcases rounded_cases (ExtendedMantissa.mk m false false >>> (k + 1)) with
      ⟨hbit, hsame⟩ | ⟨hbit, hlow, hhigh, hodd⟩
    · rw [hround] at hbit
      have heven : q % 2 = 0 := by simpa using hbit
      omega
    · rw [hround] at hbit
      have hset : q % 2 = 1 := by
        have := Nat.mod_two_eq_zero_or_one q
        simp at hbit
        omega
      omega

end Nearest

section Round

variable {m : Nat} {e : Int}

theorem targetExponent_eq (m : Nat) (e : Int) :
    Format.binary64.targetExponent (totalExponent m e) = place m e := by
  simp only [Format.targetExponent, totalExponent, Format.mantissaBits, Format.minExponent, place]
  omega

theorem place_of_lt (hm : m < 2 ^ 53) (he : -1074 ≤ e) : place m e ≤ e := by
  have hbits : m.log2 ≤ 52 := by
    by_cases hzero : m = 0
    · rw [hzero]
      decide
    · exact Nat.le_of_lt_succ ((Nat.log2_lt hzero).mpr hm)
  unfold place
  omega

theorem quotient_lt (he : e ≤ place m e) : m / 2 ^ (place m e - e).toNat < 2 ^ 53 := by
  rw [Nat.div_lt_iff_lt_mul (Nat.two_pow_pos _), ← Nat.pow_add]
  refine Nat.lt_log2_self.trans_le (Nat.pow_le_pow_right (by decide) ?_)
  unfold place at he ⊢
  omega

theorem le_quotient (he : e ≤ place m e) (hleast : place m e ≠ -1074) :
    2 ^ 52 ≤ m / 2 ^ (place m e - e).toNat := by
  have hbits : m.log2 = 52 + (place m e - e).toNat := by
    unfold place at hleast he ⊢
    omega
  have hzero : m ≠ 0 := by
    rintro rfl
    rw [Nat.log2_zero] at hbits
    omega
  rw [Nat.le_div_iff_mul_le (Nat.two_pow_pos _), ← Nat.pow_add, ← hbits]
  exact Nat.log2_self_le hzero

theorem shift_eq (m : Nat) (e : Int) : shiftToTargetExponent .binary64 m e .exact =
    (ExtendedMantissa.mk m false false >>> (place m e - e).toNat, e + (place m e - e).toNat) := by
  rw [shiftToTargetExponent, targetExponent_eq]
  rfl

/-- A mantissa that has become too long by rounding is shifted once more. -/
theorem shift_rounded {r : Nat} {p : Int} (hr : r ≤ 2 ^ 53) (hp : -1074 ≤ p) :
    shiftToTargetExponent .binary64 r p .exact =
      if r < 2 ^ 53 then (⟨r, false, false⟩, p) else (⟨2 ^ 52, false, false⟩, p + 1) := by
  rw [shift_eq]
  split
  next hfits =>
    have hshift : (place r p - p).toNat = 0 := by
      have := place_of_lt hfits hp
      omega
    rw [hshift]
    simp only [Nat.cast_zero, add_zero]
    rfl
  next hlong =>
    obtain rfl : r = 2 ^ 53 := by omega
    have hshift : (place (2 ^ 53) p - p).toNat = 1 := by
      unfold place
      rw [Nat.log2_two_pow]
      omega
    rw [hshift]
    rfl

theorem roundWithAccuracy_eq (s : Sign) (he : e ≤ place m e) :
    roundWithAccuracy .binary64 s m e .exact =
      let r := nearest m (place m e - e).toNat
      if h : r = 0 then .zero s
      else if r < 2 ^ 53 then .finite s r (place m e) (Nat.pos_of_ne_zero h)
      else .finite s (2 ^ 52) (place m e + 1) (by decide) := by
  have hquotient := quotient_lt he
  obtain ⟨_, hbound⟩ := nearest_bounds m (place m e - e).toNat
  have hplace : e + (place m e - e).toNat = place m e := by omega
  have hleast : -1074 ≤ place m e := by
    unfold place
    omega
  have hsecond := shift_rounded (r := nearest m (place m e - e).toNat) (by omega) hleast
  unfold roundWithAccuracy
  rw [shift_eq m e]
  dsimp only
  rw [hplace]
  unfold nearest at hsecond ⊢
  rw [hsecond]
  split
  next hfits => rfl
  next hlong =>
    have hsome : ¬ (ExtendedMantissa.mk m false false >>> (place m e - e).toNat).roundedMantissa = 0 := by
      omega
    rw [dif_neg hsome]
    rfl

end Round

/-- A mantissa and an exponent as a double has them, one that is too large aside. -/
structure Canonical (m : Nat) (e : Int) : Prop where
  bits : m < 2 ^ 53
  least : -1074 ≤ e
  leading : 2 ^ 52 ≤ m ∨ e = -1074

theorem canonical_nearest {m : Nat} {e : Int} (he : e ≤ place m e)
    (hbits : nearest m (place m e - e).toNat < 2 ^ 53) :
    Canonical (nearest m (place m e - e).toNat) (place m e) := by
  refine ⟨hbits, ?_, ?_⟩
  · unfold place
    omega
  · by_cases hleast : place m e = -1074
    · exact .inr hleast
    · exact .inl ((le_quotient he hleast).trans (nearest_bounds _ _).1)

/-- A number in this form is packed as it is, or else as an infinity. -/
theorem unpack_pack_finite {s : Sign} {m : Nat} {e : Int} {hm : 0 < m} (h : Canonical m e) :
    unpack .binary64 (UnpackedFloat.pack .binary64 (.finite s m e hm)) =
      if 972 ≤ e then .infinity s else .finite s m e hm := by
  obtain ⟨hbits, hleast, hleading⟩ := h
  have hbiased : (e + (Format.binary64.exponentBias : Int) + (52 : Nat)).toNat = (e + 1075).toNat := by
    simp only [Format.exponentBias]
    omega
  have hmantissa : (BitVec.ofNat 52 m).toNat = m % 2 ^ 52 := BitVec.toNat_ofNat _ _
  unfold UnpackedFloat.pack
  dsimp only
  rw [hbiased]
  split
  next hlarge =>
    rw [if_pos (show 972 ≤ e by omega)]
    exact unpack_pack_infinity s
  next hfits =>
    rw [if_neg (show ¬ 972 ≤ e by omega)]
    have hexponent : (BitVec.ofNat 11 (e + 1075).toNat).toNat = (e + 1075).toNat := by
      rw [BitVec.toNat_ofNat, Nat.mod_eq_of_lt (by omega)]
    split
    next hnormal =>
      have hlog : m.log2 = 52 := by
        simp only [Format.mantissaBits] at hnormal
        omega
      have hlow : 2 ^ 52 ≤ m := hlog ▸ Nat.log2_self_le hm.ne'
      have hnumber : ¬ BitVec.ofNat 11 (e + 1075).toNat = -1#11 := by
        rw [← BitVec.toNat_inj, hexponent, show (-1#11).toNat = 2047 from rfl]
        omega
      have hpositive : ¬ BitVec.ofNat 11 (e + 1075).toNat = 0#11 := by
        rw [← BitVec.toNat_inj, hexponent, show (0#11).toNat = 0 from rfl]
        omega
      refine unpack_fields.trans ?_
      rw [if_neg hnumber, if_neg hpositive, UnpackedFloat.finite.injEq, toNat_implicit, hmantissa,
        hexponent]
      exact ⟨rfl, by omega, by omega⟩
    next hsmall =>
      have hshort : m < 2 ^ 52 := by
        by_contra hlong
        refine hsmall ?_
        rw [(Nat.log2_eq_iff hm.ne').mpr ⟨Nat.not_lt.mp hlong, hbits⟩]
        rfl
      have hsome : ¬ BitVec.ofNat 52 m = 0#52 := by
        rw [← BitVec.toNat_inj, hmantissa, show (0#52).toNat = 0 from rfl]
        omega
      refine unpack_fields.trans ?_
      rw [if_neg (by decide), if_pos rfl, dif_neg hsome, UnpackedFloat.finite.injEq, hmantissa]
      exact ⟨rfl, by omega, by simp; omega⟩

theorem canonical_of_parts {x : Float} {s : Sign} {m : Nat} {e : Int} {hm : 0 < m}
    (h : parts x = .finite s m e hm) : Canonical m e ∧ e ≤ 971 := by
  obtain ⟨t, exponent, mantissa, hbits⟩ := exists_fields x.toBits.toBitVec
  change unpack .binary64 x.toBits.toBitVec = _ at h
  rw [hbits, unpack_fields] at h
  have hmantissa := mantissa.isLt
  have hexponent := exponent.isLt
  split at h
  · split at h <;> cases h
  next hnumber =>
    rw [← BitVec.toNat_inj, show (-1#11).toNat = 2047 from rfl] at hnumber
    split at h
    next hzero =>
      split at h
      · cases h
      · rw [UnpackedFloat.finite.injEq, hzero, show (0#11).toNat = 0 from rfl] at h
        obtain ⟨_, rfl, rfl⟩ := h
        exact ⟨⟨by omega, by omega, .inr rfl⟩, by omega⟩
    next hpositive =>
      rw [← BitVec.toNat_inj, show (0#11).toNat = 0 from rfl] at hpositive
      rw [UnpackedFloat.finite.injEq, toNat_implicit] at h
      obtain ⟨_, rfl, rfl⟩ := h
      exact ⟨⟨by omega, by omega, .inl (by omega)⟩, by omega⟩

/-- The least number that is rounded to infinity. -/
def ceiling : ℚ := (2 ^ 54 - 1) * 2 ^ 970

def value : UnpackedFloat → ℚ
  | .finite s m e _ => s.apply m * 2 ^ e
  | _ => 0

section Value

variable {m : Nat} {e : Int} {s : Sign}

theorem scaled_eq (m k : Nat) (p : Int) : (m : ℚ) * 2 ^ (p - k) = m / 2 ^ k * 2 ^ p := by
  rw [zpow_sub₀ two_ne_zero, zpow_natCast]
  ring

/-- A number in units of the last place that it is rounded to. -/
theorem scaled_place (he : e ≤ place m e) :
    (m : ℚ) * 2 ^ e = m / 2 ^ (place m e - e).toNat * 2 ^ place m e := by
  have hexponent : e = place m e - ((place m e - e).toNat : Int) := by omega
  rw [← scaled_eq, ← hexponent]

theorem lt_ceiling (he : e ≤ place m e) (hplace : place m e < 971) : (m : ℚ) * 2 ^ e < ceiling := by
  have hquotient := quotient_lt he
  rw [Nat.div_lt_iff_lt_mul (Nat.two_pow_pos _)] at hquotient
  rw [scaled_place he, ceiling]
  generalize (place m e - e).toNat = k at hquotient
  have hupper : (m : ℚ) / 2 ^ k < 2 ^ 53 := by
    rw [div_lt_iff₀ (by positivity)]
    exact_mod_cast hquotient
  have hnonneg : (0 : ℚ) ≤ m / 2 ^ k := by positivity
  have hunit : (0 : ℚ) < 2 ^ 970 := by positivity
  have hpower : (2 : ℚ) ^ place m e ≤ 2 ^ 970 := by
    rw [← zpow_natCast]
    exact zpow_le_zpow_right₀ (by norm_num) (by push_cast; omega)
  calc (m : ℚ) / 2 ^ k * 2 ^ place m e
      ≤ m / 2 ^ k * 2 ^ 970 := mul_le_mul_of_nonneg_left hpower hnonneg
    _ < 2 ^ 53 * 2 ^ 970 := mul_lt_mul_of_pos_right hupper hunit
    _ ≤ (2 ^ 54 - 1) * 2 ^ 970 := mul_le_mul_of_nonneg_right (by norm_num) hunit.le

theorem ceiling_le (he : e ≤ place m e) (hplace : 971 < place m e) : ceiling ≤ (m : ℚ) * 2 ^ e := by
  have hleading := le_quotient he (by omega)
  rw [Nat.le_div_iff_mul_le (Nat.two_pow_pos _)] at hleading
  rw [scaled_place he, ceiling]
  generalize (place m e - e).toNat = k at hleading
  have hlower : (2 : ℚ) ^ 52 ≤ m / 2 ^ k := by
    rw [le_div_iff₀ (by positivity)]
    exact_mod_cast hleading
  have hpower : (2 : ℚ) ^ 972 ≤ 2 ^ place m e := by
    rw [← zpow_natCast]
    exact zpow_le_zpow_right₀ (by norm_num) (by push_cast; omega)
  calc (2 ^ 54 - 1 : ℚ) * 2 ^ 970 ≤ 2 ^ 54 * 2 ^ 970 :=
        mul_le_mul_of_nonneg_right (by norm_num) (by positivity)
    _ = 2 ^ 52 * 2 ^ 972 := (pow_add 2 54 970).symm.trans (pow_add 2 52 972)
    _ ≤ m / 2 ^ k * 2 ^ place m e := mul_le_mul hlower hpower (by positivity) (by positivity)

theorem ceiling_le_iff_nearest (he : e ≤ place m e) (hplace : place m e = 971) :
    ceiling ≤ (m : ℚ) * 2 ^ e ↔ nearest m (place m e - e).toNat = 2 ^ 53 := by
  rw [nearest_eq_iff (quotient_lt he), scaled_place he, ceiling]
  generalize (place m e - e).toNat = k
  have hpower : (2 : ℚ) ^ place m e = 2 * 2 ^ 970 := by
    rw [hplace, ← pow_succ']
    rfl
  have hunit : (0 : ℚ) < 2 ^ 970 := by positivity
  rw [hpower, ← mul_assoc, mul_le_mul_iff_left₀ hunit, div_mul_eq_mul_div,
    le_div_iff₀ (by positivity), mul_comm (m : ℚ), ← @Nat.cast_le ℚ]
  norm_num

/-- A number reaches the ceiling exactly if its last place is too high, or gets so by rounding. -/
theorem ceiling_le_iff (he : e ≤ place m e) :
    ceiling ≤ (m : ℚ) * 2 ^ e ↔ 972 ≤ place m e ∨
      place m e = 971 ∧ nearest m (place m e - e).toNat = 2 ^ 53 := by
  rcases lt_trichotomy (place m e) 971 with hplace | hplace | hplace
  · exact iff_of_false (not_le.mpr (lt_ceiling he hplace)) (by omega)
  · rw [ceiling_le_iff_nearest he hplace]
    omega
  · exact iff_of_true (ceiling_le he hplace) (.inl (by omega))

/-- A number is rounded to infinity from the ceiling on, and to one nearby below. -/
theorem round_cases (s : Sign) (he : e ≤ place m e) :
    (ceiling ≤ (m : ℚ) * 2 ^ e ∧ unpack .binary64 (UnpackedFloat.pack .binary64
        (roundWithAccuracy .binary64 s m e .exact)) = .infinity s) ∨
      ((m : ℚ) * 2 ^ e < ceiling ∧ ∃ u, unpack .binary64 (UnpackedFloat.pack .binary64
          (roundWithAccuracy .binary64 s m e .exact)) = u ∧ u.isFinite = true ∧
        value u = s.apply (nearest m (place m e - e).toNat) * 2 ^ place m e) := by
  have hiff := ceiling_le_iff he
  have hcanonical := canonical_nearest he
  have hlong := (nearest_bounds m (place m e - e).toNat).2
  have hquotient := quotient_lt he
  rw [roundWithAccuracy_eq s he]
  generalize nearest m (place m e - e).toNat = r at hiff hcanonical hlong
  dsimp only
  split
  next hzero =>
    subst hzero
    have hleast : place m e = -1074 := (hcanonical (by decide)).leading.resolve_left (by decide)
    refine .inr ⟨not_le.mp (mt hiff.mp (by omega)), .zero s, by cases s <;> rfl, rfl, ?_⟩
    cases s <;> simp [value, Sign.apply]
  next hsome =>
    split
    next hfits =>
      rw [unpack_pack_finite (hcanonical hfits)]
      split
      next hlarge => exact .inl ⟨hiff.mpr (.inl hlarge), rfl⟩
      next hsmall => exact .inr ⟨not_le.mp (mt hiff.mp (by omega)), _, rfl, rfl, rfl⟩
    next hcarry =>
      obtain rfl : r = 2 ^ 53 := by omega
      have hleast : -1074 ≤ place m e := by
        unfold place
        omega
      rw [unpack_pack_finite ⟨by decide, by omega, .inl le_rfl⟩]
      split
      next hlarge => exact .inl ⟨hiff.mpr (by omega), rfl⟩
      next hsmall =>
        refine .inr ⟨not_le.mp (mt hiff.mp (by omega)), _, rfl, rfl, ?_⟩
        rw [value, zpow_add_one₀ two_ne_zero]
        cases s <;> simp only [Sign.apply] <;> push_cast <;> ring

theorem log2_shiftLeft (hm : 0 < m) (k : Nat) : (m <<< k).log2 = m.log2 + k := by
  have hpower : 0 < 2 ^ k := Nat.two_pow_pos k
  rw [Nat.shiftLeft_eq, Nat.log2_eq_iff (by positivity)]
  constructor
  · rw [Nat.pow_add]
    exact Nat.mul_le_mul_right _ (Nat.log2_self_le hm.ne')
  · rw [Nat.add_right_comm, Nat.pow_add]
    exact Nat.mul_lt_mul_of_pos_right Nat.lt_log2_self hpower

theorem exists_round (s : Sign) (hm : 0 < m) (e : Int) : ∃ n f,
    UnpackedFloat.round .binary64 s m e = roundWithAccuracy .binary64 s n f .exact ∧
      f ≤ place n f ∧ (n : ℚ) * 2 ^ f = m * 2 ^ e := by
  refine ⟨m <<< (e - place m e).toNat, e - (e - place m e).toNat, ?_, ?_, ?_⟩
  · rw [UnpackedFloat.round, targetExponent_eq]
    rfl
  · have hlog := log2_shiftLeft hm (e - place m e).toNat
    unfold place at hlog ⊢
    omega
  · rw [Nat.shiftLeft_eq, scaled_eq]
    push_cast
    rw [mul_div_cancel_right₀ _ (by positivity)]

end Value

section Sum

/-- A value as it is after rounding a number: infinite if the number is too large, finite if it is not
too large either way. -/
structure Rounds (v : ℚ) (u : UnpackedFloat) : Prop where
  infinite : ceiling ≤ v → u = .infinity .positive
  finite : -ceiling < v → v < ceiling → u.isFinite = true

theorem ceiling_pos : 0 < ceiling := by
  unfold ceiling
  positivity

theorem rounds_normalize (m e : Int) : Rounds (m * 2 ^ e)
    (unpack .binary64 (UnpackedFloat.pack .binary64
      (UnpackedFloat.normalize .binary64 m e .positive))) := by
  have hceiling := ceiling_pos
  unfold UnpackedFloat.normalize
  split
  next hneg =>
    rw [Int.compare_eq_lt] at hneg
    obtain ⟨n, rfl⟩ : ∃ n : Nat, m = -n := ⟨(-m).toNat, by omega⟩
    obtain ⟨n', f, hround, hplace, hvalue⟩ := exists_round (m := n) .negative (by omega) e
    rw [Int.neg_neg, Int.toNat_natCast, hround]
    push_cast
    rw [neg_mul, ← hvalue]
    have hnonneg : (0 : ℚ) ≤ n' * 2 ^ f := by positivity
    rcases round_cases .negative hplace with ⟨hlarge, hu⟩ | ⟨hsmall, u, hu, hfinite, _⟩
    · exact ⟨fun h => by linarith, fun h => by linarith⟩
    · rw [hu]
      exact ⟨fun h => by linarith, fun _ _ => hfinite⟩
  next hzero =>
    rw [Int.compare_eq_eq] at hzero
    rw [hzero, Int.cast_zero, zero_mul]
    exact ⟨fun h => absurd h (not_le.mpr hceiling), fun _ _ => rfl⟩
  next hpos =>
    rw [Int.compare_eq_gt] at hpos
    obtain ⟨n, rfl⟩ : ∃ n : Nat, m = n := ⟨m.toNat, by omega⟩
    obtain ⟨n', f, hround, hplace, hvalue⟩ := exists_round (m := n) .positive (by omega) e
    rw [Int.toNat_natCast, hround, Int.cast_natCast, ← hvalue]
    rcases round_cases .positive hplace with ⟨hlarge, hu⟩ | ⟨hsmall, u, hu, hfinite, _⟩
    · exact ⟨fun _ => hu, fun _ h => by linarith⟩
    · rw [hu]
      exact ⟨fun h => by linarith, fun _ _ => hfinite⟩

variable {x y : Float}

theorem abs_value_finite (s : Sign) {m : Nat} {e : Int} (hm : 0 < m) :
    |value (.finite s m e hm)| = m * 2 ^ e := by
  have hnonneg : (0 : ℚ) ≤ m * 2 ^ e := by positivity
  cases s with
  | positive => exact abs_of_nonneg hnonneg
  | negative =>
    show |((-(m : Int) : Int) : ℚ) * 2 ^ e| = _
    push_cast
    rw [neg_mul, abs_neg, abs_of_nonneg hnonneg]

theorem abs_value_lt (x : Float) : |value (parts x)| < ceiling := by
  have hceiling := ceiling_pos
  cases hx : parts x with
  | finite s m e hm =>
    obtain ⟨⟨hbits, _, _⟩, hlargest⟩ := canonical_of_parts hx
    have hmantissa : (m : ℚ) ≤ 2 ^ 53 - 1 := by
      rw [le_sub_iff_add_le]
      exact_mod_cast Nat.succ_le_of_lt hbits
    have hpower : (2 : ℚ) ^ e ≤ 2 ^ 971 := by
      rw [← zpow_natCast]
      exact zpow_le_zpow_right₀ (by norm_num) (by push_cast; omega)
    rw [abs_value_finite]
    calc (m : ℚ) * 2 ^ e ≤ (2 ^ 53 - 1) * 2 ^ 971 :=
          mul_le_mul hmantissa hpower (by positivity) (by norm_num)
      _ = (2 ^ 53 - 1) * (2 * 2 ^ 970) := by rw [← pow_succ']
      _ = (2 ^ 54 - 2) * 2 ^ 970 := by rw [← mul_assoc]; norm_num only
      _ < ceiling := mul_lt_mul_of_pos_right (by norm_num) (by positivity)
  | _ => simpa [value] using hceiling

theorem unpack_pack_parts (x : Float) :
    unpack .binary64 (UnpackedFloat.pack .binary64 (parts x)) = parts x := by
  obtain ⟨s, exponent, mantissa, hx⟩ := exists_fields x.toBits.toBitVec
  have hparts : parts x = unpack .binary64 (fields s exponent mantissa) := by
    rw [← hx]
    rfl
  cases hnone : parts x with
  | notANumber => rfl
  | _ =>
    rw [← hnone, hparts, pack_unpack_fields]
    rw [← hparts, hnone]
    exact nofun

theorem rounds_parts (hx : x.isFinite = true) : Rounds (value (parts x)) (parts x) := by
  refine ⟨fun h => ?_, fun _ _ => hx⟩
  have hbound := (abs_lt.mp (abs_value_lt x)).2
  linarith

theorem apply_shiftLeft (s : Sign) (m : Nat) {e g : Int} (hg : g ≤ e) :
    ((s.apply ↑(m <<< (e - g).toNat) : Int) : ℚ) * 2 ^ g = (s.apply m : Int) * 2 ^ e := by
  obtain ⟨k, rfl⟩ : ∃ k : Nat, e = g + k := ⟨(e - g).toNat, by omega⟩
  rw [add_sub_cancel_left, Int.toNat_natCast, Nat.shiftLeft_eq, zpow_add₀ two_ne_zero,
    zpow_natCast]
  cases s <;> simp only [Sign.apply] <;> push_cast <;> ring

theorem add_finite {s t : Sign} {m n : Nat} {e f : Int} (hm : 0 < m) (hn : 0 < n) :
    ∃ k g, UnpackedFloat.add .binary64 (.finite s m e hm) (.finite t n f hn) =
      UnpackedFloat.normalize .binary64 k g .positive ∧
        (k : ℚ) * 2 ^ g = value (.finite s m e hm) + value (.finite t n f hn) := by
  refine ⟨_, _, rfl, ?_⟩
  rw [Int.cast_add, add_mul]
  exact congrArg₂ (· + ·) (apply_shiftLeft s m (Int.min_le_left e f))
    (apply_shiftLeft t n (Int.min_le_right e f))

theorem rounds_add (hx : x.isFinite = true) (hy : y.isFinite = true) :
    Rounds (value (parts x) + value (parts y)) (parts (x + y)) := by
  have hroundsx := rounds_parts hx
  have hroundsy := rounds_parts hy
  have hpackedx := unpack_pack_parts x
  have hpackedy := unpack_pack_parts y
  rcases finite_cases hx with ⟨s, hx⟩ | ⟨s, m, e, hm, hx⟩ <;>
    rcases finite_cases hy with ⟨t, hy⟩ | ⟨t, n, f, hn, hy⟩ <;>
    rw [parts_add, hx, hy]
  case inl.inl =>
    have hzero : value (.zero s) + value (.zero t) = 0 := add_zero 0
    rw [hzero]
    exact ⟨fun h => absurd h (not_le.mpr ceiling_pos), fun _ _ => by cases s <;> cases t <;> rfl⟩
  case inl.inr =>
    rw [hy] at hroundsy hpackedy
    have hsum : UnpackedFloat.add .binary64 (.zero s) (.finite t n f hn) = .finite t n f hn := rfl
    rwa [hsum, hpackedy, show value (.zero s) = 0 from rfl, zero_add]
  case inr.inl =>
    rw [hx] at hroundsx hpackedx
    have hsum : UnpackedFloat.add .binary64 (.finite s m e hm) (.zero t) = .finite s m e hm := rfl
    rwa [hsum, hpackedx, show value (.zero t) = 0 from rfl, add_zero]
  case inr.inr =>
    obtain ⟨k, g, hadd, hvalue⟩ := add_finite (s := s) (t := t) (e := e) (f := f) hm hn
    rw [hadd, ← hvalue]
    exact rounds_normalize k g

end Sum

section Product

/-- Rounding keeps a number above any double that it is above. -/
theorem le_nearest {m n : Nat} {e f : Int} (hbits : n < 2 ^ 53) (hleast : -1074 ≤ f)
    (he : e ≤ place m e) (hle : (n : ℚ) * 2 ^ f ≤ m * 2 ^ e) :
    (n : ℚ) * 2 ^ f ≤ nearest m (place m e - e).toNat * 2 ^ place m e := by
  have hleading := le_quotient he
  have hnearest := (nearest_bounds m (place m e - e).toNat).1
  rw [scaled_place he] at hle
  generalize (place m e - e).toNat = k at hle hleading hnearest ⊢
  generalize place m e = p at hle hleading ⊢
  have hunit : (0 : ℚ) < 2 ^ p := by positivity
  rcases le_or_gt p f with hsame | hhigher
  · obtain ⟨j, rfl⟩ : ∃ j : Nat, f = p + j := ⟨(f - p).toNat, by omega⟩
    have hvalue : (n : ℚ) * 2 ^ (p + (j : Int)) = n * 2 ^ j * 2 ^ p := by
      rw [zpow_add₀ two_ne_zero, zpow_natCast]
      ring
    rw [hvalue] at hle ⊢
    have hwhole : n * 2 ^ j ≤ m / 2 ^ k := by
      rw [Nat.le_div_iff_mul_le (Nat.two_pow_pos k), ← @Nat.cast_le ℚ]
      push_cast
      exact (le_div_iff₀ (by positivity)).mp (le_of_mul_le_mul_right hle hunit)
    refine mul_le_mul_of_nonneg_right ?_ hunit.le
    exact_mod_cast hwhole.trans hnearest
  · have hlarge : (2 : ℚ) ^ 52 ≤ nearest m k := by
      exact_mod_cast (hleading (by omega)).trans hnearest
    have hsmall : (n : ℚ) ≤ 2 ^ 53 := by exact_mod_cast hbits.le
    have hpower : (2 : ℚ) ^ (f + 1) ≤ 2 ^ p := zpow_le_zpow_right₀ (by norm_num) hhigher
    calc (n : ℚ) * 2 ^ f ≤ 2 ^ 53 * 2 ^ f := mul_le_mul_of_nonneg_right hsmall (by positivity)
      _ = 2 ^ 52 * 2 ^ (f + 1) := by
        rw [zpow_add_one₀ two_ne_zero]
        ring
      _ ≤ nearest m k * 2 ^ p := mul_le_mul hlarge hpower (by positivity) (by positivity)

variable {x : Float}

theorem mul_cases {y : Float} {m n : Nat} {e : Int} {hm : 0 < m} {hn : 0 < n}
    (hx : parts x = .finite .positive m e hm) (hy : parts y = .finite .positive n (-52) hn)
    (hone : 2 ^ 52 ≤ n) : parts (x * y) = .infinity .positive ∨
      (x * y).isFinite = true ∧ value (parts x) ≤ value (parts (x * y)) := by
  obtain ⟨⟨hbits, hleast, _⟩, _⟩ := canonical_of_parts hx
  have hbelow : m * 2 ^ 52 ≤ m * n := Nat.mul_le_mul_left m hone
  have hplace : e + -52 ≤ place (m * n) (e + -52) := by
    have hlog : 52 ≤ (m * n).log2 := (Nat.le_log2 (Nat.mul_pos hm hn).ne').mpr (by omega)
    unfold place
    omega
  have hlarger : (m : ℚ) * 2 ^ e ≤ (m * n : Nat) * 2 ^ (e + -52) := by
    have hcast : (m : ℚ) * 2 ^ 52 ≤ (m * n : Nat) := by exact_mod_cast hbelow
    calc (m : ℚ) * 2 ^ e = m * 2 ^ 52 * 2 ^ (e + -52) := by
          rw [zpow_add₀ two_ne_zero, zpow_neg]
          field_simp
      _ ≤ (m * n : Nat) * 2 ^ (e + -52) := mul_le_mul_of_nonneg_right hcast (by positivity)
  have hrounded : parts (x * y) = unpack .binary64 (UnpackedFloat.pack .binary64
      (roundWithAccuracy .binary64 .positive (m * n) (e + -52) .exact)) := by
    rw [parts_mul, hx, hy]
    rfl
  rcases round_cases .positive hplace with ⟨_, hinfinite⟩ | ⟨_, u, hu, hfinite, hvalue⟩
  · exact .inl (hrounded.trans hinfinite)
  · refine .inr ⟨?_, ?_⟩
    · show (parts (x * y)).isFinite = true
      rwa [hrounded, hu]
    · rw [hrounded, hu, hvalue, hx]
      exact le_nearest hbits hleast hplace hlarger

theorem exists_parts_stretch : ∃ n hn, 2 ^ 52 ≤ n ∧
    parts (Controller.stretch : Float) = .finite .positive n (-52) hn :=
  ⟨4503599672406492, by decide, by decide, rfl⟩

theorem parts_add_infinity {y : Float} {s : Sign} (hx : x.isFinite = true)
    (hy : parts y = .infinity s) : parts (x + y) = .infinity s := by
  rcases finite_cases hx with ⟨t, hx⟩ | ⟨t, m, e, hm, hx⟩ <;> rw [parts_add, hx, hy] <;>
    exact unpack_pack_infinity s

theorem le_of_infinity {y : Float} (hx : x.isFinite = true) (hy : parts y = .infinity .positive) :
    x ≤ y := by
  rcases finite_cases hx with ⟨t, hx⟩ | ⟨t, m, e, hm, hx⟩ <;> rw [le_iff, hx, hy] <;> rfl

/-- A step that ends short of a finite number, even if it is stretched, does not overflow. -/
theorem isFinite_add_of_stretch {h finish : Float} (hx : x.isFinite = true) (hpos : Scalar.zero < h)
    (hh : h.isFinite = true) (hfinish : finish.isFinite = true)
    (hshort : ¬ finish ≤ x + h * Controller.stretch) : (x + h).isFinite = true := by
  obtain ⟨m, e, hm, hparts⟩ : ∃ m e hm, parts h = .finite .positive m e hm := by
    refine (parts_of_pos hpos).resolve_left fun hinfinite => ?_
    change (parts h).isFinite = true at hh
    rw [hinfinite] at hh
    cases hh
  obtain ⟨n, hn, hone, hstretch⟩ := exists_parts_stretch
  have hbelow := (abs_lt.mp (abs_value_lt x)).1
  have hnonneg : 0 ≤ value (parts h) := by
    rw [hparts]
    show (0 : ℚ) ≤ (m : Int) * 2 ^ e
    positivity
  by_contra hinfinite
  have hlarge : ceiling ≤ value (parts x) + value (parts h) := by
    by_contra hsmall
    exact hinfinite ((rounds_add hx hh).finite (by linarith) (not_le.mp hsmall))
  have hoverflow : parts (x + h * Controller.stretch) = .infinity .positive := by
    rcases mul_cases hparts hstretch hone with hproduct | ⟨hproduct, hvalue⟩
    · exact parts_add_infinity hx hproduct
    · exact (rounds_add hx hproduct).infinite (by linarith)
  exact hshort (le_of_infinity hfinish hoverflow)

end Product

end Trajectory.Binary64
