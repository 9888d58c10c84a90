import Mathlib
import Trajectory.Number.Binary64

namespace Trajectory.Binary64

open Float.Model (Format UnpackedFloat)
open Float.Model.UnpackedFloat

/-- Whether the first bit of a double is set. Negative zero has it set too. -/
def signBit (x : Float) : Bool := x.toBits.toBitVec.msb

/-- The bits of a double with these fields. -/
abbrev fields (s : Sign) (exponent : BitVec 11) (mantissa : BitVec 52) : BitVec 64 :=
  packComponents .binary64 s exponent mantissa

section Fields

variable {s : Sign} {exponent : BitVec 11} {mantissa : BitVec 52} {b : BitVec 64}

theorem neg_neg_sign (s : Sign) : - -s = s := by cases s <;> rfl

theorem exists_fields (b : BitVec 64) : ∃ s exponent mantissa, b = fields s exponent mantissa :=
  ⟨_, _, _, (@packComponents_unpackSign_unpackExponent_unpackMantissa .binary64 b).symm⟩

theorem msb_fields : (fields s exponent mantissa).msb = isNegative s := by
  simp only [fields, packComponents, BitVec.msb_append]
  cases s <;> rfl

theorem toNat_implicit (mantissa : BitVec 52) :
    (1#1 ++ mantissa).toNat = 2 ^ 52 + mantissa.toNat := by
  rw [BitVec.toNat_append, ← Nat.shiftLeft_add_eq_or_of_lt mantissa.isLt]
  simp [Nat.shiftLeft_eq]

theorem unpack_fields : unpack .binary64 (fields s exponent mantissa) =
    if exponent = -1#11 then if mantissa = 0#52 then .infinity s else .notANumber
    else if exponent = 0#11 then
      if h : mantissa = 0#52 then .zero s
      else .finite s mantissa.toNat (exponent.toNat - 1075 + 1)
        (by simpa [BitVec.toNat_pos, BitVec.pos_iff_ne_zero] using h)
    else .finite s (1#1 ++ mantissa).toNat (exponent.toNat - 1075)
      (by rw [toNat_implicit]; omega) := by
  simp only [unpack, unpackMantissa_packComponents, unpackExponent_packComponents,
    unpackSign_packComponents, Sign.ofBitVec_toBitVec]
  rfl

theorem neg_unpack_fields (s : Sign) (exponent : BitVec 11) (mantissa : BitVec 52) :
    (unpack .binary64 (fields s exponent mantissa)).neg =
      unpack .binary64 (fields (-s) exponent mantissa) := by
  rw [unpack_fields, unpack_fields]
  split
  · split <;> rfl
  · split
    · split <;> rfl
    · rfl

theorem abs_unpack_fields (s : Sign) (exponent : BitVec 11) (mantissa : BitVec 52) :
    (unpack .binary64 (fields s exponent mantissa)).abs =
      unpack .binary64 (fields .positive exponent mantissa) := by
  rw [unpack_fields, unpack_fields]
  split
  · split <;> rfl
  · split
    · split <;> rfl
    · rfl

/-- What is taken apart is put together again, unless it is no number. -/
theorem pack_unpack_fields (hnumber : unpack .binary64 (fields s exponent mantissa) ≠ .notANumber) :
    UnpackedFloat.pack .binary64 (unpack .binary64 (fields s exponent mantissa)) =
      fields s exponent mantissa := by
  have hbits : ¬ @isNaNBits .binary64 (fields s exponent mantissa) = true := by
    intro h
    simp only [isNaNBits, unpackExponent_packComponents, unpackMantissa_packComponents,
      decide_eq_true_eq] at h
    rw [unpack_fields, if_pos h.1, if_neg h.2] at hnumber
    exact hnumber rfl
  rw [pack_unpack, if_neg hbits]

end Fields

variable {x : Float}

theorem eq_of_bits {x y : Float} (h : x.toBits.toBitVec = y.toBits.toBitVec) : x = y :=
  Float.toBits_inj.mp (UInt64.toBitVec_inj.mp h)

theorem bits_neg (x : Float) : (-x).toBits.toBitVec =
    UnpackedFloat.pack .binary64 (unpack .binary64 x.toBits.toBitVec).neg := rfl

/-- Negation turns the sign and keeps the other fields. -/
theorem bits_neg_fields {s : Sign} {exponent : BitVec 11} {mantissa : BitVec 52}
    (hx : x.isFinite = true) (h : x.toBits.toBitVec = fields s exponent mantissa) :
    (-x).toBits.toBitVec = fields (-s) exponent mantissa := by
  have hnumber : unpack .binary64 (fields (-s) exponent mantissa) ≠ .notANumber := by
    have hfinite : (unpack .binary64 (fields s exponent mantissa)).isFinite = true := by
      rw [← h]
      exact hx
    rw [← neg_unpack_fields]
    cases hparts : unpack .binary64 (fields s exponent mantissa) <;>
      simp_all [UnpackedFloat.isFinite, UnpackedFloat.neg]
  rw [bits_neg, h, neg_unpack_fields, pack_unpack_fields hnumber]

theorem parts_neg (hx : x.isFinite = true) : parts (-x) = (parts x).neg := by
  obtain ⟨s, exponent, mantissa, h⟩ := exists_fields x.toBits.toBitVec
  show unpack .binary64 (-x).toBits.toBitVec = (unpack .binary64 x.toBits.toBitVec).neg
  rw [bits_neg_fields hx h, h, neg_unpack_fields]

theorem isFinite_neg (hx : x.isFinite = true) : (-x).isFinite = true := by
  change (parts x).isFinite = true at hx
  show (parts (-x)).isFinite = true
  rw [parts_neg hx]
  cases hparts : parts x <;> simp_all [UnpackedFloat.isFinite, UnpackedFloat.neg]

theorem signBit_of_zero {s : Sign} (h : parts x = .zero s) : signBit x = isNegative s := by
  obtain ⟨t, exponent, mantissa, hbits⟩ := exists_fields x.toBits.toBitVec
  change unpack .binary64 x.toBits.toBitVec = _ at h
  rw [hbits, unpack_fields] at h
  rw [signBit, hbits, msb_fields]
  split at h
  · split at h <;> cases h
  · split at h
    · split at h <;> cases h
      rfl
    · cases h

theorem signBit_of_finite {s : Sign} {m : Nat} {e : Int} {hm : 0 < m}
    (h : parts x = .finite s m e hm) : signBit x = isNegative s := by
  obtain ⟨t, exponent, mantissa, hbits⟩ := exists_fields x.toBits.toBitVec
  change unpack .binary64 x.toBits.toBitVec = _ at h
  rw [hbits, unpack_fields] at h
  rw [signBit, hbits, msb_fields]
  split at h
  · split at h <;> cases h
  · split at h
    · split at h <;> cases h
      rfl
    · cases h
      rfl

theorem neg_neg (hx : x.isFinite = true) : - -x = x := by
  obtain ⟨s, exponent, mantissa, h⟩ := exists_fields x.toBits.toBitVec
  have hneg := bits_neg_fields hx h
  refine eq_of_bits ?_
  rw [bits_neg_fields (isFinite_neg hx) hneg, neg_neg_sign, h]

theorem abs_eq (hx : x.isFinite = true) : x.abs = if signBit x then -x else x := by
  obtain ⟨s, exponent, mantissa, h⟩ := exists_fields x.toBits.toBitVec
  have hnumber : unpack .binary64 (fields .positive exponent mantissa) ≠ .notANumber := by
    have hfinite : (unpack .binary64 (fields s exponent mantissa)).isFinite = true := by
      rw [← h]
      exact hx
    rw [← abs_unpack_fields s]
    cases hparts : unpack .binary64 (fields s exponent mantissa) <;>
      simp_all [UnpackedFloat.isFinite, UnpackedFloat.abs]
  have hbits : x.abs.toBits.toBitVec = fields .positive exponent mantissa := by
    show UnpackedFloat.pack .binary64 (unpack .binary64 x.toBits.toBitVec).abs = _
    rw [h, abs_unpack_fields, pack_unpack_fields hnumber]
  have hsign : signBit x = isNegative s := by rw [signBit, h, msb_fields]
  refine eq_of_bits ?_
  rw [hbits, hsign]
  cases s with
  | negative => exact (bits_neg_fields hx h).symm
  | positive => exact h.symm

end Trajectory.Binary64
