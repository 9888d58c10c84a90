import Trajectory.Proofs.Number.Comparable

namespace Trajectory.Binary64

open Float.Model (Format UnpackedFloat)
open Float.Model.UnpackedFloat

section Unpacked

variable {a b : UnpackedFloat}

theorem unpack_pack_infinity (s : Sign) :
    unpack .binary64 (UnpackedFloat.pack .binary64 (.infinity s)) = .infinity s := by
  cases s <;> rfl

theorem unpack_pack_of_special (h : a.isFinite = false) :
    unpack .binary64 (UnpackedFloat.pack .binary64 a) = a := by
  cases a with
  | notANumber => rfl
  | infinity s => exact unpack_pack_infinity s
  | zero s => cases h
  | finite s m e hm => cases h

theorem isFinite_of_unpack_pack
    (h : (unpack .binary64 (UnpackedFloat.pack .binary64 a)).isFinite = true) : a.isFinite = true := by
  by_contra hspecial
  rw [unpack_pack_of_special (Bool.eq_false_iff.mpr hspecial)] at h
  exact hspecial h

theorem isFinite_of_add {spec : Format} (h : (UnpackedFloat.add spec a b).isFinite = true) :
    a.isFinite = true ∧ b.isFinite = true := by
  cases a <;> cases b
  case infinity.infinity s t => cases s <;> cases t <;> cases h
  all_goals first
    | exact ⟨rfl, rfl⟩
    | cases h

theorem isFinite_of_sub {spec : Format} (h : (UnpackedFloat.sub spec a b).isFinite = true) :
    a.isFinite = true ∧ b.isFinite = true := by
  cases a <;> cases b
  case infinity.infinity s t => cases s <;> cases t <;> cases h
  all_goals first
    | exact ⟨rfl, rfl⟩
    | cases h

theorem isFinite_of_mul {spec : Format} (h : (UnpackedFloat.mul spec a b).isFinite = true) :
    a.isFinite = true ∧ b.isFinite = true := by
  cases a <;> cases b
  all_goals first
    | exact ⟨rfl, rfl⟩
    | cases h

/-- A quotient by an infinity is finite as well. -/
theorem isFinite_of_div {spec : Format} (h : (UnpackedFloat.div spec a b).isFinite = true) :
    a.isFinite = true := by
  cases a <;> cases b
  all_goals first
    | rfl
    | cases h

/-- Without a minus sign. What is no number counts as such. -/
def Unsigned : UnpackedFloat → Prop
  | .notANumber => True
  | .infinity s | .zero s | .finite s _ _ _ => s = .positive

theorem unsigned_abs (a : UnpackedFloat) : Unsigned a.abs := by
  cases a with
  | notANumber => trivial
  | _ => rfl

theorem unsigned_round (spec : Format) (m : Nat) (e : Int) (accuracy : Accuracy) :
    Unsigned (roundWithAccuracy spec .positive m e accuracy) := by
  unfold roundWithAccuracy
  dsimp only
  split <;> rfl

theorem unsigned_normalize (spec : Format) {m : Int} (hm : 0 ≤ m) (e : Int) :
    Unsigned (UnpackedFloat.normalize spec m e .positive) := by
  unfold UnpackedFloat.normalize
  split
  next hneg => exact absurd (Int.compare_eq_lt.mp hneg) (Int.not_lt.mpr hm)
  next => rfl
  next => exact unsigned_round _ _ _ _

theorem unsigned_add (spec : Format) (ha : Unsigned a) (hb : Unsigned b) :
    Unsigned (UnpackedFloat.add spec a b) := by
  cases a with
  | notANumber => cases b <;> trivial
  | infinity s =>
    obtain rfl : s = .positive := ha
    cases b with
    | infinity t =>
      obtain rfl : t = .positive := hb
      rfl
    | notANumber => trivial
    | _ => rfl
  | zero s =>
    obtain rfl : s = .positive := ha
    cases b with
    | zero t =>
      obtain rfl : t = .positive := hb
      rfl
    | _ => exact hb
  | finite s m e hm =>
    obtain rfl : s = .positive := ha
    cases b with
    | notANumber => trivial
    | infinity t => exact hb
    | zero t => rfl
    | finite t n f hn =>
      obtain rfl : t = .positive := hb
      exact unsigned_normalize spec (Int.add_nonneg (Int.natCast_nonneg _) (Int.natCast_nonneg _)) _

theorem unsigned_mul (spec : Format) (ha : Unsigned a) (hb : Unsigned b) :
    Unsigned (UnpackedFloat.mul spec a b) := by
  cases a with
  | notANumber => cases b <;> trivial
  | _ =>
    cases b with
    | notANumber => trivial
    | _ =>
      simp only [Unsigned] at ha hb
      subst ha hb
      first
        | trivial
        | rfl
        | exact unsigned_round _ _ _ _

theorem unsigned_unpack_pack (h : Unsigned a) :
    Unsigned (unpack .binary64 (UnpackedFloat.pack .binary64 a)) := by
  have hfields (exponent : BitVec 11) (mantissa : BitVec 52) :
      Unsigned (unpack .binary64 (fields .positive exponent mantissa)) := by
    rw [unpack_fields]
    split
    · split
      · rfl
      · trivial
    · split
      · split <;> rfl
      · rfl
  cases a with
  | notANumber => trivial
  | infinity s =>
    obtain rfl : s = .positive := h
    exact hfields _ _
  | zero s =>
    obtain rfl : s = .positive := h
    exact hfields _ _
  | finite s m e hm =>
    obtain rfl : s = .positive := h
    unfold UnpackedFloat.pack
    dsimp only
    split
    · exact hfields _ _
    · split <;> exact hfields _ _

/-- No number, or infinity without a minus sign. -/
def Lost (a : UnpackedFloat) : Prop := a = .notANumber ∨ a = .infinity .positive

theorem Lost.unpack_pack (h : Lost a) :
    Lost (unpack .binary64 (UnpackedFloat.pack .binary64 a)) := by
  have hspecial : a.isFinite = false := by rcases h with rfl | rfl <;> rfl
  rwa [unpack_pack_of_special hspecial]

theorem lost_abs_of_special (h : a.isFinite = false) : Lost a.abs := by
  cases a with
  | notANumber => exact .inl rfl
  | infinity s => exact .inr rfl
  | zero s => cases h
  | finite s m e hm => cases h

theorem lost_sqrt_of_special {spec : Format} (h : a.isFinite = false) :
    Lost (UnpackedFloat.sqrt spec a) := by
  cases a with
  | notANumber => exact .inl rfl
  | infinity s =>
    cases s with
    | negative => exact .inl rfl
    | positive => exact .inr rfl
  | zero s => cases h
  | finite s m e hm => cases h

theorem Lost.div {spec : Format} (h : Lost a) (hb : Unsigned b) :
    Lost (UnpackedFloat.div spec a b) := by
  rcases h with rfl | rfl
  · cases b <;> exact .inl rfl
  · cases b with
    | notANumber => exact .inl rfl
    | infinity t => exact .inl rfl
    | zero t =>
      obtain rfl : t = .positive := hb
      exact .inr rfl
    | finite t n f hn =>
      obtain rfl : t = .positive := hb
      exact .inr rfl

end Unpacked

section Float

variable {x y : Float}

theorem finite_of_add (h : (x + y).isFinite = true) : x.isFinite = true ∧ y.isFinite = true :=
  isFinite_of_add (isFinite_of_unpack_pack h)

theorem finite_of_sub (h : (x - y).isFinite = true) : x.isFinite = true ∧ y.isFinite = true :=
  isFinite_of_sub (isFinite_of_unpack_pack h)

theorem finite_of_mul (h : (x * y).isFinite = true) : x.isFinite = true ∧ y.isFinite = true :=
  isFinite_of_mul (isFinite_of_unpack_pack h)

theorem finite_of_div (h : (x / y).isFinite = true) : x.isFinite = true :=
  isFinite_of_div (isFinite_of_unpack_pack h)

theorem eq_of_parts (h : parts x = parts y) (hnumber : parts x ≠ .notANumber) : x = y := by
  obtain ⟨s, exponent, mantissa, hx⟩ := exists_fields x.toBits.toBitVec
  obtain ⟨t, exponent', mantissa', hy⟩ := exists_fields y.toBits.toBitVec
  change unpack .binary64 x.toBits.toBitVec = unpack .binary64 y.toBits.toBitVec at h
  change unpack .binary64 x.toBits.toBitVec ≠ _ at hnumber
  rw [hx, hy] at h
  rw [hx] at hnumber
  refine eq_of_bits ?_
  rw [hx, hy, ← pack_unpack_fields hnumber, h, pack_unpack_fields (h ▸ hnumber)]

theorem lost_of_parts (h : Lost (parts x)) : Scalar.isNaN x = true ∨ x = Scalar.infinity := by
  rcases h with h | h
  · left
    show (parts x).isNaN = true
    rw [h]
    rfl
  · right
    have hinfinity : parts (Scalar.infinity : Float) = .infinity .positive := by rfl
    exact eq_of_parts (h.trans hinfinity.symm) (by rw [h]; exact nofun)

theorem finite_cases (hx : x.isFinite = true) :
    (∃ s, parts x = .zero s) ∨ ∃ s m e hm, parts x = .finite s m e hm := by
  change (parts x).isFinite = true at hx
  cases hparts : parts x with
  | zero s => exact .inl ⟨s, rfl⟩
  | finite s m e hm => exact .inr ⟨s, m, e, hm, rfl⟩
  | _ =>
    rw [hparts] at hx
    cases hx

theorem parts_zero : parts (Scalar.zero : Float) = .zero .positive := rfl

theorem parts_of_pos (h : Scalar.zero < x) :
    parts x = .infinity .positive ∨ ∃ m e hm, parts x = .finite .positive m e hm := by
  rw [lt_iff, parts_zero] at h
  cases hparts : parts x with
  | infinity s =>
    cases s with
    | negative =>
      rw [hparts] at h
      cases h
    | positive => exact .inl rfl
  | finite s m e hm =>
    cases s with
    | negative =>
      rw [hparts] at h
      cases h
    | positive => exact .inr ⟨m, e, hm, rfl⟩
  | _ =>
    rw [hparts] at h
    cases h

theorem not_le_of_lost (h : Lost (parts x)) (hy : y.isFinite = true) : ¬ x ≤ y := by
  rw [le_iff]
  rcases h with h | h <;> rcases finite_cases hy with ⟨t, hy⟩ | ⟨t, n, f, hn, hy⟩ <;> rw [h, hy] <;>
    exact Bool.false_ne_true

theorem not_lt_of_lost (h : Lost (parts x)) : ¬ x < y := by
  rw [lt_iff]
  generalize parts y = b
  rcases h with h | h
  · rw [h]
    exact Bool.false_ne_true
  · rw [h]
    cases b with
    | infinity t => cases t <;> exact Bool.false_ne_true
    | _ => exact Bool.false_ne_true

theorem lost_of_not_lt (hy : parts y = .infinity .positive) (h : ¬ x < y) : Lost (parts x) := by
  rw [lt_iff, hy] at h
  generalize parts x = a at h ⊢
  cases a with
  | notANumber => exact .inl rfl
  | infinity s =>
    cases s with
    | negative => exact absurd rfl h
    | positive => exact .inr rfl
  | zero s => exact absurd rfl h
  | finite s m e hm => exact absurd rfl h

theorem isNaN_eq_true_iff : Scalar.isNaN x = true ↔ parts x = .notANumber := by
  show (parts x).isNaN = true ↔ _
  cases parts x <;> simp [UnpackedFloat.isNaN]

theorem not_lt_of_le (h : x ≤ y) : ¬ y < x := by
  rw [le_iff, UnpackedFloat.le] at h
  rw [lt_iff, UnpackedFloat.lt, compare_swap (parts x) (parts y)]
  generalize (parts x).compare (parts y) = o at h
  rcases o with _ | _ | _ | _ <;> first
    | exact Bool.false_ne_true
    | cases h

theorem not_lt_self (x : Float) : ¬ x < x := by
  by_cases hx : parts x = .notANumber
  · exact not_lt_of_lost (.inl hx)
  · exact not_lt_of_le (le_self_iff.mpr hx)

theorem pos_of_not_lt (hx : x.isFinite = true) (hy : Scalar.zero < y) (h : ¬ x < y) :
    Scalar.zero < x := by
  rw [lt_iff] at h ⊢
  rw [parts_zero]
  -- Whatever is positive is above zero and above the negative numbers.
  rcases finite_cases hx with ⟨s, hx⟩ | ⟨_ | _, m, e, hm, hx⟩
  · rcases parts_of_pos hy with hy | ⟨n, f, hn, hy⟩ <;> rw [hx, hy] at h <;> exact absurd rfl h
  · rcases parts_of_pos hy with hy | ⟨n, f, hn, hy⟩ <;> rw [hx, hy] at h <;> exact absurd rfl h
  · rw [hx]
    rfl

theorem lost_abs (h : x.isFinite = false) : Lost (parts x.abs) := (lost_abs_of_special h).unpack_pack

theorem lost_sqrt (h : x.isFinite = false) : Lost (parts x.sqrt) :=
  (lost_sqrt_of_special h).unpack_pack

theorem isFinite_of_lost (h : Lost (parts x)) : x.isFinite = false := by
  show (parts x).isFinite = false
  rcases h with h | h <;> rw [h] <;> rfl

theorem unsigned_parts_abs (x : Float) : Unsigned (parts x.abs) :=
  unsigned_unpack_pack (unsigned_abs (parts x))

theorem unsigned_parts_add (hx : Unsigned (parts x)) (hy : Unsigned (parts y)) :
    Unsigned (parts (x + y)) := unsigned_unpack_pack (unsigned_add .binary64 hx hy)

theorem unsigned_parts_mul (hx : Unsigned (parts x)) (hy : Unsigned (parts y)) :
    Unsigned (parts (x * y)) := unsigned_unpack_pack (unsigned_mul .binary64 hx hy)

theorem unsigned_of_pos (h : Scalar.zero < x) : Unsigned (parts x) := by
  rcases parts_of_pos h with h | ⟨m, e, hm, h⟩ <;> rw [h] <;> rfl

theorem lost_div (h : Lost (parts x)) (hy : Unsigned (parts y)) : Lost (parts (x / y)) :=
  (h.div hy).unpack_pack

end Float

end Trajectory.Binary64
