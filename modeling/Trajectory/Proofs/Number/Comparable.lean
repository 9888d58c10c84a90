import Trajectory.Proofs.Number.Rounded
import Trajectory.Proofs.Number.Sign

namespace Trajectory

namespace Scalar

/-- Arithmetic in which the bounds of steps can be compared. Numbers are what is at most itself. -/
class Comparable (α : Type) [Scalar α] : Prop where
  le_of_not_lt : ∀ a b : α, a ≤ a → b ≤ b → ¬ b < a → a ≤ b
  le_self : ∀ a : α, isFinite a = true → a ≤ a
  /-- The usual least step. -/
  leastStep : (ofDecimal 1 (-10) : α) ≤ ofDecimal 1 (-10)
  /-- The usual part of a range. -/
  part : ∀ a b : α, isFinite a = true → isFinite b = true →
    ofDecimal 1 (-1) * (a - b) ≤ ofDecimal 1 (-1) * (a - b)

instance {α : Type} [Scalar α] [Rounded α] : Comparable α where
  le_of_not_lt _ _ _ _ h := Rounded.not_lt.mp h
  le_self a _ := Rounded.le_refl a
  leastStep := Rounded.le_refl _
  part _ _ _ _ := Rounded.le_refl _

end Scalar

namespace Binary64

open Float.Model (Format UnpackedFloat)
open Float.Model.UnpackedFloat

section Unpacked

variable {a b : UnpackedFloat}

theorem compare_self (h : a ≠ .notANumber) : a.compare a = some .eq := by
  cases a with
  | infinity s => cases s <;> rfl
  | notANumber => exact absurd rfl h
  | zero s => rfl
  | finite s m e hm => cases s <;> simp [UnpackedFloat.compare]

theorem compare_swap (a b : UnpackedFloat) : b.compare a = (a.compare b).map Ordering.swap := by
  cases a with
  | notANumber => cases b <;> rfl
  | infinity s =>
    cases b with
    | notANumber => cases s <;> rfl
    | infinity t => cases s <;> cases t <;> rfl
    | zero t => cases s <;> rfl
    | finite t n f hn => cases s <;> cases t <;> rfl
  | zero s =>
    cases b with
    | notANumber => rfl
    | infinity t => cases t <;> rfl
    | zero t => rfl
    | finite t n f hn => cases t <;> rfl
  | finite s m e hm =>
    cases b with
    | notANumber => cases s <;> rfl
    | infinity t => cases s <;> cases t <;> rfl
    | zero t => cases s <;> rfl
    | finite t n f hn =>
      have hswap : (compare f e).then (compare n m) = ((compare e f).then (compare m n)).swap := by
        rw [Ordering.swap_then, ← Std.OrientedOrd.eq_swap, ← Std.OrientedOrd.eq_swap]
      cases s <;> cases t <;> simp [UnpackedFloat.compare, hswap]

theorem exists_compare (ha : a ≠ .notANumber) (hb : b ≠ .notANumber) :
    ∃ o, a.compare b = some o := by
  cases a with
  | notANumber => exact absurd rfl ha
  | infinity s =>
    cases b with
    | notANumber => exact absurd rfl hb
    | infinity t => exact ⟨_, rfl⟩
    | zero t => cases s <;> exact ⟨_, rfl⟩
    | finite t n f hn => cases s <;> exact ⟨_, rfl⟩
  | zero s =>
    cases b with
    | notANumber => exact absurd rfl hb
    | infinity t => cases t <;> exact ⟨_, rfl⟩
    | zero t => exact ⟨_, rfl⟩
    | finite t n f hn => cases t <;> exact ⟨_, rfl⟩
  | finite s m e hm =>
    cases b with
    | notANumber => exact absurd rfl hb
    | infinity t => cases s <;> cases t <;> exact ⟨_, rfl⟩
    | zero t => cases s <;> exact ⟨_, rfl⟩
    | finite t n f hn => cases s <;> cases t <;> exact ⟨_, rfl⟩

theorem le_of_lt_eq_false (ha : a ≠ .notANumber) (hb : b ≠ .notANumber) (h : b.lt a = false) :
    a.le b = true := by
  obtain ⟨o, ho⟩ := exists_compare hb ha
  unfold UnpackedFloat.le
  rw [compare_swap b a, ho]
  rw [UnpackedFloat.lt, ho] at h
  cases o with
  | lt => cases h
  | eq => rfl
  | gt => rfl

theorem roundWithAccuracy_ne (spec : Format) (s : Sign) (m : Nat) (e : Int) (accuracy : Accuracy) :
    roundWithAccuracy spec s m e accuracy ≠ .notANumber := by
  unfold roundWithAccuracy
  dsimp only
  split <;> exact fun h => by cases h

theorem normalize_ne (spec : Format) (m e : Int) (s : Sign) :
    UnpackedFloat.normalize spec m e s ≠ .notANumber := by
  unfold UnpackedFloat.normalize
  split
  · exact roundWithAccuracy_ne _ _ _ _ _
  · exact fun h => by cases h
  · exact roundWithAccuracy_ne _ _ _ _ _

theorem sub_ne (spec : Format) (ha : a.isFinite = true) (hb : b.isFinite = true) :
    UnpackedFloat.sub spec a b ≠ .notANumber := by
  cases a with
  | notANumber => cases ha
  | infinity s => cases ha
  | zero s =>
    cases b with
    | notANumber => cases hb
    | infinity t => cases hb
    | zero t =>
      show (if s == -t then UnpackedFloat.zero s else .zero .positive) ≠ .notANumber
      split <;> exact fun h => by cases h
    | finite t n f hn => exact fun h => by cases h
  | finite s m e hm =>
    cases b with
    | notANumber => cases hb
    | infinity t => cases hb
    | zero t => exact fun h => by cases h
    | finite t n f hn => exact normalize_ne _ _ _ _

theorem mul_ne (spec : Format) {s : Sign} {m : Nat} {e : Int} (hm : 0 < m) (hb : b ≠ .notANumber) :
    UnpackedFloat.mul spec (.finite s m e hm) b ≠ .notANumber := by
  cases b with
  | notANumber => exact absurd rfl hb
  | infinity t => exact fun h => by cases h
  | zero t => exact fun h => by cases h
  | finite t n f hn => exact roundWithAccuracy_ne _ _ _ _ _

theorem unpack_fields_ne {s : Sign} {exponent : BitVec 11} {mantissa : BitVec 52}
    (h : exponent = -1#11 → mantissa = 0#52) :
    unpack .binary64 (fields s exponent mantissa) ≠ .notANumber := by
  rw [unpack_fields]
  split
  next hexponent =>
    rw [if_pos (h hexponent)]
    exact fun hnone => by cases hnone
  next =>
    split
    · split <;> exact fun hnone => by cases hnone
    · exact fun hnone => by cases hnone

theorem unpack_pack_ne (ha : a ≠ .notANumber) :
    unpack .binary64 (UnpackedFloat.pack .binary64 a) ≠ .notANumber := by
  cases a with
  | notANumber => exact absurd rfl ha
  | infinity s => exact unpack_fields_ne fun _ => rfl
  | zero s => exact unpack_fields_ne fun _ => rfl
  | finite s m e hm =>
    unfold UnpackedFloat.pack
    dsimp only
    split
    next => exact unpack_fields_ne fun _ => rfl
    next hfits =>
      split
      next =>
        -- The exponent of an infinity is larger than the one of any number that fits.
        refine unpack_fields_ne fun hexponent => absurd (congrArg BitVec.toNat hexponent) ?_
        rw [BitVec.toNat_ofNat, Nat.mod_eq_of_lt (by omega)]
        have hlargest : (-1#11).toNat = 2 ^ 11 - 1 := rfl
        rw [hlargest]
        omega
      next => exact unpack_fields_ne fun hexponent => absurd hexponent (by decide)

end Unpacked

variable {x y : Float}

theorem le_iff : x ≤ y ↔ (parts x).le (parts y) = true := decide_eq_true_iff

theorem lt_iff : x < y ↔ (parts x).lt (parts y) = true := decide_eq_true_iff

theorem parts_add (x y : Float) : parts (x + y) = unpack .binary64
    (UnpackedFloat.pack .binary64 (UnpackedFloat.add .binary64 (parts x) (parts y))) := rfl

theorem parts_sub (x y : Float) : parts (x - y) = unpack .binary64
    (UnpackedFloat.pack .binary64 (UnpackedFloat.sub .binary64 (parts x) (parts y))) := rfl

theorem parts_mul (x y : Float) : parts (x * y) = unpack .binary64
    (UnpackedFloat.pack .binary64 (UnpackedFloat.mul .binary64 (parts x) (parts y))) := rfl

/-- What is no number is not at most itself. -/
theorem le_self_iff : x ≤ x ↔ parts x ≠ .notANumber := by
  rw [le_iff]
  constructor
  · intro h hnone
    rw [hnone] at h
    cases h
  · intro h
    rw [UnpackedFloat.le, compare_self h]
    rfl

theorem parts_ne_of_isFinite (hx : x.isFinite = true) : parts x ≠ .notANumber := by
  change (parts x).isFinite = true at hx
  intro hnone
  rw [hnone] at hx
  cases hx

theorem exists_parts_tenth : ∃ s m e hm, parts (ofDecimal 1 (-1)) = .finite s m e hm := by
  have hfinite : (match parts (ofDecimal 1 (-1)) with
    | .finite .. => true
    | _ => false) = true := by decide +kernel
  split at hfinite
  next s m e hm hparts => exact ⟨s, m, e, hm, hparts⟩
  next => cases hfinite

end Binary64

open Binary64 in
instance : Scalar.Comparable Float where
  le_of_not_lt x y hx hy h :=
    le_iff.mpr (le_of_lt_eq_false (le_self_iff.mp hx) (le_self_iff.mp hy)
      (Bool.eq_false_iff.mpr fun hlt => h (lt_iff.mpr hlt)))
  le_self x hx := le_self_iff.mpr (parts_ne_of_isFinite hx)
  leastStep := by decide +kernel
  part x y hx hy := by
    obtain ⟨s, m, e, hm, htenth⟩ := exists_parts_tenth
    have hlength : parts (x - y) ≠ .notANumber := by
      rw [parts_sub]
      exact unpack_pack_ne (sub_ne _ hx hy)
    refine le_self_iff.mpr ?_
    show parts (ofDecimal 1 (-1) * (x - y)) ≠ _
    rw [parts_mul, htenth]
    exact unpack_pack_ne (mul_ne _ hm hlength)

end Trajectory
