import Mathlib.Data.List.Induction
import Trajectory.Proofs.Expr.Alphabet

namespace Trajectory

/-- Why nothing stands at an offset. -/
inductive Misplaced where
  /-- Past the last byte. -/
  | outside
  /-- Between the bytes of one character. -/
  | inside
  /-- The end is before the beginning. -/
  | crossed
  /-- Before the first byte. -/
  | negative
deriving Repr, DecidableEq

/-- What is found by offsets, each of which may be misplaced. -/
abbrev Placed := Except Misplaced

namespace Placed

variable {β γ : Type}

@[simp] theorem ok_bind (a : β) (f : β → Placed γ) : ((.ok a : Placed β) >>= f) = f a := rfl

@[simp] theorem pure_eq (a : β) : (pure a : Placed β) = .ok a := rfl

end Placed

namespace Text

def size : List Char → Nat
  | [] => 0
  | c :: s => c.utf8Size + size s

def bytes (s : List Char) : List UInt8 := s.flatMap String.utf8EncodeChar

/-- The text before an offset and the text from it on. -/
def splitAt (i : Nat) : List Char → Placed (List Char × List Char)
  | [] => if i = 0 then .ok ([], []) else .error .outside
  | c :: s =>
    if i = 0 then .ok ([], c :: s)
    else if i < c.utf8Size then .error .inside
    else do
      let (before, after) ← splitAt (i - c.utf8Size) s
      pure (c :: before, after)

def upTo (s : List Char) (i : Nat) : Placed (List Char) := do
  let (before, _) ← splitAt i s
  pure before

def onward (s : List Char) (i : Nat) : Placed (List Char) := do
  let (_, after) ← splitAt i s
  pure after

/-- The text from offset `i` up to offset `j`. -/
def slice (s : List Char) (i j : Nat) : Placed (List Char) :=
  if j < i then .error .crossed
  else do
    let before ← upTo s j
    onward before i

def byteAt (data : List UInt8) (i : Nat) : Placed UInt8 :=
  match data[i]? with
  | some b => .ok b
  | none => .error .outside

def byteSlice (data : List UInt8) (i j : Nat) : Placed (List UInt8) :=
  if j < i then .error .crossed
  else if data.length < j then .error .outside
  else .ok ((data.take j).drop i)

/-- The offset one byte back. -/
def back : Nat → Placed Nat
  | 0 => .error .negative
  | i + 1 => .ok i

section Size

@[simp] theorem size_nil : size [] = 0 := rfl

@[simp] theorem size_cons (c : Char) (s : List Char) : size (c :: s) = c.utf8Size + size s := rfl

@[simp] theorem size_append (s t : List Char) : size (s ++ t) = size s + size t := by
  induction s with
  | nil => simp
  | cons c s ih =>
    rw [List.cons_append, size_cons, size_cons, ih]
    omega

@[simp] theorem size_reverse (s : List Char) : size s.reverse = size s := by
  induction s with
  | nil => rfl
  | cons c s ih =>
    rw [List.reverse_cons, size_append, ih, size_cons, size_cons, size_nil]
    omega

theorem size_eq_zero_iff {s : List Char} : size s = 0 ↔ s = [] := by
  cases s with
  | nil => simp
  | cons c s =>
    have hpos := c.utf8Size_pos
    simp; omega

theorem size_trim_le (s : List Char) : size (trim s) ≤ size s := by
  obtain ⟨b, c, _, _, hs⟩ := trim_surrounded s
  have hsize := congrArg size hs
  rw [size_append, size_append] at hsize
  omega

theorem size_lt_of_infix {p s : List Char} (h : p <:+: s) (hlt : p.length < s.length) :
    size p < size s := by
  obtain ⟨u, v, rfl⟩ := h
  have hne : size (u ++ v) ≠ 0 := by
    intro hzero
    obtain ⟨rfl, rfl⟩ := List.append_eq_nil_iff.mp (size_eq_zero_iff.mp hzero)
    simp at hlt
  rw [size_append] at hne
  simp only [size_append]
  omega

@[simp] theorem bytes_nil : bytes [] = [] := rfl

@[simp] theorem bytes_append (s t : List Char) : bytes (s ++ t) = bytes s ++ bytes t := by simp [bytes]

@[simp] theorem bytes_cons (c : Char) (s : List Char) :
    bytes (c :: s) = String.utf8EncodeChar c ++ bytes s := by
  simp [bytes]

@[simp] theorem length_bytes (s : List Char) : (bytes s).length = size s := by
  induction s with
  | nil => rfl
  | cons c s ih => simp [ih]

end Size

section Slice

theorem splitAt_append (s t : List Char) : splitAt (size s) (s ++ t) = .ok (s, t) := by
  induction s with
  | nil => cases t <;> simp [splitAt]
  | cons c s ih =>
    have hpos := c.utf8Size_pos
    have hne : ¬ c.utf8Size + size s = 0 := by omega
    have hle : ¬ c.utf8Size + size s < c.utf8Size := by omega
    have hrest : c.utf8Size + size s - c.utf8Size = size s := by omega
    rw [List.cons_append, size_cons, splitAt, if_neg hne, if_neg hle, hrest, ih]
    rfl

theorem upTo_append (s t : List Char) : upTo (s ++ t) (size s) = .ok s := by
  rw [upTo, splitAt_append]
  rfl

example : upTo ['π', '/', '2'] 1 = .error .inside := by decide

theorem onward_append (s t : List Char) : onward (s ++ t) (size s) = .ok t := by
  rw [onward, splitAt_append]
  rfl

theorem onward_cons (s t : List Char) {c : Char} (hc : c.utf8Size = 1) :
    onward (s ++ c :: t) (size s + 1) = .ok t := by
  have h := onward_append (s ++ [c]) t
  rwa [size_append, size_cons, size_nil, hc, List.append_assoc] at h

theorem slice_append (s t u : List Char) :
    slice (s ++ (t ++ u)) (size s) (size s + size t) = .ok t := by
  have hupTo := upTo_append (s ++ t) u
  rw [size_append, List.append_assoc] at hupTo
  rw [slice, if_neg (by omega), hupTo]
  exact onward_append s t

theorem byteAt_append (front : List UInt8) (b : UInt8) (rest : List UInt8) :
    byteAt (front ++ b :: rest) front.length = .ok b := by
  simp [byteAt]

theorem byteSlice_append (front middle rest : List UInt8) :
    byteSlice (front ++ (middle ++ rest)) front.length (front.length + middle.length) =
      .ok middle := by
  have htake : (front ++ (middle ++ rest)).take (front.length + middle.length) = front ++ middle := by
    rw [← List.length_append, ← List.append_assoc, List.take_left]
  rw [byteSlice, if_neg (by omega), if_neg (by simp), htake, List.drop_left]

end Slice

section Ascii

/-- The character whose code point is a byte. -/
def charOf (b : UInt8) : Char := Char.ofNat b.toNat

theorem toNat_charOf (b : UInt8) : (charOf b).toNat = b.toNat := by
  have hvalid : b.toNat.isValidChar := by
    have hlt := b.toNat_lt
    left; omega
  rw [charOf, Char.ofNat, dif_pos hvalid]
  rfl

theorem utf8Size_eq_one_iff {c : Char} : c.utf8Size = 1 ↔ c.toNat < 128 := by
  rw [Char.utf8Size_eq_one_iff, UInt32.le_iff_toNat_le]
  show c.toNat ≤ 127 ↔ _
  omega

theorem exists_byte {c : Char} (h : c.toNat < 128) :
    ∃ b, String.utf8EncodeChar c = [b] ∧ charOf b = c := by
  have hsize := utf8Size_eq_one_iff.mpr h
  refine ⟨c.val.toUInt8, String.utf8EncodeChar_eq_singleton hsize, ?_⟩
  apply Char.toNat_inj.mp
  rw [toNat_charOf]
  show c.toNat % 256 = c.toNat
  omega

theorem utf8EncodeChar_ne_nil (c : Char) : String.utf8EncodeChar c ≠ [] := by
  have hlength := String.length_utf8EncodeChar c
  have hpos := c.utf8Size_pos
  intro hnil
  rw [hnil, List.length_nil] at hlength
  omega

theorem le_of_mem_utf8EncodeChar {c : Char} (h : 128 ≤ c.toNat) :
    ∀ b ∈ String.utf8EncodeChar c, 128 ≤ b.toNat := by
  have hval : c.val.toNat = c.toNat := rfl
  have hlast (n : Nat) : 128 ≤ (UInt8.ofNat (n % 64 + 128)).toNat := by
    simp; omega
  intro b hb
  simp only [String.utf8EncodeChar, hval] at hb
  split at hb
  next hle => omega
  next =>
    split at hb
    next =>
      simp only [List.mem_cons, List.not_mem_nil, or_false] at hb
      rcases hb with rfl | rfl
      · simp; omega
      · exact hlast _
    next =>
      split at hb
      all_goals
        simp only [List.mem_cons, List.not_mem_nil, or_false] at hb
      next =>
        rcases hb with rfl | rfl | rfl
        · simp; omega
        · exact hlast _
        · exact hlast _
      next =>
        rcases hb with rfl | rfl | rfl | rfl
        · simp; omega
        · exact hlast _
        · exact hlast _
        · exact hlast _

end Ascii

end Text

end Trajectory
