import Mathlib.Data.List.TakeWhile
import Trajectory.Proofs.Expr.Matched
import Trajectory.Proofs.Text.Offset

namespace Trajectory

namespace Cut

theorem position_eq (c : Cut) : c.position = Text.size c.before := by
  have hfold (s : List Char) (n : Nat) :
      s.foldl (fun n d => n + d.utf8Size) n = n + Text.size s := by
    induction s generalizing n with
    | nil => rfl
    | cons a s ih =>
      rw [List.foldl_cons, ih, Text.size_cons]
      omega
  rw [position, hfold, before, Text.size_reverse]
  omega

/-- The characters of which names and numbers are made. -/
def isTokenChar (c : Char) : Bool := Text.isWordChar c || c == '.'

theorem toNat_of_isTokenChar {c : Char} (h : isTokenChar c = true) : c.toNat < 128 := by
  simp only [isTokenChar, Bool.or_eq_true, beq_iff_eq, Text.isWordChar_iff] at h
  rcases h with h | rfl
  · omega
  · decide

end Cut

namespace Offset

open Text Cut

/-- The offset and the character of each cut outside all brackets. -/
def marksFrom (depth : Int) (position : Nat) : List Char → List (Nat × Char)
  | [] => []
  | c :: s =>
    let later := marksFrom (depth + Bracket.step c) (position + c.utf8Size) s
    if depth = 0 ∧ ¬ Bracket.isBracket c then (position, c) :: later else later

def marks (s : List Char) : List (Nat × Char) := marksFrom 0 0 s

def ofCut (c : Cut) : Nat × Char := (size c.before, c.mark)

section ExponentMark

/-- The offset at which the name or number that ends before an offset begins. -/
def tokenStart (data : List UInt8) : Nat → Placed Nat
  | 0 => .ok 0
  | start + 1 => do
    let b ← byteAt data start
    if isTokenChar (charOf b) then tokenStart data start else .ok (start + 1)

/-- Whether bytes, of which there is one at least, are digits and points only. -/
def isNumber (data : List UInt8) : Placed Bool := do
  let first ← byteAt data 0
  pure (isNumberChar (charOf first) && data.all fun b => isNumberChar (charOf b))

/-- Whether digits and points only stand between the beginning of a token and an offset in it. -/
def endsNumber (data : List UInt8) (position : Nat) : Placed Bool := do
  let start ← tokenStart data position
  if start = position then pure false
  else do
    let mantissa ← byteSlice data start position
    isNumber mantissa

end ExponentMark

section Search

/-- Whether the mark `p` of an exponent stands just before an offset, up to which the text is `before`. -/
def followsExponentMark (s before : List Char) (p : Char) (i : Nat) : Placed Bool :=
  if (p = 'e' ∨ p = 'E') ∧ size (trimEnd before) = i then do
    let position ← back i
    endsNumber (bytes s) position
  else pure false

/-- Whether a sign has an operand before it. -/
def joins (s : List Char) (m : Nat × Char) : Placed Bool :=
  if m.2 = '+' ∨ m.2 = '-' then do
    let before ← upTo s m.1
    match (trimEnd before).getLast? with
    | none => pure false
    | some p =>
      if isOpening p then pure false
      else do
        let exponent ← followsExponentMark s before p m.1
        pure !exponent
  else pure false

/-- The last mark that a test accepts. -/
def last? (test : Nat × Char → Placed Bool) : List (Nat × Char) → Placed (Option (Nat × Char))
  | [] => pure none
  | m :: later => do
    let accepted ← test m
    let last ← last? test later
    pure (last <|> if accepted then some m else none)

def lastBinarySign? (s : List Char) : Placed (Option (Nat × Char)) := last? (joins s) (marks s)

def lastOf? (ops : List Char) (s : List Char) : Option (Nat × Char) :=
  ((marks s).filter fun m => ops.contains m.2).getLast?

def first? (mark : Char) (s : List Char) : Option Nat :=
  ((marks s).find? fun m => m.2 == mark).map Prod.fst

/-- The offset of the first of a character, inside brackets or not. -/
def find? (mark : Char) (s : List Char) : Option Nat :=
  if mark ∈ s then some (size (s.takeWhile fun c => c != mark)) else none

/-- The text in the brackets that open at an offset and close at the last byte. -/
def enclosed? (s : List Char) (start : Nat) : Placed (Option (List Char)) := do
  let last ← back (size s)
  if Bracket.pair? s start = some last then
    let inner ← slice s (start + 1) last
    pure (some inner)
  else pure none

end Search

theorem marksFrom_eq (depth : Int) (reversed s : List Char) :
    marksFrom depth (size reversed) s = (Bracket.outerCutsFrom depth reversed s).map ofCut := by
  induction s generalizing depth reversed with
  | nil => rfl
  | cons c s ih =>
    have hsize : size reversed + c.utf8Size = size (c :: reversed) := by
      rw [size_cons]
      omega
    rw [marksFrom, Bracket.outerCutsFrom, hsize, ih]
    split
    next => simp [ofCut, before]
    next => rfl

theorem marks_eq (s : List Char) : marks s = (Bracket.outerCuts s).map ofCut := marksFrom_eq 0 [] s

section ExponentMark

theorem tokenStart_append (front rest : List UInt8) : tokenStart (front ++ rest) front.length =
    .ok (front.reverse.dropWhile fun b => isTokenChar (charOf b)).length := by
  induction front using List.reverseRecOn generalizing rest with
  | nil => rfl
  | append_singleton front b ih =>
    have hbyte := byteAt_append front b rest
    rw [List.append_assoc, List.singleton_append, List.length_append, List.length_singleton,
      tokenStart, hbyte, Placed.ok_bind, List.reverse_append, List.reverse_singleton,
      List.singleton_append, List.dropWhile_cons]
    split
    next => exact ih (b :: rest)
    next => simp

theorem isTokenChar_byte {c : Char} (h : isTokenChar c = false) :
    ∀ b ∈ String.utf8EncodeChar c, isTokenChar (charOf b) = false := by
  intro b hb
  by_cases hascii : c.toNat < 128
  · obtain ⟨a, ha, hcharOf⟩ := exists_byte hascii
    rw [ha, List.mem_singleton] at hb
    rw [hb, hcharOf, h]
  · have hle := le_of_mem_utf8EncodeChar (by omega) b hb
    rw [← toNat_charOf] at hle
    rw [Bool.eq_false_iff]
    intro htoken
    have hlt := toNat_of_isTokenChar htoken
    omega

theorem dropWhile_bytes (reversed : List Char) :
    (bytes reversed.reverse).reverse.dropWhile (fun b => isTokenChar (charOf b)) =
      (bytes (reversed.dropWhile isTokenChar).reverse).reverse := by
  induction reversed with
  | nil => rfl
  | cons c reversed ih =>
    rw [List.reverse_cons, bytes_append, List.reverse_append, List.dropWhile_cons]
    cases htoken : isTokenChar c with
    | true =>
      obtain ⟨b, hb, hcharOf⟩ := exists_byte (toNat_of_isTokenChar htoken)
      simp [hb, hcharOf, htoken, ih]
    | false =>
      have hbytes := isTokenChar_byte htoken
      cases hencoded : (String.utf8EncodeChar c).reverse with
      | nil => exact absurd (List.reverse_eq_nil_iff.mp hencoded) (utf8EncodeChar_ne_nil c)
      | cons b more =>
        have hb : b ∈ String.utf8EncodeChar c := by
          rw [← List.mem_reverse, hencoded]
          exact List.mem_cons_self
        simp [hencoded, hbytes b hb]

theorem tokenStart_eq (reversed rest : List Char) :
    tokenStart (bytes (reversed.reverse ++ rest)) (size reversed) =
      .ok (size (reversed.dropWhile isTokenChar)) := by
  have hscan := tokenStart_append (bytes reversed.reverse) (bytes rest)
  rw [dropWhile_bytes, ← bytes_append, length_bytes, size_reverse, List.length_reverse, length_bytes,
    size_reverse] at hscan
  exact hscan

theorem all_bytes {s : List Char} (h : ∀ c ∈ s, isTokenChar c = true) :
    (bytes s).all (fun b => isNumberChar (charOf b)) = s.all isNumberChar := by
  induction s with
  | nil => rfl
  | cons c s ih =>
    obtain ⟨b, hb, hcharOf⟩ := exists_byte (toNat_of_isTokenChar (h c List.mem_cons_self))
    have hs := ih fun d hd => h d (List.mem_cons_of_mem c hd)
    simp [hb, hcharOf, hs]

theorem isNumber_bytes {s : List Char} (hne : s ≠ []) (h : ∀ c ∈ s, isTokenChar c = true) :
    isNumber (bytes s) = .ok (s.all isNumberChar) := by
  have hall := all_bytes h
  cases s with
  | nil => exact absurd rfl hne
  | cons c s =>
    obtain ⟨b, hb, hcharOf⟩ := exists_byte (toNat_of_isTokenChar (h c List.mem_cons_self))
    have hfirst : byteAt (bytes (c :: s)) 0 = .ok b := by simp [hb, byteAt]
    rw [isNumber, hfirst, Placed.ok_bind, hall, hcharOf]
    simp

theorem endsNumber_eq (reversed rest : List Char) :
    endsNumber (bytes (reversed.reverse ++ rest)) (size reversed) = .ok (endsInNumber reversed) := by
  set token := reversed.takeWhile isTokenChar with htoken
  set earlier := reversed.dropWhile isTokenChar with hearlier
  have hsplit : token ++ earlier = reversed := List.takeWhile_append_dropWhile
  have hends : endsInNumber reversed = (!token.isEmpty && token.all isNumberChar) := rfl
  have hsize : size reversed = size earlier + size token := by
    rw [← hsplit, size_append]
    omega
  rw [endsNumber, tokenStart_eq, Placed.ok_bind, ← hearlier, hends]
  by_cases hnil : token = []
  · rw [hnil, size_nil] at hsize
    rw [if_pos (by omega), hnil]
    rfl
  · have hpos : size token ≠ 0 := mt size_eq_zero_iff.mp hnil
    have hmantissa : byteSlice (bytes (reversed.reverse ++ rest)) (size earlier) (size reversed) =
        .ok (bytes token.reverse) := by
      have hslice := byteSlice_append (bytes earlier.reverse) (bytes token.reverse) (bytes rest)
      rw [hsize, ← hsplit]
      simpa using hslice
    have htokens : ∀ c ∈ token.reverse, isTokenChar c = true := by
      intro c hc
      exact List.all_eq_true.mp List.all_takeWhile c (List.mem_reverse.mp hc)
    rw [if_neg (by omega), hmantissa, Placed.ok_bind, isNumber_bytes (by simpa using hnil) htokens]
    simp [hnil]

end ExponentMark

section Search

theorem eq_of_size_trimEnd {s : List Char} (h : size (trimEnd s) = size s) : trimEnd s = s := by
  obtain ⟨b, _, hs⟩ := trimEnd_append s
  have hsize := congrArg size hs
  rw [size_append] at hsize
  have hb : b = [] := size_eq_zero_iff.mp (by omega)
  rwa [hb, List.append_nil] at hs

/-- A cut follows the mark of an exponent only where `p`, the last character before it that is no blank, is such
a mark and nothing is trimmed away after it. -/
theorem not_followsExponentMark {u earlier : List Char} {p m : Char} {v : List Char}
    (h : u.reverse.dropWhile isBlank = p :: earlier)
    (hmark : ¬ ((p = 'e' ∨ p = 'E') ∧ size (trimEnd u) = size u)) :
    Cut.followsExponentMark ⟨u.reverse, m, v⟩ = false := by
  rw [Cut.followsExponentMark]
  cases hreverse : u.reverse with
  | nil => rfl
  | cons q rest =>
    show ((q == 'e' || q == 'E') && endsInNumber rest) = false
    by_cases hq : q = 'e' ∨ q = 'E'
    · have hblank : isBlank q = false := by rcases hq with rfl | rfl <;> decide
      rw [hreverse, List.dropWhile_cons, hblank] at h
      obtain ⟨rfl, rfl⟩ : q = p ∧ rest = earlier := by simpa using h
      have htrim : trimEnd u = u := by
        rw [trimEnd, hreverse, List.dropWhile_cons, hblank, ← List.reverse_reverse u, hreverse]
        rfl
      exact absurd ⟨hq, by rw [htrim]⟩ hmark
    · have hbool : (q == 'e' || q == 'E') = false := by simpa using hq
      rw [hbool, Bool.false_and]

theorem followsExponentMark_eq {u earlier : List Char} {p : Char}
    (h : u.reverse.dropWhile isBlank = p :: earlier) (m : Char) (v : List Char) :
    followsExponentMark (u ++ m :: v) u p (size u) =
      .ok (Cut.followsExponentMark ⟨u.reverse, m, v⟩) := by
  rw [followsExponentMark]
  by_cases hmark : (p = 'e' ∨ p = 'E') ∧ size (trimEnd u) = size u
  · obtain ⟨hexponent, hsize⟩ := hmark
    have hreverse : u.reverse = p :: earlier := by
      have htrim := congrArg List.reverse (eq_of_size_trimEnd hsize)
      rwa [trimEnd, List.reverse_reverse, h, eq_comm] at htrim
    have hone : p.utf8Size = 1 := by rcases hexponent with rfl | rfl <;> rfl
    have hback : back (size u) = .ok (size earlier) := by
      rw [← size_reverse, hreverse, size_cons, hone, Nat.add_comm]
      rfl
    have hu : u ++ m :: v = earlier.reverse ++ (p :: m :: v) := by
      have hwhole := congrArg List.reverse hreverse
      rw [List.reverse_reverse] at hwhole
      simp [hwhole]
    have hbool : (p == 'e' || p == 'E') = true := by simpa using hexponent
    rw [if_pos ⟨hexponent, hsize⟩, hback, Placed.ok_bind, hu, endsNumber_eq,
      Cut.followsExponentMark, hreverse]
    show _ = Except.ok ((p == 'e' || p == 'E') && endsInNumber earlier)
    rw [hbool, Bool.true_and]
  · rw [if_neg hmark, Placed.pure_eq, not_followsExponentMark h hmark]

theorem joins_eq (c : Cut) : joins c.whole (ofCut c) = .ok c.isBinarySign := by
  obtain ⟨u, m, v, rfl⟩ := c.exists_eq
  rw [whole_mk, ofCut, before_mk, joins, isBinarySign]
  show (if m = '+' ∨ m = '-' then _ else _) = Except.ok ((m == '+' || m == '-') && _)
  by_cases hsign : m = '+' ∨ m = '-'
  · have hbool : (m == '+' || m == '-') = true := by simpa using hsign
    have hlast : (trimEnd u).getLast? = (u.reverse.dropWhile isBlank).head? := by
      rw [trimEnd, List.getLast?_reverse]
    rw [if_pos hsign, upTo_append, Placed.ok_bind, hlast, hbool, Bool.true_and]
    cases hdrop : u.reverse.dropWhile isBlank with
    | nil => rfl
    | cons p earlier =>
      have hexponent := followsExponentMark_eq hdrop m v
      show (if isOpening p = true then _ else followsExponentMark _ _ _ _ >>= _) =
        Except.ok (!isOpening p && _)
      rw [hexponent]
      cases hopening : isOpening p <;> rfl
  · have hbool : (m == '+' || m == '-') = false := by simpa using hsign
    rw [if_neg hsign, hbool]
    rfl

/-- A test that is never misplaced finds what a filter of the cuts finds. -/
theorem last_eq {test : Nat × Char → Placed Bool} {p : Cut → Bool} {cuts : List Cut}
    (h : ∀ c ∈ cuts, test (ofCut c) = .ok (p c)) :
    last? test (cuts.map ofCut) = .ok ((cuts.filter p).getLast?.map ofCut) := by
  induction cuts with
  | nil => rfl
  | cons c cuts ih =>
    have hlater := ih fun d hd => h d (List.mem_cons_of_mem c hd)
    rw [List.map_cons, last?, h c List.mem_cons_self, Placed.ok_bind, hlater, Placed.ok_bind]
    cases hp : p c with
    | false => simp [hp]
    | true =>
      rw [List.filter_cons_of_pos hp, List.getLast?_cons]
      cases (cuts.filter p).getLast? <;> rfl

theorem lastBinarySign_eq (s : List Char) :
    lastBinarySign? s = .ok ((Bracket.lastBinarySign? s).map ofCut) := by
  rw [lastBinarySign?, marks_eq, Bracket.lastBinarySign?]
  apply last_eq
  intro c hc
  have hjoins := joins_eq c
  rwa [Bracket.whole_outerCuts hc] at hjoins

theorem lastOf_eq (ops s : List Char) : lastOf? ops s = (Bracket.lastOf? ops s).map ofCut := by
  rw [lastOf?, marks_eq, Bracket.lastOf?, List.filter_map, List.getLast?_map]
  rfl

theorem first_eq (mark : Char) (s : List Char) :
    first? mark s = (Bracket.first? mark s).map fun c => size c.before := by
  rw [first?, marks_eq, Bracket.first?, List.find?_map, Option.map_map]
  rfl

theorem find_cases (mark : Char) (s : List Char) :
    (s.dropWhile (fun c => c != mark) = [] ∧ find? mark s = none) ∨
      ∃ t, s.dropWhile (fun c => c != mark) = mark :: t ∧
        find? mark s = some (size (s.takeWhile fun c => c != mark)) := by
  have hmem : mark ∈ s ↔ s.dropWhile (fun c => c != mark) ≠ [] := by
    rw [ne_eq, List.dropWhile_eq_nil_iff]
    simp
  rw [find?]
  cases hdrop : s.dropWhile fun c => c != mark with
  | nil => exact .inl ⟨rfl, if_neg (by simp [hmem, hdrop])⟩
  | cons c t =>
    have hc : c = mark := by
      have hhead := dropWhile_head (p := fun c => c != mark) (s := s) c (by rw [hdrop]; rfl)
      simpa using hhead
    exact .inr ⟨t, by rw [hc], if_pos (by simp [hmem, hdrop])⟩

theorem pairFrom_append (u t : List Char) (n : Nat) :
    Bracket.pairFrom? (n + size u) n (u ++ t) =
      (Bracket.closingCut? t).map fun cut => n + size u + cut.position := by
  induction u generalizing n with
  | nil =>
    cases t with
    | nil => rfl
    | cons c t => simp [Bracket.pairFrom?]
  | cons c u ih =>
    have hpos := c.utf8Size_pos
    have hsize : n + size (c :: u) = n + c.utf8Size + size u := by
      rw [size_cons]
      omega
    rw [List.cons_append, Bracket.pairFrom?, if_pos (by rw [hsize]; omega), hsize, ih]

theorem pair_append (u t : List Char) : Bracket.pair? (u ++ t) (size u) =
    (Bracket.closingCut? t).map fun cut => size u + size cut.before := by
  have h := pairFrom_append u t 0
  simp only [Nat.zero_add, position_eq] at h
  exact h

/-- The bracket that a cut closes is the last byte exactly where the cut is the last character. -/
theorem closes_last_iff {t : List Char} {c : Cut} (h : Bracket.closingCut? ('(' :: t) = some c) :
    size c.before = size t ↔ c.after = [] := by
  have hwhole := congrArg size (Bracket.whole_closingCut h)
  rw [whole, Bracket.mark_of_closingCutFrom h, size_append, size_cons, size_cons] at hwhole
  have hone : (')' : Char).utf8Size = ('(' : Char).utf8Size := rfl
  rw [← size_eq_zero_iff]
  omega

theorem enclosed_eq (u t : List Char) :
    enclosed? (u ++ '(' :: t) (size u) = .ok (Bracket.inner? ('(' :: t)) := by
  have hlast : back (size (u ++ '(' :: t)) = .ok (size u + size t) := by
    have hsize : size (u ++ '(' :: t) = size u + size t + 1 := by
      rw [size_append, size_cons]
      show size u + (1 + size t) = _
      omega
    rw [hsize]
    rfl
  rw [enclosed?, hlast, Placed.ok_bind, pair_append]
  cases hcut : Bracket.closingCut? ('(' :: t) with
  | none => simp [Bracket.inner?, hcut]
  | some c =>
    have hcloses := closes_last_iff hcut
    rw [Option.map_some]
    obtain ⟨reversed, m, after⟩ := c
    cases after with
    | nil =>
      have hinner : Bracket.inner? ('(' :: t) = some reversed.reverse.tail := by
        simp [Bracket.inner?, hcut]
      have ht : t = reversed.reverse.tail ++ [')'] :=
        (List.cons.inj (Bracket.eq_bracketed_of_inner hinner)).2
      have hbefore := hcloses.mpr rfl
      have hsize : size u + size t = size (u ++ ['(']) + size reversed.reverse.tail := by
        rw [ht, size_append, size_append]
        show size u + (_ + 1) = size u + 1 + _
        omega
      have hslice := slice_append (u ++ ['(']) reversed.reverse.tail [')']
      rw [← ht, ← hsize, List.append_assoc, List.singleton_append, size_append] at hslice
      have hfound : slice (u ++ '(' :: t) (size u + 1) (size u + size t) =
          .ok reversed.reverse.tail := hslice
      rw [hbefore, if_pos rfl, hfound, hinner]
      rfl
    | cons a v =>
      have hbefore : ¬ size (Cut.before ⟨reversed, m, a :: v⟩) = size t :=
        mt hcloses.mp (List.cons_ne_nil a v)
      rw [if_neg (by simpa using hbefore)]
      simp [Bracket.inner?, hcut]

end Search

end Offset

end Trajectory
