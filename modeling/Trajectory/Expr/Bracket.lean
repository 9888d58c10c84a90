namespace Trajectory

/-- A text cut at one of its characters. The text before the cut is held in reverse. -/
structure Cut where
  reversed : List Char
  mark : Char
  after : List Char
deriving Repr, DecidableEq

namespace Cut

def before (c : Cut) : List Char := c.reversed.reverse

def whole (c : Cut) : List Char := c.before ++ c.mark :: c.after

/-- The number of bytes before the cut. -/
def position (c : Cut) : Nat := c.reversed.foldl (fun n d => n + d.utf8Size) 0

theorem length_before_lt (c : Cut) : c.before.length < c.whole.length := by
  simp [whole]

theorem length_after_lt (c : Cut) : c.after.length < c.whole.length := by
  simp [whole]
  omega

end Cut

namespace Bracket

/-- The change of depth that a character makes. -/
def step (c : Char) : Int := if c = '(' then 1 else if c = ')' then -1 else 0

def isBracket (c : Char) : Bool := c == '(' || c == ')'

/-- Whether brackets match when `depth` of them are open already. -/
def balancedFrom (depth : Int) : List Char → Bool
  | [] => depth == 0
  | c :: s => 0 ≤ depth + step c && balancedFrom (depth + step c) s

/-- Every bracket that is opened is closed, and none is closed that was not opened. -/
def balanced (s : List Char) : Bool := balancedFrom 0 s

/-- The cuts outside all brackets, from left to right, of a text whose reversed beginning is
`reversed`. -/
def outerCutsFrom (depth : Int) (reversed : List Char) : List Char → List Cut
  | [] => []
  | c :: s =>
    let later := outerCutsFrom (depth + step c) (c :: reversed) s
    if depth = 0 ∧ ¬ isBracket c then ⟨reversed, c, s⟩ :: later else later

/-- The cuts of a text at the characters that stand outside all brackets. -/
def outerCuts (s : List Char) : List Cut := outerCutsFrom 0 [] s

/-- The cut at the bracket that brings the depth back to zero. -/
def closingCutFrom? (depth : Int) (reversed : List Char) : List Char → Option Cut
  | [] => none
  | c :: s =>
    if c = ')' ∧ depth + step c = 0 then some ⟨reversed, c, s⟩
    else closingCutFrom? (depth + step c) (c :: reversed) s

/-- The cut at the bracket that closes the one `s` begins with. -/
def closingCut? (s : List Char) : Option Cut := closingCutFrom? 0 [] s

/-- The position of the bracket that closes the one opened at byte `start`. Characters that begin
before `start` are passed over. -/
def pairFrom? (start position : Nat) : List Char → Option Nat
  | [] => none
  | c :: s =>
    if position < start then pairFrom? start (position + c.utf8Size) s
    else (closingCut? (c :: s)).map fun cut => position + cut.position

def pair? (s : List Char) (start : Nat) : Option Nat := pairFrom? start 0 s

/-- The text inside one pair of brackets that spans all of `s`. -/
def inner? (s : List Char) : Option (List Char) :=
  match s, closingCut? s with
  | '(' :: _, some ⟨reversed, _, []⟩ => some reversed.reverse.tail
  | _, _ => none

theorem whole_outerCutsFrom {depth : Int} {reversed s : List Char} {c : Cut}
    (h : c ∈ outerCutsFrom depth reversed s) : c.whole = reversed.reverse ++ s := by
  induction s generalizing depth reversed with
  | nil => simp [outerCutsFrom] at h
  | cons a s ih =>
    have hlater (later : c ∈ outerCutsFrom (depth + step a) (a :: reversed) s) :
        c.whole = reversed.reverse ++ a :: s := by simpa using ih later
    rw [outerCutsFrom] at h
    split at h
    · cases h with
      | head => rfl
      | tail _ later => exact hlater later
    · exact hlater h

theorem whole_outerCuts {s : List Char} {c : Cut} (h : c ∈ outerCuts s) : c.whole = s :=
  whole_outerCutsFrom h

theorem whole_closingCutFrom {depth : Int} {reversed s : List Char} {c : Cut}
    (h : closingCutFrom? depth reversed s = some c) : c.whole = reversed.reverse ++ s := by
  induction s generalizing depth reversed with
  | nil => simp [closingCutFrom?] at h
  | cons a s ih =>
    rw [closingCutFrom?] at h
    split at h
    · cases h
      rfl
    · simpa using ih h

theorem whole_closingCut {s : List Char} {c : Cut} (h : closingCut? s = some c) : c.whole = s :=
  whole_closingCutFrom h

theorem length_inner_lt {s t : List Char} (h : inner? s = some t) : t.length < s.length := by
  unfold inner? at h
  split at h
  next rest reversed mark hcut =>
    have hlength : reversed.reverse.length < ('(' :: rest).length := by
      have hlt := (Cut.mk reversed mark []).length_before_lt
      rwa [whole_closingCut hcut] at hlt
    cases h
    exact Nat.lt_of_le_of_lt (by simp) hlength
  next => cases h

end Bracket

end Trajectory
