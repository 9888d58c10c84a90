namespace Trajectory.Text

/-- The characters with the property `White_Space`. -/
def isBlank (c : Char) : Bool :=
  let n := c.toNat
  (0x09 ≤ n && n ≤ 0x0D) || n == 0x20 || n == 0x85 || n == 0xA0 || n == 0x1680 ||
    (0x2000 ≤ n && n ≤ 0x200A) || n == 0x2028 || n == 0x2029 || n == 0x202F || n == 0x205F ||
    n == 0x3000

def trimStart (s : List Char) : List Char := s.dropWhile isBlank

def trimEnd (s : List Char) : List Char := (s.reverse.dropWhile isBlank).reverse

def trim (s : List Char) : List Char := trimEnd (trimStart s)

/-- True of a text that holds nothing but blanks. -/
def isBlankText (s : List Char) : Bool := s.all isBlank

def trimmed (s : String) : String := String.ofList (trim s.toList)

theorem length_trim_le (s : List Char) : (trim s).length ≤ s.length := by
  have hend := (List.dropWhile_sublist isBlank (l := (trimStart s).reverse)).length_le
  have hstart := (List.dropWhile_sublist isBlank (l := s)).length_le
  simp only [trim, trimEnd, List.length_reverse] at hend ⊢
  exact Nat.le_trans hend hstart

end Trajectory.Text
