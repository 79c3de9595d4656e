namespace StackDeck.Text

/-- The characters with the Unicode property White_Space. -/
def isSpace (c : Char) : Bool :=
  let n := c.toNat
  (9 ≤ n && n ≤ 13) || n == 0x20 || n == 0x85 || n == 0xA0 || n == 0x1680 ||
    (0x2000 ≤ n && n ≤ 0x200A) || n == 0x2028 || n == 0x2029 || n == 0x202F ||
    n == 0x205F || n == 0x3000

def trimStart (s : List Char) : List Char := s.dropWhile isSpace

def trimEnd (s : List Char) : List Char := (s.reverse.dropWhile isSpace).reverse

def trim (s : List Char) : List Char := trimEnd (trimStart s)

def trimmed (s : String) : String := String.ofList (trim s.toList)

/-- A text is blank when it holds nothing but white space. -/
def isBlank (s : String) : Bool := s.toList.all isSpace

theorem dropWhile_isSpace_eq_nil {s : List Char} :
    s.dropWhile isSpace = [] ↔ s.all isSpace = true := by
  induction s with
  | nil => simp
  | cons c r ih => by_cases hc : isSpace c = true <;> simp_all

theorem trim_eq_nil {s : List Char} : trim s = [] ↔ s.all isSpace = true := by
  induction s with
  | nil => simp [trim, trimStart, trimEnd]
  | cons c r ih =>
    by_cases hc : isSpace c = true
    · simpa [trim, trimStart, List.dropWhile_cons, hc] using ih
    · simp [trim, trimStart, trimEnd, hc, dropWhile_isSpace_eq_nil]

/-- Blank and "empty once trimmed" are one notion. -/
theorem isBlank_eq_isEmpty_trim (s : String) : isBlank s = (trim s.toList).isEmpty := by
  rw [Bool.eq_iff_iff, List.isEmpty_iff, trim_eq_nil]
  rfl

end StackDeck.Text
