namespace StackDeck.Text

/-- The first `max` characters, with "..." standing for whatever was cut off. -/
def truncate (max : Nat) (s : String) : String :=
  if s.length ≤ max then s else String.ofList (s.toList.take max) ++ "..."

/-- The last `max` characters. -/
def lastChars (max : Nat) (s : List Char) : List Char := s.drop (s.length - max)

def tail (max : Nat) (s : String) : String := String.ofList (lastChars max s.toList)

theorem length_lastChars (max : Nat) (s : List Char) :
    (lastChars max s).length = min max s.length := by
  simp [lastChars]
  omega

/-- Keeping a tail that is long enough loses nothing that a shorter tail would show. -/
theorem lastChars_append_lastChars {short long : Nat} (h : short ≤ long) (s t : List Char) :
    lastChars short (lastChars long s ++ t) = lastChars short (s ++ t) := by
  simp only [lastChars, List.length_append, List.length_drop, List.drop_append, List.drop_drop]
  congr 1
  · by_cases hl : long ≤ s.length
    · by_cases hk : s.length + t.length - short ≤ s.length - long
      · have h1 : s.length - long + (s.length - (s.length - long) + t.length - short) =
            s.length + t.length - short := by omega
        rw [h1]
      · congr 1
        omega
    · congr 1
      omega
  · congr 1
    omega

end StackDeck.Text
