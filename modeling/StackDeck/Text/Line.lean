namespace StackDeck.Text

/-- A line as its terminator leaves it: one carriage return before the line feed belongs to the
terminator. -/
def dropReturn (line : List Char) : List Char :=
  match line.reverse with
  | '\r' :: r => r.reverse
  | _ => line

/-- Splits at every line feed; what follows the last one is not ended. -/
def splitLines : List Char → List (List Char) × List Char
  | [] => ([], [])
  | c :: r =>
    let (done, rest) := splitLines r
    if c == '\n' then
      ([] :: done, rest)
    else
      match done with
      | [] => ([], c :: rest)
      | l :: more => ((c :: l) :: more, rest)

variable {line : List Char}

theorem splitLines_line (h : '\n' ∉ line) (rest : List Char) :
    splitLines (line ++ '\n' :: rest) = (line :: (splitLines rest).1, (splitLines rest).2) := by
  induction line with
  | nil => rfl
  | cons c r ih =>
    obtain ⟨hc, hr⟩ : '\n' ≠ c ∧ '\n' ∉ r := by simpa using h
    simp [splitLines, ih hr, Ne.symm hc]

theorem splitLines_unended (h : '\n' ∉ line) : splitLines line = ([], line) := by
  induction line with
  | nil => rfl
  | cons c r ih =>
    obtain ⟨hc, hr⟩ : '\n' ≠ c ∧ '\n' ∉ r := by simpa using h
    simp [splitLines, ih hr, Ne.symm hc]

/-- Lines that are each ended by a line feed are the lines of their text. -/
theorem splitLines_ended {ls : List (List Char)} (h : ∀ l ∈ ls, '\n' ∉ l) :
    splitLines (ls.flatMap fun l => l ++ ['\n']) = (ls, []) := by
  induction ls with
  | nil => rfl
  | cons l r ih =>
    have hr := ih fun k hk => h k (List.mem_cons_of_mem l hk)
    rw [List.flatMap_cons, List.append_assoc, List.singleton_append, splitLines_line (h l List.mem_cons_self), hr]

/-- The lines of a text. A line feed ends a line and takes a carriage return before it along; an
unended last line counts when it holds anything. -/
def lines (s : List Char) : List (List Char) :=
  let (done, rest) := splitLines s
  done.map dropReturn ++ (if rest.isEmpty then [] else [rest])

end StackDeck.Text
