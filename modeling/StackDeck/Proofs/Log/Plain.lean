import StackDeck.Log.Parser

/-!
Text without control characters, which a terminal shows as it stands: cleaning leaves it alone.
-/

namespace StackDeck

namespace Text

/-- The control characters: the two control ranges and the delete character between them. -/
def isControl (c : Char) : Bool := c.toNat < 0x20 || Ansi.between c.toNat 0x7F 0x9F

/-- A text is plain when no character of it is a control. -/
def isPlain (s : List Char) : Bool := s.all fun c => !isControl c

@[simp] theorem isPlain_nil : isPlain [] = true := rfl

@[simp] theorem isPlain_cons (c : Char) (s : List Char) :
    isPlain (c :: s) = (!isControl c && isPlain s) := rfl

@[simp] theorem isPlain_append (s t : List Char) : isPlain (s ++ t) = (isPlain s && isPlain t) :=
  List.all_append

theorem Ansi.step_ground {c : Char} (h : isControl c = false) : step .ground c = (.ground, [c]) := by
  simp only [isControl, between, Bool.or_eq_false_iff, Bool.and_eq_false_iff, decide_eq_false_iff_not] at h
  have start : (c.toNat == 0x1B) = false := by simp; omega
  have shown : (decide (c.toNat < 0x20) || between c.toNat 0x80 0x9F) = false := by
    simp [between]
    omega
  simp [step, start, printed, shown]

theorem Ansi.strip_plain {s : List Char} (h : isPlain s = true) : strip s = s := by
  induction s with
  | nil => rfl
  | cons c r ih =>
    simp only [isPlain_cons, Bool.and_eq_true, Bool.not_eq_true'] at h
    have rest : stripFrom .ground r = r := ih h.2
    rw [strip, stripFrom, step_ground h.1, rest]
    rfl

end Text

namespace Log

open Text

theorem isLineEnd_eq_false {c : Char} (h : isControl c = false) : isLineEnd c = false := by
  rw [isLineEnd, Bool.or_eq_false_iff, beq_eq_false_iff_ne, beq_eq_false_iff_ne]
  refine ⟨?_, ?_⟩ <;> (rintro rfl; revert h; decide)

theorem clean_plain {s : List Char} (h : isPlain s = true) : clean s = s := by
  have stay : s.reverse.dropWhile isLineEnd = s.reverse := by
    cases hs : s.reverse with
    | nil => rfl
    | cons c r =>
      have last : isControl c = false := by
        have hm : c ∈ s := List.mem_reverse.mp (by simp [hs])
        simpa using List.all_eq_true.mp h c hm
      rw [List.dropWhile_cons_of_neg (by simp [isLineEnd_eq_false last])]
  rw [clean, Ansi.strip_plain h, stay, List.reverse_reverse]

/-- A line without control characters is read as it stands. -/
theorem parseLine_plain (now : Instant) (service : String) {raw : String} (h : isPlain raw.toList = true) :
    parseLine now service raw =
      let (time, level, message) :=
        ((Logfmt.read? raw.toList).orElse fun _ => Bracketed.read? raw.toList).getD
          (none, Keyword.level raw.toList, raw.toList)
      ⟨service, time.getD now, level, String.ofList message, raw⟩ := by
  rw [parseLine, clean_plain h]

end Log

end StackDeck
