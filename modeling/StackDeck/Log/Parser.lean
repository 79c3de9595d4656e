import StackDeck.Log.Bracketed
import StackDeck.Log.Keyword
import StackDeck.Log.Logfmt
import StackDeck.Text.Ansi

namespace StackDeck.Log

def isLineEnd (c : Char) : Bool := c == '\n' || c == '\r'

theorem isLineEnd_of_space_le {c : Char} (h : 0x20 ≤ c.toNat) : isLineEnd c = false := by
  rw [isLineEnd, Bool.or_eq_false_iff, beq_eq_false_iff_ne, beq_eq_false_iff_ne]
  constructor <;> (rintro rfl; exact absurd h (by decide))

/-- A line as it reads on a terminal, without its ending. -/
def clean (raw : List Char) : List Char :=
  ((Text.Ansi.strip raw).reverse.dropWhile isLineEnd).reverse

/-- Reads a line of output. Pairs are tried first, then brackets; any other line is a message of the
level that its words tell. A line without a readable time is stamped `now`. -/
def parseLine (now : Instant) (service raw : String) : Line :=
  let text := clean raw.toList
  let (time, level, message) :=
    ((Logfmt.read? text).orElse fun _ => Bracketed.read? text).getD
      (none, Keyword.level text, text)
  ⟨service, time.getD now, level, String.ofList message, raw⟩

end StackDeck.Log
