import StackDeck.Time.Date

namespace StackDeck

/-- A point in time: seconds since 1970-01-01T00:00:00Z, and nanoseconds into that second. A leap
second is the end of the second before it: its nanoseconds start at a thousand million. -/
structure Instant where
  seconds : Int
  nanos : Nat
  deriving DecidableEq, Repr

namespace Instant

def billion : Nat := 1000000000

def date (t : Instant) : Time.Date := Time.Date.ofDays (t.seconds / 86400)

def secondOfDay (t : Instant) : Nat := (t.seconds % 86400).toNat

/-- Digits of a number, with zeros in front up to a width. -/
def padded (width n : Nat) : List Char :=
  let ds := Nat.toDigits 10 n
  List.replicate (width - ds.length) '0' ++ ds

/-- A year that four digits cannot hold carries a sign. -/
def yearChars (year : Int) : List Char :=
  if 0 ≤ year && year ≤ 9999 then padded 4 year.toNat
  else if year < 0 then '-' :: padded 4 (-year).toNat
  else '+' :: padded 4 year.toNat

/-- The fewest of 0, 3, 6 and 9 digits that lose nothing. -/
def fractionChars (nanos : Nat) : List Char :=
  if nanos == 0 then []
  else if nanos % 1000000 == 0 then '.' :: padded 3 (nanos / 1000000)
  else if nanos % 1000 == 0 then '.' :: padded 6 (nanos / 1000)
  else '.' :: padded 9 nanos

/-- Hour, minute and second as a clock shows them; a leap second shows as 60. -/
def clockChars (t : Instant) : List Char :=
  let s := t.secondOfDay
  let second := s % 60 + if billion ≤ t.nanos then 1 else 0
  padded 2 (s / 3600) ++ ':' :: (padded 2 (s / 60 % 60) ++ ':' :: padded 2 second)

def renderChars (t : Instant) : List Char :=
  let d := t.date
  yearChars d.year ++ '-' :: (padded 2 d.month ++ '-' :: (padded 2 d.day ++ 'T' ::
    (t.clockChars ++ fractionChars (t.nanos % billion) ++ ['Z'])))

/-- The RFC 3339 form in UTC. -/
def render (t : Instant) : String := String.ofList t.renderChars

/-- The time of day alone. -/
def renderClock (t : Instant) : String := String.ofList t.clockChars

def millisecond : Nat := 1000000

/-- A later instant by some milliseconds. -/
def addMillis (t : Instant) (ms : Nat) : Instant :=
  let n := t.nanos + ms % 1000 * millisecond
  ⟨t.seconds + (ms / 1000 : Nat) + (n / billion : Nat), n % billion⟩

end Instant

end StackDeck
