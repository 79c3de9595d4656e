/-!
Days of the Gregorian calendar, carried on in both directions without end. Days are counted from
1970-01-01.
-/

namespace StackDeck.Time

structure Date where
  year : Int
  month : Nat
  day : Nat
  deriving DecidableEq, Repr

def isLeap (year : Int) : Bool := year % 4 == 0 && (year % 100 != 0 || year % 400 == 0)

def monthLengths (leap : Bool) : List Nat :=
  [31, if leap then 29 else 28, 31, 30, 31, 30, 31, 31, 30, 31, 30, 31]

def monthLength (year : Int) (month : Nat) : Nat := (monthLengths (isLeap year)).getD (month - 1) 0

/-- Days from 0001-01-01 to the first day of a year. -/
def daysBeforeYear (year : Int) : Int :=
  let y := year - 1
  365 * y + y / 4 - y / 100 + y / 400

/-- Days from 0001-01-01 to 1970-01-01. -/
def epochDays : Int := 719162

namespace Date

def valid (d : Date) : Bool :=
  1 ≤ d.month && d.month ≤ 12 && 1 ≤ d.day && d.day ≤ monthLength d.year d.month

def toDays (d : Date) : Int :=
  daysBeforeYear d.year + (((monthLengths (isLeap d.year)).take (d.month - 1)).foldr (· + ·) 0 : Nat) + d.day - 1 -
    epochDays

/-- Month and day of a day of the year. -/
def monthOfDay (month : Nat) : List Nat → Nat → Nat × Nat
  | [], n => (month, n + 1)
  | l :: r, n => if n < l then (month, n + 1) else monthOfDay (month + 1) r (n - l)

/-- Whole cycles of 400, 100, 4 years and 1 year are taken off in turn; the last century of a cycle
and the last year of four may be a day longer than the others. -/
def ofDays (days : Int) : Date :=
  let n := days + epochDays
  let cycle := n % 146097
  let century := min (cycle / 36524) 3
  let rest := cycle - century * 36524
  let ofFour := rest % 1461
  let single := min (ofFour / 365) 3
  let year := 1 + 400 * (n / 146097) + 100 * century + 4 * (rest / 1461) + single
  let (month, day) := monthOfDay 1 (monthLengths (isLeap year)) (ofFour - single * 365).toNat
  ⟨year, month, day⟩

end Date

end StackDeck.Time
