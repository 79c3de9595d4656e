import StackDeck.Text.Blank
import StackDeck.Time.Instant

/-!
Reading timestamps. Each reader takes what it needs off the front of the text and hands on the rest.
`Instant.ofRfc3339?` reads the strict form, `Instant.ofRelaxed?` one with blanks between its parts, and
`Instant.ofNaive?` the forms without an offset, which are taken as UTC.
-/

namespace StackDeck.Time

open StackDeck.Text

abbrev Reader (α : Type) := List Char → Option (α × List Char)

/-- A number of `min` to `max` digits. -/
def number (min max : Nat) : Reader Nat := fun s =>
  let ds := (s.take max).takeWhile Char.isDigit
  if ds.length < min then none
  else some (ds.foldl (fun n c => n * 10 + (c.toNat - 48)) 0, s.drop ds.length)

def literal (c : Char) : Reader Unit
  | d :: r => if d == c then some ((), r) else none
  | [] => none

/-- The digits after a decimal point as nanoseconds; those beyond the ninth count for nothing. -/
def nanoseconds : Reader Nat := fun s =>
  let ds := (s.take 9).takeWhile Char.isDigit
  if ds.isEmpty then none
  else
    let n := ds.foldl (fun n c => n * 10 + (c.toNat - 48)) 0
    some (n * Nat.pow 10 (9 - ds.length), (s.drop ds.length).dropWhile Char.isDigit)

def fraction : Reader Nat
  | '.' :: r => nanoseconds r
  | s => some (0, s)

/-- Minutes east of UTC, as a sign, two digits of hours, a separator and two digits of minutes. -/
def offset (separator : Reader Unit) : Reader Int := fun s => do
  let (negative, s) ← match s with
    | '+' :: r => some (false, r)
    | '-' :: r => some (true, r)
    | '\u2212' :: r => some (true, r)
    | _ => none
  let (hours, s) ← number 2 2 s
  let ((), s) ← separator s
  let (minutes, s) ← number 2 2 s
  if 60 ≤ minutes || 24 ≤ hours then none
  else
    let total : Int := (hours * 60 + minutes : Nat)
    some (if negative then -total else total, s)

def zone (separator : Reader Unit) : Reader Int
  | 'Z' :: r => some (0, r)
  | 'z' :: r => some (0, r)
  | s => offset separator s

/-- Date and time of day as they were read. -/
structure Fields where
  year : Int
  month : Nat
  day : Nat
  hour : Nat
  minute : Nat
  second : Nat
  nanos : Nat

/-- The years that the calendar of timestamps covers. -/
def yearInRange (year : Int) : Bool := -262143 ≤ year && year ≤ 262142

/-- The instant that the fields name at an offset in minutes. Second 60 is a leap second. -/
def Fields.instant? (f : Fields) (offset : Int) : Option Instant :=
  let d : Date := ⟨f.year, f.month, f.day⟩
  if !yearInRange f.year || !d.valid || 24 ≤ f.hour || 60 ≤ f.minute || 61 ≤ f.second then none
  else
    let leap := f.second == 60
    let second := if leap then 59 else f.second
    let local_ : Int := d.toDays * 86400 + (f.hour * 3600 + f.minute * 60 + second : Nat)
    let t : Instant := ⟨local_ - offset * 60, f.nanos + if leap then Instant.billion else 0⟩
    if yearInRange t.date.year then some t else none

def dateSeparator (c : Char) : Bool := c == 'T' || c == 't' || c == ' '

/-- The strict form, every field of its full width. -/
def rfc3339 : Reader Instant := fun s => do
  let (year, s) ← number 4 4 s
  let ((), s) ← literal '-' s
  let (month, s) ← number 2 2 s
  let ((), s) ← literal '-' s
  let (day, s) ← number 2 2 s
  let s ← match s with
    | c :: r => if dateSeparator c then some r else none
    | [] => none
  let (hour, s) ← number 2 2 s
  let ((), s) ← literal ':' s
  let (minute, s) ← number 2 2 s
  let ((), s) ← literal ':' s
  let (second, s) ← number 2 2 s
  let (nanos, s) ← fraction s
  let (off, s) ← zone (literal ':') s
  let t ← Fields.instant? ⟨year, month, day, hour, minute, second, nanos⟩ off
  some (t, s)

/-- A year: up to four digits, or any number of them after a sign. -/
def signedYear : Reader Int := fun s =>
  match trimStart s with
  | '-' :: r => (number 1 r.length r).map fun p => (-(p.1 : Int), p.2)
  | '+' :: r => (number 1 r.length r).map fun p => ((p.1 : Int), p.2)
  | r => (number 1 4 r).map fun p => ((p.1 : Int), p.2)

/-- A field of one or two digits, blanks before it skipped. -/
def shortField : Reader Nat := fun s => number 1 2 (trimStart s)

def relaxedDate (separator : Char) (blanks : Bool) : Reader (Int × Nat × Nat) := fun s => do
  let skip := fun (s : List Char) => if blanks then trimStart s else s
  let (year, s) ← signedYear s
  let ((), s) ← literal separator (skip s)
  let (month, s) ← shortField s
  let ((), s) ← literal separator (skip s)
  let (day, s) ← shortField s
  some ((year, month, day), s)

def relaxedTime (blanks : Bool) : Reader (Nat × Nat × Nat × Nat) := fun s => do
  let skip := fun (s : List Char) => if blanks then trimStart s else s
  let (hour, s) ← shortField s
  let ((), s) ← literal ':' (skip s)
  let (minute, s) ← shortField s
  let ((), s) ← literal ':' (skip s)
  let (second, s) ← shortField s
  let (nanos, s) ← fraction s
  some ((hour, minute, second, nanos), s)

/-- A form without an offset: a date whose parts are joined by `dateMark`, then either `timeMark` or
any blanks, then a time. -/
structure NaiveForm where
  dateMark : Char
  timeMark : Option Char

def NaiveForm.read (form : NaiveForm) : Reader Instant := fun s => do
  let ((year, month, day), s) ← relaxedDate form.dateMark false s
  let s ← match form.timeMark with
    | none => some (trimStart s)
    | some c => (literal c s).map Prod.snd
  let ((hour, minute, second, nanos), s) ← relaxedTime false s
  let t ← Fields.instant? ⟨year, month, day, hour, minute, second, nanos⟩ 0
  some (t, s)

def naiveForms : List NaiveForm := [⟨'-', none⟩, ⟨'-', some 'T'⟩, ⟨'/', none⟩]

def colonOrBlanks : Reader Unit := fun s => some ((), s.dropWhile fun c => c == ':' || isSpace c)

def isUtcName (s : List Char) : Bool := s.map Char.toUpper == ['U', 'T', 'C']

def relaxedZone : Reader Int := fun s =>
  if isUtcName (s.take 3) then some (0, s.drop 3) else zone colonOrBlanks s

/-- The form that data carries: like the strict one, but fields may be short and blanks may stand
between the parts. -/
def relaxed : Reader Instant := fun s => do
  let ((year, month, day), s) ← relaxedDate '-' true s
  let s ← match s with
    | c :: r => if dateSeparator c then some r else none
    | [] => none
  let ((hour, minute, second, nanos), s) ← relaxedTime true s
  let (off, s) ← relaxedZone (trimStart s)
  let t ← Fields.instant? ⟨year, month, day, hour, minute, second, nanos⟩ off
  some (t, s)

/-- Accepts a reading that leaves nothing behind. -/
def whole {α : Type} (r : Reader α) (s : List Char) : Option α :=
  match r s with
  | some (a, []) => some a
  | _ => none

end StackDeck.Time

namespace StackDeck.Instant

open StackDeck.Time StackDeck.Text

def ofRfc3339? (s : String) : Option Instant := whole rfc3339 s.toList

def ofNaive? (s : String) : Option Instant :=
  naiveForms.findSome? fun form => whole form.read s.toList

def ofRelaxed? (s : String) : Option Instant := do
  let (t, rest) ← relaxed s.toList
  if (trimStart rest).isEmpty then some t else none

/-- Any timestamp that a log line may carry. -/
def ofLogText? (s : String) : Option Instant := (ofRfc3339? s).orElse fun _ => ofNaive? s

end StackDeck.Instant
