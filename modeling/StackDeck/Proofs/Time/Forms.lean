import StackDeck.Proofs.Text.Space
import StackDeck.Proofs.Time.Shown

/-!
The forms in which a log may state a time, and the instants that texts in them name. Each form is told by its parts
alone; what a reader takes off the front of a text is one of these parts, so that a text is read as an instant exactly
when it has a form and shows a date of the calendar and a time of the day, and then as the instant whose clock, at the
offset that the text states, shows just that.
-/

namespace StackDeck.Time

open Instant

variable {s rest ds front : List Char} {n least most : Nat} {c : Char}

/-! ### Numbers -/

/-- Decimal digits of this value, at least and at most so many. -/
structure Numeral (least most : Nat) (ds : List Char) (n : Nat) : Prop where
  digits : ∀ c ∈ ds, c.isDigit = true
  least : least ≤ ds.length
  most : ds.length ≤ most
  value : Json.digitsValue ds = n

/-- No digit comes next. -/
def Ends (s : List Char) : Prop := ∀ c ∈ s.head?, c.isDigit = false

theorem ends_nil : Ends [] := nofun

theorem ends_cons (h : c.isDigit = false) (s : List Char) : Ends (c :: s) := by
  rintro d hd
  obtain rfl := Option.some.inj hd
  exact h

/-- The digits in front of a text, looked for in so many characters. -/
def leading (most : Nat) (s : List Char) : List Char := (s.take most).takeWhile Char.isDigit

theorem leading_append (hd : ∀ d ∈ ds, d.isDigit = true) (hlen : ds.length ≤ most) (s : List Char) :
    leading most (ds ++ s) = ds ++ leading (most - ds.length) s := by
  rw [leading, List.take_append, List.take_of_length_le hlen, List.takeWhile_append_of_pos hd, leading]

theorem leading_eq_nil_iff : leading most s = [] ↔ most = 0 ∨ Ends s := by
  cases most with
  | zero => simp [leading]
  | succ k =>
    cases s with
    | nil => simp [leading, ends_nil]
    | cons c r => by_cases hc : c.isDigit = true <;> simp [leading, Ends, hc]

/-- A reader of numbers takes as many digits as there are, up to the most it may take. -/
theorem number_eq_some_iff : number least most s = some (n, rest) ↔
    ∃ ds, s = ds ++ rest ∧ Numeral least most ds n ∧ (ds.length = most ∨ Ends rest) := by
  have hread : number least most s =
      if (leading most s).length < least then none
      else some (Json.digitsValue (leading most s), s.drop (leading most s).length) := rfl
  rw [hread]
  constructor
  · intro h
    split at h
    next => exact absurd h nofun
    next hleast =>
      obtain ⟨hvalue, hrest⟩ := Prod.mk.inj (Option.some.inj h)
      obtain ⟨tail, hs⟩ : leading most s <+: s := (List.takeWhile_prefix _).trans (List.take_prefix most s)
      have hdigits : ∀ d ∈ leading most s, d.isDigit = true := fun _ => List.mem_takeWhile_imp
      have hmost : (leading most s).length ≤ most :=
        (List.takeWhile_prefix _).length_le.trans (List.length_take_le most s)
      have htail : tail = rest := by
        calc tail = (leading most s ++ tail).drop (leading most s).length := List.drop_left.symm
          _ = rest := by rw [hs, hrest]
      subst htail
      have hstop : leading (most - (leading most s).length) tail = [] := by
        have hagain := leading_append hdigits hmost tail
        rw [hs] at hagain
        exact List.self_eq_append_right.mp hagain
      refine ⟨leading most s, hs.symm, ⟨hdigits, Nat.le_of_not_lt hleast, hmost, hvalue⟩, ?_⟩
      exact (leading_eq_nil_iff.mp hstop).imp_left fun h => by omega
  · rintro ⟨ds, rfl, ⟨hdigits, hleast, hmost, rfl⟩, hstop⟩
    have hnone : leading (most - ds.length) rest = [] :=
      leading_eq_nil_iff.mpr (hstop.imp_left fun h => by omega)
    rw [leading_append hdigits hmost, hnone, List.append_nil, if_neg (Nat.not_lt.mpr hleast), List.drop_left]

/-! ### The parts of a text -/

/-- A number of one or two digits behind blanks, with at least so many digits. -/
inductive IsField (least : Nat) : List Char → Nat → Prop
  | mk {blanks ds : List Char} {n : Nat} (hblanks : blanks.all Text.isSpace = true) (hn : Numeral least 2 ds n) :
      IsField least (blanks ++ ds) n

/-- A year behind blanks: up to four digits, or any number of them behind a sign. -/
inductive IsYear : List Char → Int → Prop
  | bare {blanks ds : List Char} {n : Nat} (hblanks : blanks.all Text.isSpace = true) (hn : Numeral 1 4 ds n) :
      IsYear (blanks ++ ds) n
  | plus {blanks ds : List Char} {n : Nat} (hblanks : blanks.all Text.isSpace = true) (hn : Numeral 1 ds.length ds n) :
      IsYear (blanks ++ '+' :: ds) n
  | minus {blanks ds : List Char} {n : Nat} (hblanks : blanks.all Text.isSpace = true) (hn : Numeral 1 ds.length ds n) :
      IsYear (blanks ++ '-' :: ds) (-n)

/-- A fraction of a second in whole nanoseconds: a point and digits, as many as there are, or nothing at all. -/
inductive IsFraction : List Char → Nat → Prop
  | whole : IsFraction [] 0
  | point {ds : List Char} {n : Nat} (hn : Numeral 1 ds.length ds n) :
      IsFraction ('.' :: ds) (n * billion / 10 ^ ds.length)

/-- An offset from UTC in minutes: the letter that stands for none, or hours and minutes ahead or behind. -/
inductive IsZone : List Char → Int → Prop
  | utc {c : Char} (hc : c = 'Z' ∨ c = 'z') : IsZone [c] 0
  | ahead {hours minutes : List Char} {h m : Nat} (hh : Numeral 2 2 hours h) (hm : Numeral 2 2 minutes m)
      (hday : h < 24) (hhour : m < 60) : IsZone ('+' :: (hours ++ ':' :: minutes)) (h * 60 + m : Nat)
  | behind {sign : Char} {hours minutes : List Char} {h m : Nat} (hsign : sign = '-' ∨ sign = '\u2212')
      (hh : Numeral 2 2 hours h) (hm : Numeral 2 2 minutes m) (hday : h < 24) (hhour : m < 60) :
      IsZone (sign :: (hours ++ ':' :: minutes)) (-(h * 60 + m : Nat))

/-- The strict form: every number of its full width, and an offset behind. -/
inductive IsStrict : List Char → Fields → Int → Prop
  | mk {year month day hour minute second frac place : List Char} {separator : Char} {y mo d h mi sec nanos : Nat}
      {offset : Int} (hyear : Numeral 4 4 year y) (hmonth : Numeral 2 2 month mo) (hday : Numeral 2 2 day d)
      (hseparator : separator = 'T' ∨ separator = 't' ∨ separator = ' ')
      (hhour : Numeral 2 2 hour h) (hminute : Numeral 2 2 minute mi) (hsecond : Numeral 2 2 second sec)
      (hfrac : IsFraction frac nanos) (hplace : IsZone place offset) :
      IsStrict (year ++ '-' :: (month ++ '-' :: (day ++ separator :: (hour ++ ':' :: (minute ++ ':' ::
        (second ++ (frac ++ place))))))) ⟨y, mo, d, h, mi, sec, nanos⟩ offset

/-- What may stand between date and time of day: the letter of the form, or blanks where it has none. -/
def NaiveForm.Joins (form : NaiveForm) (gap : List Char) : Prop :=
  match form.timeMark with
  | some c => gap = [c]
  | none => gap.all Text.isSpace = true

/-- A form without an offset: numbers may be short, and blanks may stand in front of them. Where nothing stands between
date and time of day, the day has both of its digits. -/
inductive NaiveForm.Shows (form : NaiveForm) : List Char → Fields → Prop
  | mk {year month day gap hour minute second frac : List Char} {y : Int} {mo d h mi sec nanos : Nat}
      (hyear : IsYear year y) (hmonth : IsField 1 month mo) (hday : IsField 1 day d) (hgap : form.Joins gap)
      (hfull : gap = [] → IsField 2 day d) (hhour : IsField 1 hour h) (hminute : IsField 1 minute mi)
      (hsecond : IsField 1 second sec) (hfrac : IsFraction frac nanos) :
      form.Shows (year ++ form.dateMark :: (month ++ form.dateMark :: (day ++ (gap ++ (hour ++ ':' ::
        (minute ++ ':' :: (second ++ frac))))))) ⟨y, mo, d, h, mi, sec, nanos⟩

/-- A text in one of the forms shows these fields at this offset; where the form has no offset, in UTC. -/
inductive Shows : List Char → Fields → Int → Prop
  | strict {s : List Char} {f : Fields} {offset : Int} (h : IsStrict s f offset) : Shows s f offset
  | naive {s : List Char} {f : Fields} {form : NaiveForm} (hform : form ∈ naiveForms) (h : form.Shows s f) :
      Shows s f 0

/-! ### What the readers take -/

theorem literal_eq_some_iff : literal c s = some ((), rest) ↔ s = c :: rest := by
  cases s with
  | nil => exact iff_of_false nofun nofun
  | cons d r => simp [literal]

/-- Blanks in front of a number are passed. -/
theorem trimStart_numeral {blanks : List Char} (hblanks : blanks.all Text.isSpace = true) (hn : Numeral least most ds n)
    (hleast : 0 < least) : Text.trimStart (blanks ++ ds ++ rest) = ds ++ rest := by
  have hne : ds ≠ [] := List.length_pos_iff.mp (Nat.lt_of_lt_of_le hleast hn.least)
  rw [List.append_assoc, Text.trimStart_spaces hblanks, trimStart_digits hne hn.digits]

theorem shortField_of_isField (h : IsField least front n) (hleast : 0 < least) (hstop : least = 2 ∨ Ends rest) :
    shortField (front ++ rest) = some (n, rest) := by
  obtain ⟨hblanks, hn⟩ := h
  have hfull (h2 : least = 2) := Nat.le_antisymm hn.most (h2 ▸ hn.least)
  rw [shortField, trimStart_numeral hblanks hn hleast, number_eq_some_iff]
  exact ⟨_, rfl, ⟨hn.digits, hleast.trans_le hn.least, hn.most, hn.value⟩, hstop.imp_left hfull⟩

theorem isField_of_shortField (h : shortField s = some (n, rest)) :
    ∃ front, s = front ++ rest ∧ IsField 1 front n ∧ (IsField 2 front n ∨ Ends rest) := by
  obtain ⟨ds, hs, hn, hstop⟩ := number_eq_some_iff.mp h
  obtain ⟨blanks, hblanks, hsplit⟩ := Text.trimStart_exists s
  refine ⟨blanks ++ ds, by rw [List.append_assoc, ← hs, ← hsplit], .mk hblanks hn, hstop.imp_left fun hfull => ?_⟩
  exact .mk hblanks ⟨hn.digits, hfull.ge, hn.most, hn.value⟩

/-- A number that reaches to where no digit comes next is read whole, whatever the most there may be. -/
theorem number_of_ends (hn : Numeral least most ds n) (hstop : Ends rest) {wide : Nat} (hwide : most ≤ wide) :
    number least wide (ds ++ rest) = some (n, rest) :=
  number_eq_some_iff.mpr ⟨ds, rfl, ⟨hn.digits, hn.least, hn.most.trans hwide, hn.value⟩, .inr hstop⟩

theorem signedYear_digit {d : Char} {r : List Char} (hd : d.isDigit = true) (hs : Text.trimStart s = d :: r) :
    signedYear s = (number 1 4 (d :: r)).map fun p => ((p.1 : Int), p.2) := by
  rw [signedYear, hs]
  split
  next heq =>
    rw [(List.cons.inj heq).1] at hd
    exact absurd hd (by decide)
  next heq =>
    rw [(List.cons.inj heq).1] at hd
    exact absurd hd (by decide)
  next => rfl

/-- Behind a sign, a reader takes all the digits there are. -/
theorem number_behind_sign {blanks : List Char} (sign : Char) (hblanks : blanks.all Text.isSpace = true)
    (hsign : Text.isSpace sign = false) (hn : Numeral 1 ds.length ds n) (hstop : Ends rest) :
    Text.trimStart (blanks ++ sign :: ds ++ rest) = sign :: (ds ++ rest) ∧
      number 1 (ds ++ rest).length (ds ++ rest) = some (n, rest) := by
  have hlen : ds.length ≤ (ds ++ rest).length := by simp
  refine ⟨?_, number_of_ends hn hstop hlen⟩
  rw [List.append_assoc, Text.trimStart_spaces hblanks]
  exact List.dropWhile_cons_of_neg (by simp [hsign])

theorem signedYear_of_isYear {year : Int} (h : IsYear front year) (hstop : Ends rest) :
    signedYear (front ++ rest) = some (year, rest) := by
  cases h with
  | @bare blanks ds n hblanks hn =>
    have hread := number_of_ends hn hstop le_rfl
    have htrim : Text.trimStart (blanks ++ ds ++ rest) = ds ++ rest := trimStart_numeral hblanks hn Nat.one_pos
    obtain ⟨d, r, rfl⟩ : ∃ d r, ds = d :: r := List.exists_cons_of_length_pos hn.least
    rw [signedYear_digit (hn.digits d List.mem_cons_self) htrim]
    show (number 1 4 (d :: r ++ rest)).map _ = _
    rw [hread, Option.map_some]
  | plus hblanks hn =>
    obtain ⟨htrim, hread⟩ := number_behind_sign '+' hblanks rfl hn hstop
    rw [signedYear, htrim]
    show (number 1 _ _).map _ = _
    rw [hread, Option.map_some]
  | minus hblanks hn =>
    obtain ⟨htrim, hread⟩ := number_behind_sign '-' hblanks rfl hn hstop
    rw [signedYear, htrim]
    show (number 1 _ _).map _ = _
    rw [hread, Option.map_some]

theorem isYear_of_signedYear {year : Int} (h : signedYear s = some (year, rest)) :
    ∃ front, s = front ++ rest ∧ IsYear front year := by
  obtain ⟨blanks, hblanks, hsplit⟩ := Text.trimStart_exists s
  have hsigned {sign : Char} {r : List Char} {m : Nat} (hs : Text.trimStart s = sign :: r)
      (hread : number 1 r.length r = some (m, rest)) :
      ∃ ds, s = (blanks ++ sign :: ds) ++ rest ∧ Numeral 1 ds.length ds m := by
    obtain ⟨ds, hr, hn, -⟩ := number_eq_some_iff.mp hread
    refine ⟨ds, ?_, hn.digits, hn.least, le_rfl, hn.value⟩
    rw [hsplit, hs, hr, List.append_assoc, List.cons_append]
  rw [signedYear] at h
  split at h
  next r hs =>
    obtain ⟨⟨m, _⟩, hread, hm⟩ := Option.map_eq_some_iff.mp h
    obtain ⟨rfl, rfl⟩ := Prod.mk.inj hm
    obtain ⟨ds, hfront, hn⟩ := hsigned hs hread
    exact ⟨_, hfront, .minus hblanks hn⟩
  next r hs =>
    obtain ⟨⟨m, _⟩, hread, hm⟩ := Option.map_eq_some_iff.mp h
    obtain ⟨rfl, rfl⟩ := Prod.mk.inj hm
    obtain ⟨ds, hfront, hn⟩ := hsigned hs hread
    exact ⟨_, hfront, .plus hblanks hn⟩
  next =>
    obtain ⟨⟨m, _⟩, hread, hm⟩ := Option.map_eq_some_iff.mp h
    obtain ⟨rfl, rfl⟩ := Prod.mk.inj hm
    obtain ⟨ds, hs, hn, -⟩ := number_eq_some_iff.mp hread
    exact ⟨blanks ++ ds, by rw [List.append_assoc, ← hs, ← hsplit], .bare hblanks hn⟩

theorem takeWhile_digits (hd : ∀ d ∈ ds, d.isDigit = true) (hstop : Ends rest) :
    (ds ++ rest).takeWhile Char.isDigit = ds ∧ (ds ++ rest).dropWhile Char.isDigit = rest := by
  rw [List.takeWhile_append_of_pos hd, List.dropWhile_append_of_pos hd]
  cases rest with
  | nil => exact ⟨List.append_nil ds, rfl⟩
  | cons c r =>
    have hc : ¬c.isDigit = true := by simp [hstop c rfl]
    exact ⟨by rw [List.takeWhile_cons_of_neg hc, List.append_nil], List.dropWhile_cons_of_neg hc⟩

theorem ends_dropWhile (s : List Char) : Ends (s.dropWhile Char.isDigit) := by
  intro c hc
  have hhead := List.head?_dropWhile_not Char.isDigit s
  rw [hc] at hhead
  simpa using hhead

/-- Nine digits are enough for whole nanoseconds. -/
theorem digitsValue_take_nine (ds : List Char) (hd : ∀ d ∈ ds, d.isDigit = true) :
    Json.digitsValue (ds.take 9) * 10 ^ (9 - (ds.take 9).length) = Json.digitsValue ds * billion / 10 ^ ds.length := by
  have hb : billion = 10 ^ 9 := rfl
  by_cases hshort : ds.length ≤ 9
  · have hpower : billion = 10 ^ (9 - ds.length) * 10 ^ ds.length := by
      rw [hb, ← Nat.pow_add, Nat.sub_add_cancel hshort]
    rw [List.take_of_length_le hshort, hpower, ← Nat.mul_assoc, Nat.mul_div_cancel _ (Nat.pow_pos (by decide))]
  · have hlen : (ds.take 9).length = 9 := by
      rw [List.length_take]
      omega
    have hrest : (ds.drop 9).length = ds.length - 9 := List.length_drop
    have hsplit := Json.digitsValue_append (ds.take 9) (ds.drop 9)
    rw [List.take_append_drop] at hsplit
    have hlow : Json.digitsValue (ds.drop 9) < 10 ^ (ds.drop 9).length :=
      Json.digitsValue_lt fun d hmem => hd d (List.mem_of_mem_drop hmem)
    have hpower : 10 ^ ds.length = 10 ^ (ds.drop 9).length * billion := by
      rw [hb, ← Nat.pow_add, hrest]
      congr 1
      omega
    rw [hpower, Nat.mul_div_mul_right _ _ (by decide), hsplit, Nat.mul_comm, hlen, Nat.sub_self, Nat.pow_zero,
      Nat.one_mul, Nat.mul_comm, Nat.mul_add_div (Nat.pow_pos (by decide)), Nat.div_eq_of_lt hlow, Nat.add_zero]

/-- Of a fraction of a second, digits beyond the ninth are passed without a look. -/
theorem nanoseconds_of_numeral (hn : Numeral 1 ds.length ds n) (hstop : Ends rest) :
    nanoseconds (ds ++ rest) = some (n * billion / 10 ^ ds.length, rest) := by
  have hfront : leading 9 (ds ++ rest) = ds.take 9 := by
    rw [leading, ← List.take_takeWhile, (takeWhile_digits hn.digits hstop).1]
  have hne : (ds.take 9).isEmpty = false := by
    have := hn.least
    rw [List.isEmpty_eq_false_iff, ← List.length_pos_iff, List.length_take]
    omega
  have hrest : ((ds ++ rest).drop (ds.take 9).length).dropWhile Char.isDigit = rest := by
    have hmore : ∀ d ∈ ds.drop 9, d.isDigit = true := fun d hmem => hn.digits d (List.mem_of_mem_drop hmem)
    have hsplit : ds ++ rest = ds.take 9 ++ (ds.drop 9 ++ rest) := by rw [← List.append_assoc, List.take_append_drop]
    rw [hsplit, List.drop_left, (takeWhile_digits hmore hstop).2]
  have hread : nanoseconds (ds ++ rest) =
      if (leading 9 (ds ++ rest)).isEmpty then none
      else some (Json.digitsValue (leading 9 (ds ++ rest)) * 10 ^ (9 - (leading 9 (ds ++ rest)).length),
        ((ds ++ rest).drop (leading 9 (ds ++ rest)).length).dropWhile Char.isDigit) := rfl
  rw [hread, hfront, hne, if_neg Bool.false_ne_true, digitsValue_take_nine ds hn.digits, hn.value, hrest]

theorem numeral_of_nanoseconds (h : nanoseconds s = some (n, rest)) :
    ∃ ds m, s = ds ++ rest ∧ Numeral 1 ds.length ds m ∧ n = m * billion / 10 ^ ds.length := by
  have hsplit : s = s.takeWhile Char.isDigit ++ s.dropWhile Char.isDigit := List.takeWhile_append_dropWhile.symm
  have hdigits : ∀ d ∈ s.takeWhile Char.isDigit, d.isDigit = true := fun _ => List.mem_takeWhile_imp
  have hstop := ends_dropWhile s
  generalize s.takeWhile Char.isDigit = ds at hsplit hdigits
  generalize s.dropWhile Char.isDigit = tail at hsplit hstop
  subst hsplit
  by_cases hne : ds = []
  · have hnone : leading 9 tail = [] := leading_eq_nil_iff.mpr (.inr hstop)
    have hnothing : nanoseconds tail = none := by
      rw [leading] at hnone
      rw [nanoseconds, hnone]
      rfl
    rw [hne, List.nil_append, hnothing] at h
    cases h
  · have hn : Numeral 1 ds.length ds (Json.digitsValue ds) := ⟨hdigits, List.length_pos_iff.mpr hne, le_rfl, rfl⟩
    rw [nanoseconds_of_numeral hn hstop] at h
    obtain ⟨hvalue, rfl⟩ := Prod.mk.inj (Option.some.inj h)
    exact ⟨ds, _, rfl, hn, hvalue.symm⟩

theorem fraction_of_isFraction (h : IsFraction front n) (hstop : Ends rest) (hpoint : rest.head? ≠ some '.') :
    fraction (front ++ rest) = some (n, rest) := by
  cases h with
  | whole =>
    cases rest with
    | nil => rfl
    | cons c r =>
      have hc : c ≠ '.' := fun h => hpoint (congrArg some h)
      rw [List.nil_append, fraction]
      exact fun r h => hc (List.cons.inj h).1
  | point hn => exact nanoseconds_of_numeral hn hstop

theorem isFraction_of_fraction (h : fraction s = some (n, rest)) : ∃ front, s = front ++ rest ∧ IsFraction front n := by
  rw [fraction.eq_def] at h
  split at h
  next r =>
    obtain ⟨ds, m, rfl, hm, rfl⟩ := numeral_of_nanoseconds h
    exact ⟨'.' :: ds, rfl, .point hm⟩
  next =>
    obtain ⟨rfl, rfl⟩ := Prod.mk.inj (Option.some.inj h)
    exact ⟨[], rfl, .whole⟩

theorem IsFraction.lt (h : IsFraction front n) : n < billion := by
  cases h with
  | whole => decide
  | point hn =>
    have hlt := Json.digitsValue_lt hn.digits
    rw [hn.value] at hlt
    exact Nat.div_lt_of_lt_mul (Nat.mul_lt_mul_of_pos_right hlt (by decide))

/-- A number that has its full width is read whatever comes next. -/
theorem number_of_full (hn : Numeral most most ds n) : number most most (ds ++ rest) = some (n, rest) :=
  number_eq_some_iff.mpr ⟨ds, rfl, hn, .inl (Nat.le_antisymm hn.most hn.least)⟩

/-- Hours and minutes behind the sign of an offset. -/
def behindSign (negative : Bool) : Reader Int := fun s => do
  let (hours, s) ← number 2 2 s
  let ((), s) ← literal ':' s
  let (minutes, s) ← number 2 2 s
  if 60 ≤ minutes || 24 ≤ hours then none
  else
    let total : Int := (hours * 60 + minutes : Nat)
    some (if negative then -total else total, s)

theorem behindSign_eq_some_iff (negative : Bool) {off : Int} : behindSign negative s = some (off, rest) ↔
    ∃ hours minutes h m, s = hours ++ ':' :: (minutes ++ rest) ∧ Numeral 2 2 hours h ∧ Numeral 2 2 minutes m ∧
      h < 24 ∧ m < 60 ∧ off = if negative then -((h * 60 + m : Nat) : Int) else (h * 60 + m : Nat) := by
  constructor
  · intro h
    simp only [behindSign, Option.bind_eq_bind, Option.bind_eq_some_iff] at h
    obtain ⟨⟨h, _⟩, hhours, ⟨⟨⟩, _⟩, hcolon, ⟨m, _⟩, hminutes, hlast⟩ := h
    obtain ⟨minutes, rfl, hm, -⟩ := number_eq_some_iff.mp hminutes
    obtain rfl := literal_eq_some_iff.mp hcolon
    obtain ⟨hours, rfl, hh, -⟩ := number_eq_some_iff.mp hhours
    split at hlast
    next => exact absurd hlast nofun
    next hreal =>
      obtain ⟨hhour, hday⟩ : m < 60 ∧ h < 24 := by simpa using hreal
      obtain ⟨rfl, rfl⟩ := Prod.mk.inj (Option.some.inj hlast)
      exact ⟨hours, minutes, h, m, rfl, hh, hm, hday, hhour, rfl⟩
  · rintro ⟨hours, minutes, h, m, rfl, hh, hm, hday, hhour, rfl⟩
    have hreal : ¬((decide (60 ≤ m) || decide (24 ≤ h)) = true) := by simpa using ⟨hhour, hday⟩
    have hcolon : literal ':' (':' :: (minutes ++ rest)) = some ((), minutes ++ rest) := literal_eq_some_iff.mpr rfl
    simp only [behindSign, number_of_full hh, number_of_full hm, hcolon, Option.bind_eq_bind, Option.bind_some, if_neg hreal]

theorem zone_of_isZone {off : Int} (h : IsZone front off) : zone (literal ':') (front ++ rest) = some (off, rest) := by
  cases h with
  | utc hc => rcases hc with rfl | rfl <;> rfl
  | @ahead hours minutes h m hh hm hday hhour =>
    rw [List.cons_append, List.append_assoc, List.cons_append]
    exact (behindSign_eq_some_iff false).mpr ⟨hours, minutes, h, m, rfl, hh, hm, hday, hhour, rfl⟩
  | @behind sign hours minutes h m hsign hh hm hday hhour =>
    rw [List.cons_append, List.append_assoc, List.cons_append]
    have hread : behindSign true (hours ++ ':' :: (minutes ++ rest)) = some (-((h * 60 + m : Nat) : Int), rest) :=
      (behindSign_eq_some_iff true).mpr ⟨hours, minutes, h, m, rfl, hh, hm, hday, hhour, rfl⟩
    rcases hsign with rfl | rfl <;> exact hread

theorem isZone_of_zone {off : Int} (h : zone (literal ':') s = some (off, rest)) :
    ∃ front, s = front ++ rest ∧ IsZone front off := by
  rw [zone.eq_def] at h
  split at h
  next =>
    obtain ⟨rfl, rfl⟩ := Prod.mk.inj (Option.some.inj h)
    exact ⟨['Z'], rfl, .utc (.inl rfl)⟩
  next =>
    obtain ⟨rfl, rfl⟩ := Prod.mk.inj (Option.some.inj h)
    exact ⟨['z'], rfl, .utc (.inr rfl)⟩
  next =>
    rw [offset.eq_def] at h
    split at h
    next r =>
      obtain ⟨hours, minutes, h, m, rfl, hh, hm, hday, hhour, rfl⟩ := (behindSign_eq_some_iff false).mp h
      exact ⟨'+' :: (hours ++ ':' :: minutes), by simp, .ahead hh hm hday hhour⟩
    next r =>
      obtain ⟨hours, minutes, h, m, rfl, hh, hm, hday, hhour, rfl⟩ := (behindSign_eq_some_iff true).mp h
      exact ⟨'-' :: (hours ++ ':' :: minutes), by simp, .behind (.inl rfl) hh hm hday hhour⟩
    next r =>
      obtain ⟨hours, minutes, h, m, rfl, hh, hm, hday, hhour, rfl⟩ := (behindSign_eq_some_iff true).mp h
      exact ⟨'\u2212' :: (hours ++ ':' :: minutes), by simp, .behind (.inr rfl) hh hm hday hhour⟩
    next => exact absurd h nofun

/-! ### Whole texts -/

theorem whole_eq_some_iff {α : Type} {r : Reader α} {a : α} : whole r s = some a ↔ r s = some (a, []) := by
  rw [whole]
  split
  next b h => rw [h, Option.some_inj, Option.some_inj, Prod.mk.injEq, and_iff_left rfl]
  next h => exact iff_of_false nofun fun hr => h a hr

theorem IsZone.head {off : Int} (h : IsZone front off) : Ends front ∧ front.head? ≠ some '.' := by
  cases h with
  | utc hc => rcases hc with rfl | rfl <;> exact ⟨ends_cons rfl _, by decide⟩
  | ahead => exact ⟨ends_cons rfl _, nofun⟩
  | behind hsign => rcases hsign with rfl | rfl <;> exact ⟨ends_cons rfl _, nofun⟩

variable {f : Fields} {off : Int} {t : Instant}

theorem dateSeparator_eq_true_iff : dateSeparator c = true ↔ c = 'T' ∨ c = 't' ∨ c = ' ' := by
  simp [dateSeparator, or_assoc]

theorem rfc3339_of_isStrict (h : IsStrict s f off) (ht : f.instant? off = some t) : rfc3339 s = some (t, []) := by
  obtain ⟨hyear, hmonth, hday, hseparator, hhour, hminute, hsecond, hfrac, hplace⟩ := h
  have hdash {s : List Char} : literal '-' ('-' :: s) = some ((), s) := rfl
  have hcolon {s : List Char} : literal ':' (':' :: s) = some ((), s) := rfl
  have hmark := dateSeparator_eq_true_iff.mpr hseparator
  have hfraction := fraction_of_isFraction hfrac hplace.head.1 hplace.head.2
  have hzone : zone (literal ':') (_ ++ []) = some (off, []) := zone_of_isZone hplace
  rw [List.append_nil] at hzone
  simp -zeta only [rfc3339, ↓Option.bind_eq_bind, ↓Option.bind_eq_some_iff]
  refine ⟨_, number_of_full hyear, _, hdash, _, number_of_full hmonth, _, hdash, _, number_of_full hday, ?_⟩
  simp only [hmark, if_true, Option.bind_some, ↓Option.bind_eq_some_iff]
  exact ⟨_, number_of_full hhour, _, hcolon, _, number_of_full hminute, _, hcolon, _, number_of_full hsecond, _,
    hfraction, _, hzone, _, ht, rfl⟩

theorem isStrict_of_rfc3339 (h : rfc3339 s = some (t, [])) : ∃ f off, IsStrict s f off ∧ f.instant? off = some t := by
  simp -zeta only [rfc3339, ↓Option.bind_eq_bind, ↓Option.bind_eq_some_iff] at h
  obtain ⟨⟨y, s1⟩, ryear, ⟨⟨⟩, s2⟩, rdash, ⟨mo, s3⟩, rmonth, ⟨⟨⟩, s4⟩, rdash', ⟨d, s5⟩, rday, h⟩ := h
  obtain ⟨day, rfl, hday, -⟩ := number_eq_some_iff.mp rday
  obtain rfl := literal_eq_some_iff.mp rdash'
  obtain ⟨month, rfl, hmonth, -⟩ := number_eq_some_iff.mp rmonth
  obtain rfl := literal_eq_some_iff.mp rdash
  obtain ⟨year, rfl, hyear, -⟩ := number_eq_some_iff.mp ryear
  cases s5 with
  | nil => exact absurd h nofun
  | cons separator s6 =>
    by_cases hmark : dateSeparator separator = true
    · simp only [hmark, if_true, Option.bind_some, ↓Option.bind_eq_some_iff] at h
      obtain ⟨⟨h, s7⟩, rhour, ⟨⟨⟩, s8⟩, rcolon, ⟨mi, s9⟩, rminute, ⟨⟨⟩, s10⟩, rcolon', ⟨sec, s11⟩, rsecond, ⟨nanos, s12⟩,
        rfrac, ⟨off, _⟩, rplace, u, ht, hu⟩ := h
      obtain ⟨rfl, rfl⟩ := Prod.mk.inj (Option.some.inj hu)
      obtain ⟨place, rfl, hplace⟩ := isZone_of_zone rplace
      obtain ⟨frac, rfl, hfrac⟩ := isFraction_of_fraction rfrac
      obtain ⟨second, rfl, hsecond, -⟩ := number_eq_some_iff.mp rsecond
      obtain rfl := literal_eq_some_iff.mp rcolon'
      obtain ⟨minute, rfl, hminute, -⟩ := number_eq_some_iff.mp rminute
      obtain rfl := literal_eq_some_iff.mp rcolon
      obtain ⟨hour, rfl, hhour, -⟩ := number_eq_some_iff.mp rhour
      rw [List.append_nil]
      exact ⟨_, off, .mk hyear hmonth hday (dateSeparator_eq_true_iff.mp hmark) hhour hminute hsecond hfrac hplace, ht⟩
    · simp only [hmark] at h
      exact absurd h nofun

theorem relaxedDate_of_parts {mark : Char} {year month day : List Char} {y : Int} {mo d : Nat} (hmark : mark.isDigit = false)
    (hyear : IsYear year y) (hmonth : IsField 1 month mo) (hday : IsField 1 day d) (hstop : IsField 2 day d ∨ Ends rest) :
    relaxedDate mark false (year ++ mark :: (month ++ mark :: (day ++ rest))) = some ((y, mo, d), rest) := by
  have hjoin {s : List Char} : literal mark (mark :: s) = some ((), s) := literal_eq_some_iff.mpr rfl
  have hend {s : List Char} : Ends (mark :: s) := ends_cons hmark s
  have hlast : shortField (day ++ rest) = some (d, rest) := by
    rcases hstop with hfull | hstop
    · exact shortField_of_isField hfull Nat.two_pos (.inl rfl)
    · exact shortField_of_isField hday Nat.one_pos (.inr hstop)
  simp only [relaxedDate, Bool.false_eq_true, if_false, signedYear_of_isYear hyear hend, hjoin, hlast,
    shortField_of_isField hmonth Nat.one_pos (.inr hend), Option.bind_eq_bind, Option.bind_some]

theorem parts_of_relaxedDate {mark : Char} {y : Int} {mo d : Nat} (h : relaxedDate mark false s = some ((y, mo, d), rest)) :
    ∃ year month day, s = year ++ mark :: (month ++ mark :: (day ++ rest)) ∧ IsYear year y ∧ IsField 1 month mo ∧
      IsField 1 day d ∧ (IsField 2 day d ∨ Ends rest) := by
  simp only [relaxedDate, Bool.false_eq_true, if_false, Option.bind_eq_bind, Option.bind_eq_some_iff] at h
  obtain ⟨⟨y, s1⟩, ryear, ⟨⟨⟩, s2⟩, rjoin, ⟨mo, s3⟩, rmonth, ⟨⟨⟩, s4⟩, rjoin', ⟨d, s5⟩, rday, hlast⟩ := h
  simp only [Option.some.injEq, Prod.mk.injEq] at hlast
  obtain ⟨⟨rfl, rfl, rfl⟩, rfl⟩ := hlast
  obtain ⟨day, rfl, hday, hstop⟩ := isField_of_shortField rday
  obtain rfl := literal_eq_some_iff.mp rjoin'
  obtain ⟨month, rfl, hmonth, -⟩ := isField_of_shortField rmonth
  obtain rfl := literal_eq_some_iff.mp rjoin
  obtain ⟨year, rfl, hyear⟩ := isYear_of_signedYear ryear
  exact ⟨year, month, day, rfl, hyear, hmonth, hday, hstop⟩

theorem IsFraction.ends (h : IsFraction front n) : Ends front := by
  cases h with
  | whole => exact ends_nil
  | point => exact ends_cons rfl _

theorem relaxedTime_of_parts {hour minute second frac : List Char} {h mi sec nanos : Nat} (hhour : IsField 1 hour h)
    (hminute : IsField 1 minute mi) (hsecond : IsField 1 second sec) (hfrac : IsFraction frac nanos) :
    relaxedTime false (hour ++ ':' :: (minute ++ ':' :: (second ++ frac))) = some ((h, mi, sec, nanos), []) := by
  have hcolon {s : List Char} : literal ':' (':' :: s) = some ((), s) := rfl
  have hend {s : List Char} : Ends (':' :: s) := ends_cons rfl s
  have hfraction := fraction_of_isFraction hfrac ends_nil nofun
  rw [List.append_nil] at hfraction
  simp only [relaxedTime, Bool.false_eq_true, if_false, hcolon, hfraction, shortField_of_isField hhour Nat.one_pos (.inr hend),
    shortField_of_isField hminute Nat.one_pos (.inr hend), shortField_of_isField hsecond Nat.one_pos (.inr hfrac.ends),
    Option.bind_eq_bind, Option.bind_some]

theorem parts_of_relaxedTime {h mi sec nanos : Nat} (ht : relaxedTime false s = some ((h, mi, sec, nanos), [])) :
    ∃ hour minute second frac, s = hour ++ ':' :: (minute ++ ':' :: (second ++ frac)) ∧ IsField 1 hour h ∧
      IsField 1 minute mi ∧ IsField 1 second sec ∧ IsFraction frac nanos := by
  simp only [relaxedTime, Bool.false_eq_true, if_false, Option.bind_eq_bind, Option.bind_eq_some_iff] at ht
  obtain ⟨⟨h, s1⟩, rhour, ⟨⟨⟩, s2⟩, rcolon, ⟨mi, s3⟩, rminute, ⟨⟨⟩, s4⟩, rcolon', ⟨sec, s5⟩, rsecond, ⟨nanos, _⟩, rfrac,
    hlast⟩ := ht
  simp only [Option.some.injEq, Prod.mk.injEq] at hlast
  obtain ⟨⟨rfl, rfl, rfl, rfl⟩, rfl⟩ := hlast
  obtain ⟨frac, rfl, hfrac⟩ := isFraction_of_fraction rfrac
  obtain ⟨second, rfl, hsecond, -⟩ := isField_of_shortField rsecond
  obtain rfl := literal_eq_some_iff.mp rcolon'
  obtain ⟨minute, rfl, hminute, -⟩ := isField_of_shortField rminute
  obtain rfl := literal_eq_some_iff.mp rcolon
  obtain ⟨hour, rfl, hhour, -⟩ := isField_of_shortField rhour
  exact ⟨hour, minute, second, frac, by rw [List.append_nil], hhour, hminute, hsecond, hfrac⟩

theorem marks_of_mem {form : NaiveForm} (h : form ∈ naiveForms) :
    form.dateMark.isDigit = false ∧ ∀ c ∈ form.timeMark, c.isDigit = false := by
  simp only [naiveForms, List.mem_cons, List.not_mem_nil, or_false] at h
  rcases h with rfl | rfl | rfl
  · exact ⟨rfl, nofun⟩
  · exact ⟨rfl, fun c hc => Option.some.inj hc ▸ rfl⟩
  · exact ⟨rfl, nofun⟩

namespace NaiveForm

variable {form : NaiveForm} {gap hour : List Char} {h : Nat}

/-- What the reader of a form passes between date and time of day. -/
def pass (form : NaiveForm) (s : List Char) : Option (List Char) :=
  match form.timeMark with
  | none => some (Text.trimStart s)
  | some c => (literal c s).map Prod.snd

theorem read_eq_some_iff : form.read s = some (t, []) ↔ ∃ y mo d h mi sec nanos after time,
    relaxedDate form.dateMark false s = some ((y, mo, d), after) ∧ form.pass after = some time ∧
      relaxedTime false time = some ((h, mi, sec, nanos), []) ∧ Fields.instant? ⟨y, mo, d, h, mi, sec, nanos⟩ 0 = some t := by
  have hread : form.read s = (relaxedDate form.dateMark false s).bind fun p => (form.pass p.2).bind fun time =>
      (relaxedTime false time).bind fun q =>
        (Fields.instant? ⟨p.1.1, p.1.2.1, p.1.2.2, q.1.1, q.1.2.1, q.1.2.2.1, q.1.2.2.2⟩ 0).bind fun t =>
          some (t, q.2) := by
    obtain ⟨mark, timeMark⟩ := form
    cases timeMark <;> rfl
  rw [hread]
  simp only [Option.bind_eq_some_iff]
  constructor
  · rintro ⟨⟨⟨y, mo, d⟩, after⟩, hdate, time, hpass, ⟨⟨h, mi, sec, nanos⟩, _⟩, htime, u, ht, hu⟩
    obtain ⟨rfl, rfl⟩ := Prod.mk.inj (Option.some.inj hu)
    exact ⟨y, mo, d, h, mi, sec, nanos, after, time, hdate, hpass, htime, ht⟩
  · rintro ⟨y, mo, d, h, mi, sec, nanos, after, time, hdate, hpass, htime, ht⟩
    exact ⟨_, hdate, _, hpass, _, htime, _, ht, rfl⟩

/-- Blanks in front of the hour may be passed with the gap. -/
theorem pass_of_joins (hgap : form.Joins gap) (hhour : IsField 1 hour h) :
    ∃ hour', IsField 1 hour' h ∧ ∀ s, form.pass (gap ++ (hour ++ s)) = some (hour' ++ s) := by
  obtain ⟨mark, timeMark⟩ := form
  cases timeMark with
  | none =>
    obtain ⟨hblanks, hn⟩ := hhour
    refine ⟨_, .mk List.all_nil hn, fun s => ?_⟩
    rw [pass, Text.trimStart_spaces hgap, trimStart_numeral hblanks hn Nat.one_pos]
    rfl
  | some c =>
    obtain rfl : gap = [c] := hgap
    exact ⟨hour, hhour, fun s => congrArg (Option.map Prod.snd) (literal_eq_some_iff.mpr rfl)⟩

/-- A gap that is not empty does not begin with a digit. -/
theorem ends_of_joins (hmarks : ∀ c ∈ form.timeMark, c.isDigit = false) (hgap : form.Joins gap) (hne : gap ≠ [])
    (s : List Char) : Ends (gap ++ s) := by
  obtain ⟨c, r, rfl⟩ := List.exists_cons_of_ne_nil hne
  refine ends_cons ?_ _
  obtain ⟨mark, timeMark⟩ := form
  cases timeMark with
  | none =>
    have hgap : (c :: r).all Text.isSpace = true := hgap
    have hblank : Text.isSpace c = true := List.all_eq_true.mp hgap c List.mem_cons_self
    by_contra hdigit
    rw [not_isSpace_of_isDigit (by simpa using hdigit)] at hblank
    exact Bool.false_ne_true hblank
  | some m =>
    have hmark : c :: r = [m] := hgap
    rw [(List.cons.inj hmark).1]
    exact hmarks m rfl

/-- Only a digit follows the date when nothing was passed. -/
theorem joins_of_pass (hpass : form.pass s = some (hour ++ rest)) (hhour : IsField 1 hour h) :
    ∃ gap, s = gap ++ (hour ++ rest) ∧ form.Joins gap ∧ (gap = [] → ¬Ends s) := by
  obtain ⟨mark, timeMark⟩ := form
  cases timeMark with
  | none =>
    have htrim : Text.trimStart s = hour ++ rest := Option.some.inj hpass
    obtain ⟨gap, hgap, hs⟩ := Text.trimStart_exists s
    rw [htrim] at hs
    refine ⟨gap, hs, hgap, ?_⟩
    rintro rfl hends
    obtain ⟨hblanks, hn⟩ := hhour
    rw [hs, List.nil_append, trimStart_numeral hblanks hn Nat.one_pos, List.append_assoc] at htrim
    obtain rfl := List.self_eq_append_left.mp htrim
    obtain ⟨d, r, rfl⟩ := List.exists_cons_of_length_pos hn.least
    have hdigit := hn.digits d List.mem_cons_self
    rw [hends d (by rw [hs]; rfl)] at hdigit
    exact Bool.false_ne_true hdigit
  | some c =>
    obtain ⟨⟨⟨⟩, _⟩, hmark, rfl⟩ := Option.map_eq_some_iff.mp hpass
    obtain rfl := literal_eq_some_iff.mp hmark
    exact ⟨[c], rfl, rfl, nofun⟩

theorem read_of_shows (hform : form ∈ naiveForms) (h : form.Shows s f) (ht : f.instant? 0 = some t) :
    form.read s = some (t, []) := by
  obtain ⟨hmark, htime⟩ := marks_of_mem hform
  obtain ⟨hyear, hmonth, hday, hgap, hfull, hhour, hminute, hsecond, hfrac⟩ := h
  obtain ⟨hour', hhour', hpass⟩ := pass_of_joins hgap hhour
  have hstop {s : List Char} : IsField 2 _ _ ∨ Ends (_ ++ s) :=
    (em (_ = [])).imp hfull fun hne => ends_of_joins htime hgap hne s
  exact read_eq_some_iff.mpr ⟨_, _, _, _, _, _, _, _, _, relaxedDate_of_parts hmark hyear hmonth hday hstop, hpass _,
    relaxedTime_of_parts hhour' hminute hsecond hfrac, ht⟩

theorem shows_of_read (h : form.read s = some (t, [])) : ∃ f, form.Shows s f ∧ f.instant? 0 = some t := by
  obtain ⟨y, mo, d, h, mi, sec, nanos, after, time, rdate, rpass, rtime, ht⟩ := read_eq_some_iff.mp h
  obtain ⟨hour, minute, second, frac, rfl, hhour, hminute, hsecond, hfrac⟩ := parts_of_relaxedTime rtime
  obtain ⟨gap, rfl, hgap, hnone⟩ := joins_of_pass rpass hhour
  obtain ⟨year, month, day, rfl, hyear, hmonth, hday, hstop⟩ := parts_of_relaxedDate rdate
  refine ⟨_, .mk hyear hmonth hday hgap (fun h => hstop.resolve_right (hnone h)) hhour hminute hsecond hfrac, ht⟩

end NaiveForm

/-! ### No text has two forms -/

/-- Characters that no number, sign, fraction or blank of a text has. -/
def Foreign (p : Char → Bool) : Prop :=
  ∀ c, c.isDigit = true ∨ Text.isSpace c = true ∨ c ∈ ['.', '+', '-'] → p c = false

section

variable {p : Char → Bool}

theorem Numeral.countP (h : Numeral least most ds n) (hp : Foreign p) : ds.countP p = 0 :=
  List.countP_eq_zero.mpr fun c hc => by simp [hp c (.inl (h.digits c hc))]

theorem countP_blanks {blanks : List Char} (h : blanks.all Text.isSpace = true) (hp : Foreign p) : blanks.countP p = 0 :=
  List.countP_eq_zero.mpr fun c hc => by simp [hp c (.inr (.inl (List.all_eq_true.mp h c hc)))]

theorem IsField.countP (h : IsField least s n) (hp : Foreign p) : s.countP p = 0 := by
  obtain ⟨hblanks, hn⟩ := h
  rw [List.countP_append, countP_blanks hblanks hp, hn.countP hp]

theorem IsYear.countP {year : Int} (h : IsYear s year) (hp : Foreign p) : s.countP p = 0 := by
  have hplus := hp '+' (by decide)
  have hminus := hp '-' (by decide)
  cases h with
  | bare hblanks hn => rw [List.countP_append, countP_blanks hblanks hp, hn.countP hp]
  | plus hblanks hn =>
    rw [List.countP_append, countP_blanks hblanks hp, List.countP_cons_of_neg (by simp [hplus]), hn.countP hp]
  | minus hblanks hn =>
    rw [List.countP_append, countP_blanks hblanks hp, List.countP_cons_of_neg (by simp [hminus]), hn.countP hp]

theorem IsFraction.countP (h : IsFraction s n) (hp : Foreign p) : s.countP p = 0 := by
  cases h with
  | whole => rfl
  | point hn => rw [List.countP_cons_of_neg (by simp [hp '.' (by decide)]), hn.countP hp]

theorem NaiveForm.Joins.countP {form : NaiveForm} (h : form.Joins s) (hp : Foreign p) :
    s.countP p = form.timeMark.toList.countP p := by
  obtain ⟨mark, timeMark⟩ := form
  cases timeMark with
  | none => exact countP_blanks h hp
  | some c =>
    obtain rfl : s = [c] := h
    rfl

/-- Of such characters, a text has those of its form, and the colons. -/
theorem NaiveForm.Shows.countP {form : NaiveForm} (h : form.Shows s f) (hp : Foreign p) :
    s.countP p = [form.dateMark, form.dateMark, ':', ':'].countP p + form.timeMark.toList.countP p := by
  obtain ⟨hyear, hmonth, hday, hgap, -, hhour, hminute, hsecond, hfrac⟩ := h
  simp only [List.countP_append, List.countP_cons, List.countP_nil, hyear.countP hp, hmonth.countP hp, hday.countP hp,
    hgap.countP hp, hhour.countP hp, hminute.countP hp, hsecond.countP hp, hfrac.countP hp]
  omega

theorem foreign_contains {marks : List Char}
    (h : (marks.all fun m => !m.isDigit && !Text.isSpace m && !decide (m ∈ ['.', '+', '-'])) = true) :
    Foreign fun c => marks.contains c := by
  intro c hc
  by_contra hmem
  have hmark := List.all_eq_true.mp h c (by simpa using hmem)
  simp only [Bool.and_eq_true, Bool.not_eq_true', decide_eq_false_iff_not] at hmark
  obtain ⟨⟨hdigit, hblank⟩, hsign⟩ := hmark
  rcases hc with hc | hc | hc
  · exact Bool.false_ne_true (hdigit.symm.trans hc)
  · exact Bool.false_ne_true (hblank.symm.trans hc)
  · exact hsign hc

theorem foreign_zone : Foreign [':', 'Z', 'z'].contains := foreign_contains rfl

theorem IsZone.countP (h : IsZone s off) : s.countP [':', 'Z', 'z'].contains = 1 := by
  cases h with
  | utc hc => rcases hc with rfl | rfl <;> rfl
  | ahead hh hm =>
    rw [List.countP_cons_of_neg (by decide), List.countP_append, List.countP_cons_of_pos (by decide),
      hh.countP foreign_zone, hm.countP foreign_zone]
  | behind hsign hh hm =>
    rw [List.countP_cons_of_neg (by rcases hsign with rfl | rfl <;> decide), List.countP_append,
      List.countP_cons_of_pos (by decide), hh.countP foreign_zone, hm.countP foreign_zone]

/-- A strict text has its offset beyond the colons of the time of day. -/
theorem IsStrict.countP (h : IsStrict s f off) : s.countP [':', 'Z', 'z'].contains = 3 := by
  obtain ⟨hyear, hmonth, hday, hseparator, hhour, hminute, hsecond, hfrac, hplace⟩ := h
  have hdash {s : List Char} : ('-' :: s).countP [':', 'Z', 'z'].contains = s.countP [':', 'Z', 'z'].contains :=
    List.countP_cons_of_neg (by decide)
  have hcolon {s : List Char} : (':' :: s).countP [':', 'Z', 'z'].contains = s.countP [':', 'Z', 'z'].contains + 1 :=
    List.countP_cons_of_pos (by decide)
  simp only [List.countP_append, hdash, hyear.countP foreign_zone, hmonth.countP foreign_zone, hday.countP foreign_zone]
  rw [List.countP_cons_of_neg (by rcases hseparator with rfl | rfl | rfl <;> decide)]
  simp only [List.countP_append, hcolon, hhour.countP foreign_zone, hminute.countP foreign_zone,
    hsecond.countP foreign_zone, hfrac.countP foreign_zone, hplace.countP]

theorem NaiveForm.Shows.not_isStrict {form : NaiveForm} {f' : Fields} (hform : form ∈ naiveForms) (h : form.Shows s f) :
    ¬IsStrict s f' off := by
  intro hstrict
  have hcount := (h.countP foreign_zone).symm.trans hstrict.countP
  simp only [naiveForms, List.mem_cons, List.not_mem_nil, or_false] at hform
  rcases hform with rfl | rfl | rfl <;> exact absurd hcount (by decide)

theorem NaiveForm.Shows.unique {form form' : NaiveForm} {f' : Fields} (hform : form ∈ naiveForms)
    (hform' : form' ∈ naiveForms) (h : form.Shows s f) (h' : form'.Shows s f') : form = form' := by
  have hslash : Foreign ['/'].contains := foreign_contains rfl
  have hletter : Foreign ['T'].contains := foreign_contains rfl
  have hdates := (h.countP hslash).symm.trans (h'.countP hslash)
  have htimes := (h.countP hletter).symm.trans (h'.countP hletter)
  simp only [naiveForms, List.mem_cons, List.not_mem_nil, or_false] at hform hform'
  rcases hform with rfl | rfl | rfl <;> rcases hform' with rfl | rfl | rfl <;>
    first | rfl | exact absurd hdates (by decide) | exact absurd htimes (by decide)

end

/-! ### What a text is read as -/

theorem ofRfc3339?_eq_some_iff {s : String} : ofRfc3339? s = some t ↔
    ∃ f off, IsStrict s.toList f off ∧ f.instant? off = some t := by
  rw [ofRfc3339?, whole_eq_some_iff]
  exact ⟨isStrict_of_rfc3339, fun ⟨f, off, h, ht⟩ => rfc3339_of_isStrict h ht⟩

theorem ofNaive?_eq_some_iff {s : String} : ofNaive? s = some t ↔
    ∃ form ∈ naiveForms, ∃ f, form.Shows s.toList f ∧ f.instant? 0 = some t := by
  constructor
  · intro h
    obtain ⟨form, hform, hread⟩ := List.exists_of_findSome?_eq_some h
    obtain ⟨f, hshows, ht⟩ := NaiveForm.shows_of_read (whole_eq_some_iff.mp hread)
    exact ⟨form, hform, f, hshows, ht⟩
  · rintro ⟨form, hform, f, hshows, ht⟩
    have hread := NaiveForm.read_of_shows hform hshows ht
    cases hnaive : ofNaive? s with
    | none =>
      have hnone := List.findSome?_eq_none_iff.mp hnaive form hform
      rw [whole_eq_some_iff.mpr hread] at hnone
      exact absurd hnone nofun
    | some u =>
      obtain ⟨form', hform', hread'⟩ := List.exists_of_findSome?_eq_some hnaive
      rw [whole_eq_some_iff] at hread'
      obtain ⟨f', hshows', -⟩ := NaiveForm.shows_of_read hread'
      obtain rfl := hshows.unique hform hform' hshows'
      rw [hread] at hread'
      exact congrArg some (Prod.mk.inj (Option.some.inj hread')).1.symm

/-- A text is read as an instant exactly when it has a form, and then as the instant that the fields in it name. -/
theorem ofLogText?_eq_some_iff {s : String} : ofLogText? s = some t ↔
    ∃ f off, Shows s.toList f off ∧ f.instant? off = some t := by
  rw [ofLogText?]
  constructor
  · intro h
    cases hstrict : ofRfc3339? s with
    | some u =>
      rw [hstrict] at h
      obtain rfl := Option.some.inj h
      obtain ⟨f, off, hf, ht⟩ := ofRfc3339?_eq_some_iff.mp hstrict
      exact ⟨f, off, .strict hf, ht⟩
    | none =>
      rw [hstrict] at h
      obtain ⟨form, hform, f, hf, ht⟩ := ofNaive?_eq_some_iff.mp h
      exact ⟨f, 0, .naive hform hf, ht⟩
  · rintro ⟨f, off, hshows | ⟨hform, hshows⟩, ht⟩
    · rw [ofRfc3339?_eq_some_iff.mpr ⟨f, off, hshows, ht⟩]
      rfl
    · cases hstrict : ofRfc3339? s with
      | none => exact ofNaive?_eq_some_iff.mpr ⟨_, hform, f, hshows, ht⟩
      | some u =>
        obtain ⟨f', off', hf', -⟩ := ofRfc3339?_eq_some_iff.mp hstrict
        exact absurd hf' (hshows.not_isStrict hform)

theorem IsZone.bounds (h : IsZone s off) : -1440 < off ∧ off < 1440 := by
  cases h <;> omega

theorem Shows.ne_nil (h : Shows s f off) : s ≠ [] := by
  rcases h with ⟨⟨⟩⟩ | ⟨-, ⟨⟩⟩ <;> simp

theorem Shows.nanos_lt (h : Shows s f off) : f.nanos < billion := by
  rcases h with ⟨_, _, _, _, _, _, _, hfrac, _⟩ | ⟨_, ⟨_, _, _, _, _, _, _, _, hfrac⟩⟩ <;> exact hfrac.lt

/-- Every text in one of the forms that shows a real date and time of day is read, whatever its offset. -/
theorem Shows.exists_instant (h : Shows s f off) (hf : f.IsReal) : ∃ t, f.instant? off = some t := by
  rcases h with ⟨hyear, _, _, _, _, _, _, _, hplace⟩ | ⟨_, _⟩
  · refine exists_instant_at hf ⟨Int.natCast_nonneg _, ?_⟩ hplace.bounds
    have hlt := Json.digitsValue_lt hyear.digits
    have hlen := hyear.most.antisymm hyear.least
    rw [hlen, hyear.value] at hlt
    exact Int.ofNat_le.mpr (Nat.le_of_lt_succ hlt)
  · exact Time.exists_instant hf

/-- A text that shows a real date and time of day at an offset is read as the one instant at which the clock there shows
them. -/
theorem Shows.ofLogText?_eq {s : String} (h : Shows s.toList f off) (hf : f.IsReal) :
    ∃ t, ofLogText? s = some t ∧ t.Valid ∧ shown t off = f ∧ ∀ u : Instant, u.Valid → shown u off = f → u = t := by
  obtain ⟨t, ht⟩ := h.exists_instant hf
  have hvalid := valid_of_instant? h.nanos_lt ht
  have hshown := shown_of_instant? h.nanos_lt ht
  refine ⟨t, ofLogText?_eq_some_iff.mpr ⟨f, off, h, ht⟩, hvalid, hshown, fun u hu hsame => ?_⟩
  exact shown_inj (hsame.symm ▸ hf.year) hu hvalid (hsame.trans hshown.symm)

/-- A text that is read shows a real date and time of day. -/
theorem shows_of_ofLogText? {s : String} (h : ofLogText? s = some t) : ∃ f off, Shows s.toList f off ∧ f.IsReal := by
  obtain ⟨f, off, hshows, ht⟩ := ofLogText?_eq_some_iff.mp h
  exact ⟨f, off, hshows, isReal_of_instant? ht⟩

end StackDeck.Time
