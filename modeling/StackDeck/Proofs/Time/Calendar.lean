import StackDeck.Time.Date

/-!
Counting days in the Gregorian calendar. The years, months and days found for a count of days are a
real date, and counting up to that date gives the count again, however far before or after 1970.
-/

namespace StackDeck.Time

theorem daysBeforeYear_eq {year q c f s : Int} (hyear : year = 1 + 400 * q + 100 * c + 4 * f + s)
    (hc : 0 ≤ c ∧ c ≤ 3) (hf : 0 ≤ f ∧ f ≤ 24) (hs : 0 ≤ s ∧ s ≤ 3) :
    daysBeforeYear year = 146097 * q + 36524 * c + 1461 * f + 365 * s := by
  have h4 : (year - 1) / 4 = 100 * q + 25 * c + f := by omega
  have h100 : (year - 1) / 100 = 4 * q + c := by omega
  have h400 : (year - 1) / 400 = q := by omega
  simp only [daysBeforeYear, h4, h100, h400]
  omega

/-- The last day of four years is the 366th of a leap year, for a year that ends a century only
when the century is the fourth. -/
theorem isLeap_last {year q c f : Int} (hyear : year = 1 + 400 * q + 100 * c + 4 * f + 3)
    (hf : 0 ≤ f ∧ f ≤ 24) (hcentury : f = 24 → c = 3) : isLeap year = true := by
  have h4 : year % 4 = 0 := by omega
  have h100 : year % 100 ≠ 0 ∨ year % 400 = 0 := by omega
  simpa [isLeap, h4] using h100

theorem sum_monthLengths (leap : Bool) :
    (monthLengths leap).foldr (· + ·) 0 = if leap then 366 else 365 := by
  cases leap <;> rfl

namespace Date

/-- A day of the year lies in one of the months, at most as many days in as the month has. -/
theorem monthOfDay_spec (lengths : List Nat) (month n : Nat) (hn : n < lengths.foldr (· + ·) 0) :
    ∃ i d, monthOfDay month lengths n = (month + i, d) ∧ i < lengths.length ∧ 1 ≤ d ∧ d ≤ lengths.getD i 0 ∧
      (lengths.take i).foldr (· + ·) 0 + d = n + 1 := by
  induction lengths generalizing month n with
  | nil => exact absurd hn (Nat.not_lt_zero n)
  | cons l r ih =>
    rw [List.foldr_cons] at hn
    by_cases hl : n < l
    · exact ⟨0, n + 1, by rw [monthOfDay, if_pos hl]; rfl, by simp, by omega, Nat.succ_le_of_lt hl, by simp⟩
    · obtain ⟨i, d, hmonth, hi, hd, hlen, hsum⟩ := ih (month + 1) (n - l) (by omega)
      refine ⟨i + 1, d, ?_, by simpa using hi, hd, by simpa using hlen, ?_⟩
      · rw [monthOfDay, if_neg hl, hmonth]
        congr 1
        omega
      · rw [List.take_succ_cons, List.foldr_cons]
        omega

/-- The date of a day is that day of a year, the year found by cycles. -/
theorem ofDays_spec (days : Int) :
    ∃ year n, daysBeforeYear year + (n : Nat) - epochDays = days ∧
      n < (monthLengths (isLeap year)).foldr (· + ·) 0 ∧
      ofDays days = ⟨year, (monthOfDay 1 (monthLengths (isLeap year)) n).1,
        (monthOfDay 1 (monthLengths (isLeap year)) n).2⟩ := by
  let q := (days + epochDays) / 146097
  let cycle := (days + epochDays) % 146097
  let c := min (cycle / 36524) 3
  let rest := cycle - c * 36524
  let f := rest / 1461
  let ofFour := rest % 1461
  let s := min (ofFour / 365) 3
  let year := 1 + 400 * q + 100 * c + 4 * f + s
  have hsplit : days + epochDays = 146097 * q + cycle := by omega
  have hcycle : 0 ≤ cycle ∧ cycle < 146097 := by omega
  have hc : 0 ≤ c ∧ c ≤ 3 := by omega
  have hrest : 0 ≤ rest ∧ rest ≤ 36524 ∧ (rest = 36524 → c = 3) := by omega
  have hf : 0 ≤ f ∧ f ≤ 24 ∧ (f = 24 → ofFour = 1460 → rest = 36524) := by omega
  have hfour : rest = 1461 * f + ofFour ∧ 0 ≤ ofFour ∧ ofFour < 1461 := by omega
  have hs : 0 ≤ s ∧ s ≤ 3 ∧ 0 ≤ ofFour - s * 365 ∧ ofFour - s * 365 ≤ 365 ∧
      (ofFour - s * 365 = 365 → s = 3 ∧ ofFour = 1460) := by omega
  have hbefore : daysBeforeYear year = 146097 * q + 36524 * c + 1461 * f + 365 * s :=
    daysBeforeYear_eq rfl hc ⟨hf.1, hf.2.1⟩ ⟨hs.1, hs.2.1⟩
  refine ⟨year, (ofFour - s * 365).toNat, by omega, ?_, rfl⟩
  rw [sum_monthLengths]
  by_cases hlast : ofFour - s * 365 = 365
  · obtain ⟨hthree, hend⟩ := hs.2.2.2.2 hlast
    have hleap : isLeap year = true :=
      isLeap_last (q := q) (c := c) (f := f) (by omega) ⟨hf.1, hf.2.1⟩ fun h => hrest.2.2 (hf.2.2 h hend)
    rw [if_pos hleap]
    omega
  · split <;> omega

theorem toDays_ofDays (days : Int) : (ofDays days).toDays = days := by
  obtain ⟨year, n, hdays, hn, hdate⟩ := ofDays_spec days
  obtain ⟨i, d, hmonth, -, -, -, hsum⟩ := monthOfDay_spec _ 1 n hn
  rw [hdate, hmonth, toDays]
  simp only [Nat.add_sub_cancel_left]
  omega

theorem valid_ofDays (days : Int) : (ofDays days).valid = true := by
  obtain ⟨year, n, -, hn, hdate⟩ := ofDays_spec days
  obtain ⟨i, d, hmonth, hi, hd, hlen, -⟩ := monthOfDay_spec _ 1 n hn
  have hi : i < 12 := hi
  have hlen : d ≤ monthLength year (1 + i) := by rwa [monthLength, Nat.add_sub_cancel_left]
  simp [hdate, hmonth, valid, hd, hlen]
  omega

/-- The day of a month is found in the month. -/
theorem monthOfDay_eq {lengths : List Nat} {i d : Nat} (month : Nat) (hi : i < lengths.length) (hd : 1 ≤ d)
    (hlen : d ≤ lengths.getD i 0) : monthOfDay month lengths ((lengths.take i).foldr (· + ·) 0 + d - 1) = (month + i, d) := by
  induction lengths generalizing month i with
  | nil => exact absurd hi (Nat.not_lt_zero i)
  | cons l r ih =>
    cases i with
    | zero =>
      have hl : d ≤ l := hlen
      rw [monthOfDay, if_pos (by simp; omega)]
      simp
      omega
    | succ i =>
      have hsum : ((l :: r).take (i + 1)).foldr (· + ·) 0 + d - 1 = l + ((r.take i).foldr (· + ·) 0 + d - 1) := by
        rw [List.take_succ_cons, List.foldr_cons]
        omega
      rw [hsum, monthOfDay, if_neg (by omega), Nat.add_sub_cancel_left,
        ih (month + 1) (Nat.lt_of_succ_lt_succ hi) hlen]
      congr 1
      omega

theorem daysBeforeYear_succ (year : Int) :
    daysBeforeYear (year + 1) = daysBeforeYear year + ((monthLengths (isLeap year)).foldr (· + ·) 0 : Nat) := by
  have hleap : isLeap year = true ↔ year % 4 = 0 ∧ (year % 100 ≠ 0 ∨ year % 400 = 0) := by simp [isLeap]
  rw [sum_monthLengths]
  by_cases h : isLeap year = true
  · have := hleap.mp h
    rw [if_pos h]
    simp only [daysBeforeYear]
    omega
  · have := mt hleap.mpr h
    rw [if_neg h]
    simp only [daysBeforeYear]
    omega

theorem daysBeforeYear_mono {year year' : Int} (h : year ≤ year') : daysBeforeYear year ≤ daysBeforeYear year' := by
  simp only [daysBeforeYear]
  omega

/-- A day belongs to one year. -/
theorem year_unique {year year' : Int} {n n' : Nat} (hn : n < (monthLengths (isLeap year)).foldr (· + ·) 0)
    (hn' : n' < (monthLengths (isLeap year')).foldr (· + ·) 0)
    (h : daysBeforeYear year + n = daysBeforeYear year' + n') : year = year' ∧ n = n' := by
  have hnext := daysBeforeYear_succ year
  have hnext' := daysBeforeYear_succ year'
  have heq : year = year' := by
    rcases Int.lt_trichotomy year year' with hlt | heq | hlt
    · have := daysBeforeYear_mono (Int.add_one_le_of_lt hlt)
      omega
    · exact heq
    · have := daysBeforeYear_mono (Int.add_one_le_of_lt hlt)
      omega
  subst heq
  exact ⟨rfl, by omega⟩

/-- A day lies between the first day of its year and that of the next. -/
theorem year_ofDays_bounds (days : Int) :
    daysBeforeYear (ofDays days).year ≤ days + epochDays ∧ days + epochDays < daysBeforeYear ((ofDays days).year + 1) := by
  obtain ⟨year, n, hdays, hn, hdate⟩ := ofDays_spec days
  have hnext := daysBeforeYear_succ year
  rw [hdate]
  dsimp only
  omega

theorem year_lt_iff {days year : Int} : (ofDays days).year < year ↔ days + epochDays < daysBeforeYear year := by
  obtain ⟨hfirst, hlast⟩ := year_ofDays_bounds days
  constructor
  · intro h
    have := daysBeforeYear_mono (Int.add_one_le_of_lt h)
    omega
  · intro h
    refine Int.not_le.mp fun hle => ?_
    have := daysBeforeYear_mono hle
    omega

/-- The days of the months before one, and a day of it, are fewer than those of the year. -/
theorem day_lt_year {leap : Bool} {i d : Nat} (hi : i < 12) (hlen : d ≤ (monthLengths leap).getD i 0) :
    ((monthLengths leap).take i).foldr (· + ·) 0 + d ≤ (monthLengths leap).foldr (· + ·) 0 := by
  have hall : ∀ leap : Bool, ∀ i : Fin 12, ((monthLengths leap).take i).foldr (· + ·) 0 + (monthLengths leap).getD i 0 ≤
      (monthLengths leap).foldr (· + ·) 0 := by decide
  have := hall leap ⟨i, hi⟩
  dsimp only at this
  omega

/-- Counting the days up to a date and back gives the date again. -/
theorem ofDays_toDays {d : Date} (h : d.valid = true) : ofDays d.toDays = d := by
  simp only [valid, Bool.and_eq_true, decide_eq_true_eq] at h
  obtain ⟨⟨⟨hm, hm12⟩, hd⟩, hlen⟩ := h
  rw [monthLength] at hlen
  have hi : d.month - 1 < 12 := by omega
  have hyear := day_lt_year hi hlen
  obtain ⟨year, n, hdays, hn, hdate⟩ := ofDays_spec d.toDays
  rw [toDays] at hdays
  have hbelow : ((monthLengths (isLeap d.year)).take (d.month - 1)).foldr (· + ·) 0 + d.day - 1 <
      (monthLengths (isLeap d.year)).foldr (· + ·) 0 := by omega
  obtain ⟨rfl, rfl⟩ := year_unique hn hbelow (by omega)
  rw [hdate, monthOfDay_eq 1 hi hd hlen, Nat.add_sub_cancel' hm]

/-- A date that the calendar has is short: two digits hold its month and its day. -/
theorem lt_hundred_of_valid {d : Date} (h : d.valid = true) : d.month < 100 ∧ d.day < 100 := by
  simp only [valid, Bool.and_eq_true, decide_eq_true_eq] at h
  obtain ⟨⟨⟨hm, hm12⟩, -⟩, hday⟩ := h
  have hlen : monthLength d.year d.month ≤ 31 := by
    rw [monthLength]
    have : ∀ leap : Bool, ∀ i : Fin 12, (monthLengths leap).getD i 0 ≤ 31 := by decide
    exact this _ ⟨d.month - 1, by omega⟩
  omega

end Date

end StackDeck.Time
