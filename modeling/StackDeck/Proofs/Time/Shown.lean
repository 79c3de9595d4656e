import StackDeck.Proofs.Time.Timestamp

/-!
What a clock shows at an instant, so many minutes east of UTC. A real date and time of day is shown at one instant, and
that is the instant the fields are read as.
-/

namespace StackDeck.Time

open Instant

variable {f : Fields} {off : Int} {t u : Instant}

/-- A date in the years of the calendar, and a time of day. Any minute may end with a leap second. -/
structure Fields.IsReal (f : Fields) : Prop where
  year : yearInRange f.year = true
  date : (⟨f.year, f.month, f.day⟩ : Date).valid = true
  hour : f.hour < 24
  minute : f.minute < 60
  second : f.second < 61

/-- What a clock shows at an instant, so many minutes east of UTC. -/
def shown (t : Instant) (off : Int) : Fields := Fields.of ⟨t.seconds + off * 60, t.nanos⟩

/-- At no offset, the clock shows the fields that the moment was put together from. -/
theorem of_moment (hf : f.IsReal) (hn : f.nanos < billion) : Fields.of (f.moment 0) = f := by
  obtain ⟨-, hdate, hhour, hminute, hsecond⟩ := hf
  obtain ⟨sec, hsec, hparts⟩ : ∃ sec < 60, (f.moment 0).seconds = (⟨f.year, f.month, f.day⟩ : Date).toDays * 86400 +
      (f.hour * 3600 + f.minute * 60 + sec : Nat) ∧
      (f.second = 60 ∧ sec = 59 ∧ (f.moment 0).nanos = f.nanos + billion ∨
        f.second = sec ∧ (f.moment 0).nanos = f.nanos) := by
    by_cases hleap : f.second = 60
    · exact ⟨59, by decide, by simp [Fields.moment, hleap], .inl ⟨hleap, rfl, by simp [Fields.moment, hleap]⟩⟩
    · exact ⟨f.second, by omega, by simp [Fields.moment, hleap], .inr ⟨rfl, by simp [Fields.moment, hleap]⟩⟩
  obtain ⟨hseconds, hlast⟩ := hparts
  have hday : (f.moment 0).seconds / 86400 = (⟨f.year, f.month, f.day⟩ : Date).toDays := by omega
  have hofday : (f.moment 0).secondOfDay = f.hour * 3600 + f.minute * 60 + sec := by
    rw [secondOfDay]
    omega
  have hd : (f.moment 0).date = ⟨f.year, f.month, f.day⟩ := by rw [Instant.date, hday, Date.ofDays_toDays hdate]
  have hhours : (f.hour * 3600 + f.minute * 60 + sec) / 3600 = f.hour := by omega
  have hminutes : (f.hour * 3600 + f.minute * 60 + sec) / 60 % 60 = f.minute := by omega
  have hseconds : (f.hour * 3600 + f.minute * 60 + sec) % 60 = sec := by omega
  rw [Fields.of, hd, hofday, hhours, hminutes, hseconds]
  obtain ⟨year, month, day, hour, minute, second, nanos⟩ := f
  rcases hlast with ⟨rfl, rfl, hnanos⟩ | ⟨rfl, hnanos⟩
  · rw [hnanos, if_pos (Nat.le_add_left _ _), Nat.add_mod_right, Nat.mod_eq_of_lt hn]
  · rw [hnanos, if_neg (Nat.not_le.mpr hn), Nat.mod_eq_of_lt hn, Nat.add_zero]

theorem isReal_of_instant? (h : f.instant? off = some t) : f.IsReal := by
  obtain ⟨hyear, hdate, hhour, hminute, hsecond, -, -⟩ := instant?_eq_some.mp h
  exact ⟨hyear, hdate, hhour, hminute, hsecond⟩

theorem moment_eq (f : Fields) (off : Int) : f.moment 0 = ⟨(f.moment off).seconds + off * 60, (f.moment off).nanos⟩ := by
  simp [Fields.moment]

/-- The clock shows the fields at the instant they are read as. -/
theorem shown_of_instant? (hn : f.nanos < billion) (h : f.instant? off = some t) : shown t off = f := by
  have hreal := isReal_of_instant? h
  obtain ⟨-, -, -, -, -, rfl, -⟩ := instant?_eq_some.mp h
  rw [shown, ← moment_eq, of_moment hreal hn]

/-- An instant at which the clock shows the fields is the one they are read as. -/
theorem instant?_of_shown (hyear : yearInRange f.year = true) (ht : t.Valid) (h : shown t off = f) :
    f.instant? off = some t := by
  have hlocal : Valid ⟨t.seconds + off * 60, t.nanos⟩ := by
    refine ⟨?_, ht.nanos.imp_right fun hleap => ⟨?_, hleap.2⟩⟩
    · rw [← h] at hyear
      exact hyear
    · have := hleap.1
      show (t.seconds + off * 60) % 60 = 59
      omega
  have hread := instant?_of hlocal
  rw [← shown, h] at hread
  obtain ⟨-, hdate, hhour, hminute, hsecond, hmoment, -⟩ := instant?_eq_some.mp hread
  refine instant?_eq_some.mpr ⟨hyear, hdate, hhour, hminute, hsecond, ?_, ht.year⟩
  rw [moment_eq f off] at hmoment
  obtain ⟨hseconds, hnanos⟩ := Instant.mk.inj hmoment
  have hsame : (f.moment off).seconds = t.seconds := by omega
  calc f.moment off = ⟨(f.moment off).seconds, (f.moment off).nanos⟩ := rfl
    _ = t := by rw [hsame, hnanos]

theorem moment_seconds_bounds (hf : f.IsReal) (off : Int) :
    (⟨f.year, f.month, f.day⟩ : Date).toDays * 86400 - off * 60 ≤ (f.moment off).seconds ∧
      (f.moment off).seconds < (⟨f.year, f.month, f.day⟩ : Date).toDays * 86400 - off * 60 + 86400 := by
  obtain ⟨-, -, hhour, hminute, hsecond⟩ := hf
  simp only [Fields.moment]
  split
  next => omega
  next h =>
    have : f.second ≠ 60 := by simpa using h
    omega

/-- In UTC, every real date and time of day of the calendar's years is read. -/
theorem exists_instant (hf : f.IsReal) : ∃ t, f.instant? 0 = some t := by
  refine ⟨f.moment 0, instant?_eq_some.mpr ⟨hf.year, hf.date, hf.hour, hf.minute, hf.second, rfl, ?_⟩⟩
  obtain ⟨hlow, hhigh⟩ := moment_seconds_bounds hf 0
  have hday : (f.moment 0).seconds / 86400 = (⟨f.year, f.month, f.day⟩ : Date).toDays := by omega
  rw [Instant.date, hday, Date.ofDays_toDays hf.date]
  exact hf.year

/-- An offset of less than a day does not leave the years of the calendar from one that four digits hold. -/
theorem exists_instant_at (hf : f.IsReal) (hyear : 0 ≤ f.year ∧ f.year ≤ 9999) (hoff : -1440 < off ∧ off < 1440) :
    ∃ t, f.instant? off = some t := by
  refine ⟨f.moment off, instant?_eq_some.mpr ⟨hf.year, hf.date, hf.hour, hf.minute, hf.second, rfl, ?_⟩⟩
  let day := (⟨f.year, f.month, f.day⟩ : Date).toDays
  have hsame : Date.ofDays day = ⟨f.year, f.month, f.day⟩ := Date.ofDays_toDays hf.date
  have hlow : daysBeforeYear 0 ≤ day + epochDays := by
    rw [← Int.not_lt, ← Date.year_lt_iff, hsame]
    exact Int.not_lt.mpr hyear.1
  have hhigh : day + epochDays < daysBeforeYear 10000 := by
    rw [← Date.year_lt_iff, hsame]
    exact Int.lt_add_one_of_le hyear.2
  have hzero : daysBeforeYear 0 = -366 := rfl
  have htenthousand : daysBeforeYear 10000 = 3652059 := rfl
  have hbefore : daysBeforeYear (-1) = -731 := rfl
  have hafter : daysBeforeYear 10001 = 3652425 := rfl
  obtain ⟨hfirst, hlast⟩ := moment_seconds_bounds hf off
  have hnear : day - 1 ≤ (f.moment off).seconds / 86400 ∧ (f.moment off).seconds / 86400 ≤ day + 1 := by omega
  have hleast : ¬(f.moment off).date.year < -1 := by
    rw [Instant.date, Date.year_lt_iff]
    omega
  have hmost : (f.moment off).date.year < 10001 := by
    rw [Instant.date, Date.year_lt_iff]
    omega
  simp only [yearInRange, Bool.and_eq_true, decide_eq_true_eq]
  omega

/-- One real date and time of day is shown at one instant. -/
theorem shown_inj (hyear : yearInRange (shown t off).year = true) (ht : t.Valid) (hu : u.Valid)
    (h : shown t off = shown u off) : t = u := by
  have hread := instant?_of_shown hyear ht rfl
  rw [instant?_of_shown hyear hu h.symm] at hread
  exact (Option.some.inj hread).symm

end StackDeck.Time
