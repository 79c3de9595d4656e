import Mathlib.Data.List.TakeWhile
import StackDeck.Proofs.Digits
import StackDeck.Proofs.Time.Calendar
import StackDeck.Time.Reader

/-!
Timestamps written and read back. The text of an instant shows every part of it, each in digits of its
own between marks that no reader takes for a digit, so the reader finds the parts again and puts the
instant together from them.
-/

namespace StackDeck

namespace Instant

/-- An instant that a clock of the calendar can show: one of its years, and beyond a thousand million
nanoseconds only in a leap second, which ends a minute. -/
structure Valid (t : Instant) : Prop where
  year : Time.yearInRange t.date.year = true
  nanos : t.nanos < billion ∨ t.seconds % 60 = 59 ∧ t.nanos < 2 * billion

/-! ### Digits of a fixed width -/

theorem isDigit_of_mem_padded {c : Char} {width n : Nat} (h : c ∈ padded width n) : c.isDigit = true := by
  rcases List.mem_append.mp h with h | h
  · rw [(List.mem_replicate.mp h).2]
    rfl
  · exact Json.isDigit_of_mem_toDigits h

theorem digitsValue_padded (width n : Nat) : Json.digitsValue (padded width n) = n := by
  rw [padded, Json.digitsValue_zeros, Json.digitsValue_toDigits]

theorem length_padded {width n : Nat} (hw : 0 < width) (hn : n < 10 ^ width) : (padded width n).length = width := by
  have hle := Json.length_toDigits_le hw hn
  rw [padded, List.length_append, List.length_replicate]
  omega

theorem le_length_padded (width n : Nat) : width ≤ (padded width n).length := by
  rw [padded, List.length_append, List.length_replicate]
  omega

end Instant

namespace Time

variable {ds rest : List Char} {c : Char}

/-! ### What the readers take off the front -/

/-- Digits in front of another character are all the digits in front, in a long enough look ahead. -/
theorem takeWhile_take_digits {max : Nat} (hd : ∀ d ∈ ds, d.isDigit = true) (hc : c.isDigit = false)
    (hmax : ds.length ≤ max) : ((ds ++ c :: rest).take max).takeWhile Char.isDigit = ds := by
  have hnone : ((c :: rest).take (max - ds.length)).takeWhile Char.isDigit = [] := by
    cases max - ds.length with
    | zero => rfl
    | succ k => exact List.takeWhile_cons_of_neg (by rw [hc]; exact Bool.false_ne_true)
  rw [List.take_append, List.take_of_length_le hmax, List.takeWhile_append_of_pos hd, hnone, List.append_nil]

/-- A number ends with the digits it was written with, when something else follows. -/
theorem number_read {min max : Nat} (hd : ∀ d ∈ ds, d.isDigit = true) (hc : c.isDigit = false)
    (hmin : min ≤ ds.length) (hmax : ds.length ≤ max) :
    number min max (ds ++ c :: rest) = some (Json.digitsValue ds, c :: rest) := by
  simp only [number, takeWhile_take_digits hd hc hmax]
  rw [if_neg (by omega), List.drop_left]
  rfl

theorem not_isSpace_of_isDigit (h : c.isDigit = true) : Text.isSpace c = false := by
  have hc := Json.toNat_of_isDigit h
  simp [Text.isSpace]
  omega

theorem trimStart_digits {s : List Char} (hne : ds ≠ []) (hd : ∀ d ∈ ds, d.isDigit = true) :
    Text.trimStart (ds ++ s) = ds ++ s := by
  cases ds with
  | nil => exact absurd rfl hne
  | cons d r =>
    have hs := not_isSpace_of_isDigit (hd d List.mem_cons_self)
    exact List.dropWhile_cons_of_neg (by rw [hs]; exact Bool.false_ne_true)

open Instant

theorem shortField_read {n : Nat} (hn : n < 100) (hc : c.isDigit = false) :
    shortField (padded 2 n ++ c :: rest) = some (n, c :: rest) := by
  have hd : ∀ d ∈ padded 2 n, d.isDigit = true := fun _ => isDigit_of_mem_padded
  have hlen : (padded 2 n).length = 2 := length_padded (by decide) (by omega)
  have hne : padded 2 n ≠ [] := fun h => by rw [h] at hlen; exact absurd hlen (by decide)
  rw [shortField, trimStart_digits hne hd, number_read hd hc (by omega) (by omega), digitsValue_padded]

theorem signedYear_minus (s : List Char) :
    signedYear ('-' :: s) = (number 1 s.length s).map fun p => (-(p.1 : Int), p.2) := rfl

theorem signedYear_plus (s : List Char) :
    signedYear ('+' :: s) = (number 1 s.length s).map fun p => ((p.1 : Int), p.2) := rfl

/-- A year is read with the sign it was written with. -/
theorem signedYear_read (year : Int) : signedYear (yearChars year ++ '-' :: rest) = some (year, '-' :: rest) := by
  have hd (n : Nat) : ∀ d ∈ padded 4 n, d.isDigit = true := fun _ => isDigit_of_mem_padded
  have hread (n : Nat) : number 1 (padded 4 n ++ '-' :: rest).length (padded 4 n ++ '-' :: rest) =
      some (n, '-' :: rest) := by
    have hlen := le_length_padded 4 n
    rw [number_read (hd n) rfl (by omega) (by simp), digitsValue_padded]
  rw [yearChars]
  split
  next h =>
    simp only [Bool.and_eq_true, decide_eq_true_eq] at h
    have hlen : (padded 4 year.toNat).length = 4 := length_padded (by decide) (by omega)
    obtain ⟨d, r, hdr⟩ : ∃ d r, padded 4 year.toNat = d :: r :=
      List.exists_cons_of_length_pos (by omega)
    have hdigit : d.isDigit = true := hd year.toNat d (by rw [hdr]; exact List.mem_cons_self)
    rw [signedYear, trimStart_digits (by rw [hdr]; exact List.cons_ne_nil d r) (hd _)]
    split
    next s heq =>
      rw [hdr, List.cons_append] at heq
      rw [(List.cons.inj heq).1] at hdigit
      exact absurd hdigit (by decide)
    next s heq =>
      rw [hdr, List.cons_append] at heq
      rw [(List.cons.inj heq).1] at hdigit
      exact absurd hdigit (by decide)
    · rw [number_read (hd _) rfl (by omega) (by omega), digitsValue_padded, Option.map_some,
        Int.toNat_of_nonneg h.1]
  next h =>
    split
    next hneg =>
      rw [List.cons_append, signedYear_minus, hread, Option.map_some, Int.toNat_of_nonneg (by omega), Int.neg_neg]
    next hpos =>
      rw [List.cons_append, signedYear_plus, hread, Option.map_some, Int.toNat_of_nonneg (by omega)]

theorem relaxedDate_read {year : Int} {month day : Nat} (hm : month < 100) (hd : day < 100) (hc : c.isDigit = false) :
    relaxedDate '-' true (yearChars year ++ '-' :: (padded 2 month ++ '-' :: (padded 2 day ++ c :: rest))) =
      some ((year, month, day), c :: rest) := by
  have hmark {s : List Char} : literal '-' (Text.trimStart ('-' :: s)) = some ((), s) := rfl
  simp only [relaxedDate, signedYear_read, if_true, hmark, Option.bind_eq_bind, Option.bind_some,
    shortField_read hm (c := '-') rfl, shortField_read hd hc]

/-! ### Fractions of a second -/

theorem nanoseconds_read {width n : Nat} (hw : 0 < width) (hw9 : width ≤ 9) (hn : n < 10 ^ width) (hc : c.isDigit = false) :
    nanoseconds (padded width n ++ c :: rest) = some (n * 10 ^ (9 - width), c :: rest) := by
  have hd : ∀ d ∈ padded width n, d.isDigit = true := fun _ => isDigit_of_mem_padded
  have hlen : (padded width n).length = width := length_padded hw hn
  have hne : (padded width n).isEmpty = false := by
    rw [List.isEmpty_eq_false_iff]
    intro h
    rw [h] at hlen
    exact absurd hlen (by simp; omega)
  have hvalue : (padded width n).foldl (fun n c => n * 10 + (c.toNat - 48)) 0 = n := digitsValue_padded width n
  have hdrop : (c :: rest).dropWhile Char.isDigit = c :: rest :=
    List.dropWhile_cons_of_neg (by rw [hc]; exact Bool.false_ne_true)
  simp only [nanoseconds, takeWhile_take_digits hd hc (by omega : (padded width n).length ≤ 9), hne,
    Bool.false_eq_true, if_false, hvalue, List.drop_left, hdrop]
  rw [hlen]
  rfl

theorem fraction_read {n : Nat} (hn : n < billion) :
    fraction (fractionChars n ++ ['Z']) = some (n, ['Z']) := by
  have hz : Char.isDigit 'Z' = false := rfl
  have hb : n < 1000000000 := hn
  rw [fractionChars]
  split
  next h => rw [beq_iff_eq.mp h]; rfl
  next =>
    split
    next h =>
      have h := beq_iff_eq.mp h
      rw [List.cons_append, fraction, nanoseconds_read (by decide) (by decide) (by omega) hz]
      congr 2
      omega
    next =>
      split
      next h =>
        have h := beq_iff_eq.mp h
        rw [List.cons_append, fraction, nanoseconds_read (by decide) (by decide) (by omega) hz]
        congr 2
        omega
      next =>
        rw [List.cons_append, fraction, nanoseconds_read (by decide) (by decide) (by omega) hz]
        congr 2
        omega

theorem fraction_cons (nanos : Nat) : ∃ c r, fractionChars nanos ++ ['Z'] = c :: r ∧ c.isDigit = false := by
  rw [fractionChars]
  split
  · exact ⟨'Z', [], rfl, rfl⟩
  · split
    · exact ⟨'.', _, rfl, rfl⟩
    · split <;> exact ⟨'.', _, rfl, rfl⟩

/-! ### The instant that parts name -/

/-- The instant of these parts; a leap second counts on from the second before it. -/
def Fields.moment (f : Fields) (offset : Int) : Instant where
  seconds := (⟨f.year, f.month, f.day⟩ : Date).toDays * 86400 +
    (f.hour * 3600 + f.minute * 60 + (if f.second == 60 then 59 else f.second) : Nat) - offset * 60
  nanos := f.nanos + if f.second == 60 then billion else 0

theorem instant?_eq_some {f : Fields} {offset : Int} {t : Instant} :
    f.instant? offset = some t ↔
      yearInRange f.year = true ∧ (⟨f.year, f.month, f.day⟩ : Date).valid = true ∧ f.hour < 24 ∧ f.minute < 60 ∧
        f.second < 61 ∧ f.moment offset = t ∧ yearInRange t.date.year = true := by
  rw [Fields.instant?]
  split
  next h =>
    refine iff_of_false nofun ?_
    rintro ⟨hy, hd, hh, hm, hs, -, -⟩
    simp only [hy, hd, Bool.not_true, Bool.false_or, Bool.or_eq_true, decide_eq_true_eq] at h
    omega
  next h =>
    simp only [Bool.or_eq_true, Bool.not_eq_true', decide_eq_true_eq, not_or, Bool.not_eq_false, Nat.not_le] at h
    obtain ⟨⟨⟨⟨hy, hd⟩, hh⟩, hm⟩, hs⟩ := h
    simp only [hy, hd, hh, hm, hs, true_and]
    show (if yearInRange (f.moment offset).date.year = true then some (f.moment offset) else none) = some t ↔ _
    rw [Option.ite_none_right_eq_some, Option.some_inj, and_comm]
    refine and_congr_right fun h => ?_
    rw [h]

/-- The parts that an instant shows. -/
def Fields.of (t : Instant) : Fields where
  year := t.date.year
  month := t.date.month
  day := t.date.day
  hour := t.secondOfDay / 3600
  minute := t.secondOfDay / 60 % 60
  second := t.secondOfDay % 60 + if billion ≤ t.nanos then 1 else 0
  nanos := t.nanos % billion

theorem secondOfDay_lt (t : Instant) : t.secondOfDay < 86400 := by
  have hs : (t.secondOfDay : Int) = t.seconds % 86400 := Int.toNat_of_nonneg (by omega)
  omega

theorem instant?_of {t : Instant} (ht : t.Valid) : (Fields.of t).instant? 0 = some t := by
  have hday : t.date.toDays = t.seconds / 86400 := Date.toDays_ofDays _
  have hs : (t.secondOfDay : Int) = t.seconds % 86400 := Int.toNat_of_nonneg (by omega)
  have hb : billion = 1000000000 := rfl
  refine instant?_eq_some.mpr ⟨ht.year, Date.valid_ofDays _, ?_, ?_, ?_, ?_, ht.year⟩
  · show t.secondOfDay / 3600 < 24
    omega
  · exact Nat.mod_lt _ (by decide)
  · show (t.secondOfDay % 60 + if billion ≤ t.nanos then 1 else 0) < 61
    split <;> omega
  · have hparts : t.secondOfDay / 3600 * 3600 + t.secondOfDay / 60 % 60 * 60 + t.secondOfDay % 60 = t.secondOfDay := by
      omega
    have hdays : (⟨t.date.year, t.date.month, t.date.day⟩ : Date).toDays = t.seconds / 86400 := hday
    by_cases hleap : billion ≤ t.nanos
    · obtain ⟨h59, hlt⟩ := ht.nanos.resolve_left (Nat.not_lt.mpr hleap)
      have hsixty : t.secondOfDay % 60 + 1 = 60 := by omega
      simp only [Fields.moment, Fields.of, if_pos hleap, hsixty, hdays, beq_self_eq_true, if_true]
      congr 1
      · omega
      · rw [hb]
        omega
    · have hsixty : (t.secondOfDay % 60 + 0 == 60) = false := beq_eq_false_iff_ne.mpr (by omega)
      simp only [Fields.moment, Fields.of, if_neg hleap, hsixty, hdays, Bool.false_eq_true, if_false]
      congr 1
      · omega
      · rw [hb]
        omega

/-! ### Round trip -/

theorem relaxedTime_read (t : Instant) :
    relaxedTime true (t.clockChars ++ fractionChars (t.nanos % billion) ++ ['Z']) =
      some (((Fields.of t).hour, (Fields.of t).minute, (Fields.of t).second, (Fields.of t).nanos), ['Z']) := by
  have hday := secondOfDay_lt t
  have hhour : t.secondOfDay / 3600 < 100 := by omega
  have hminute : t.secondOfDay / 60 % 60 < 100 := by omega
  have hsecond : (t.secondOfDay % 60 + if billion ≤ t.nanos then 1 else 0) < 100 := by split <;> omega
  have hmark {s : List Char} : literal ':' (Text.trimStart (':' :: s)) = some ((), s) := rfl
  have hread : fraction (fractionChars (t.nanos % billion) ++ ['Z']) = some (t.nanos % billion, ['Z']) :=
    fraction_read (Nat.mod_lt _ (by decide))
  obtain ⟨c, r, hcr, hc⟩ := fraction_cons (t.nanos % billion)
  rw [hcr] at hread
  simp only [relaxedTime, clockChars, List.append_assoc, List.cons_append, if_true, hcr, hmark, Option.bind_eq_bind,
    Option.bind_some, shortField_read hhour (c := ':') rfl, shortField_read hminute (c := ':') rfl,
    shortField_read hsecond hc, hread]
  rfl

/-- The text of an instant is read back as the instant. -/
theorem relaxed_render {t : Instant} (ht : t.Valid) : relaxed t.renderChars = some (t, []) := by
  obtain ⟨hmonth, hday⟩ := Date.lt_hundred_of_valid (Date.valid_ofDays (t.seconds / 86400))
  have hdate (s : List Char) :
      relaxedDate '-' true (yearChars t.date.year ++ '-' :: (padded 2 t.date.month ++ '-' :: (padded 2 t.date.day ++ 'T' :: s))) =
        some ((t.date.year, t.date.month, t.date.day), 'T' :: s) := relaxedDate_read hmonth hday rfl
  have hmark : dateSeparator 'T' = true := rfl
  have hzone : relaxedZone (Text.trimStart ['Z']) = some (0, []) := by decide
  have hinstant : Fields.instant? ⟨t.date.year, t.date.month, t.date.day, (Fields.of t).hour, (Fields.of t).minute,
      (Fields.of t).second, (Fields.of t).nanos⟩ 0 = some t := instant?_of ht
  simp only [relaxed, renderChars, hdate, Option.bind_eq_bind, Option.bind_some, hmark, if_true, relaxedTime_read,
    hzone, hinstant]

end Time

namespace Instant

open Time

theorem ofRelaxed?_render {t : Instant} (ht : t.Valid) : ofRelaxed? t.render = some t := by
  simp only [ofRelaxed?, render, String.toList_ofList, relaxed_render ht, Option.bind_eq_bind, Option.bind_some]
  rfl

example : (⟨327403382399, 1999999999⟩ : Instant).render = "+12344-12-31T23:59:60.999999999Z" := by decide

/-! ### What is read is valid -/

theorem nanoseconds_lt {s rest : List Char} {n : Nat} (h : nanoseconds s = some (n, rest)) : n < billion := by
  rw [nanoseconds] at h
  split at h
  next => exact absurd h nofun
  next hne =>
    obtain ⟨rfl, -⟩ := Prod.mk.inj (Option.some.inj h)
    have hlen : ((s.take 9).takeWhile Char.isDigit).length ≤ 9 :=
      (List.takeWhile_prefix _).length_le.trans (List.length_take_le 9 s)
    have hdigits : ∀ c ∈ (s.take 9).takeWhile Char.isDigit, c.isDigit = true := fun _ => List.mem_takeWhile_imp
    generalize (s.take 9).takeWhile Char.isDigit = ds at hlen hdigits ⊢
    have hvalue := Json.digitsValue_lt hdigits
    calc Json.digitsValue ds * 10 ^ (9 - ds.length)
        < 10 ^ ds.length * 10 ^ (9 - ds.length) := Nat.mul_lt_mul_of_pos_right hvalue (Nat.pow_pos (by decide))
      _ = 10 ^ 9 := by rw [← Nat.pow_add, Nat.add_sub_cancel' hlen]

theorem fraction_lt {s rest : List Char} {n : Nat} (h : fraction s = some (n, rest)) : n < billion := by
  rw [fraction.eq_def] at h
  split at h
  · exact nanoseconds_lt h
  · obtain ⟨rfl, -⟩ := Prod.mk.inj (Option.some.inj h)
    decide

theorem valid_of_instant? {f : Fields} {offset : Int} {t : Instant} (hn : f.nanos < billion)
    (h : f.instant? offset = some t) : t.Valid := by
  obtain ⟨-, -, -, hm, -, rfl, hyear⟩ := instant?_eq_some.mp h
  refine ⟨hyear, ?_⟩
  have hb : billion = 1000000000 := rfl
  by_cases hleap : (f.second == 60) = true
  · right
    simp only [Fields.moment, hleap, if_true]
    omega
  · left
    simpa [Fields.moment, hleap] using hn

theorem relaxedTime_lt {blanks : Bool} {s rest : List Char} {hour minute second nanos : Nat}
    (h : relaxedTime blanks s = some ((hour, minute, second, nanos), rest)) : nanos < billion := by
  simp only [relaxedTime, Option.bind_eq_bind, Option.bind_eq_some_iff] at h
  obtain ⟨_, -, _, -, _, -, _, -, _, -, ⟨n, r⟩, hfraction, hparts⟩ := h
  obtain ⟨⟨-, -, -, rfl⟩, -⟩ := by simpa only [Option.some.injEq, Prod.mk.injEq] using hparts
  exact fraction_lt hfraction

theorem valid_of_relaxed {s rest : List Char} {t : Instant} (h : relaxed s = some (t, rest)) : t.Valid := by
  simp only [relaxed, Option.bind_eq_bind, Option.bind_eq_some_iff] at h
  obtain ⟨⟨⟨year, month, day⟩, s'⟩, -, h⟩ := h
  split at h
  next c r _ =>
    split at h
    · simp only [Option.bind_some, Option.bind_eq_some_iff] at h
      obtain ⟨⟨⟨hour, minute, second, nanos⟩, _⟩, htime, ⟨off, _⟩, -, u, hinstant, hu⟩ := h
      obtain ⟨rfl, -⟩ := Prod.mk.inj (Option.some.inj hu)
      exact valid_of_instant? (relaxedTime_lt htime) hinstant
    · exact absurd h nofun
  next => exact absurd h nofun

theorem valid_of_ofRelaxed? {s : String} {t : Instant} (h : ofRelaxed? s = some t) : t.Valid := by
  simp only [ofRelaxed?, Option.bind_eq_bind, Option.bind_eq_some_iff] at h
  obtain ⟨⟨u, rest⟩, hread, hu⟩ := h
  split at hu
  · obtain rfl := Option.some.inj hu
    exact valid_of_relaxed hread
  · exact absurd hu nofun

/-! ### The shortest fraction -/

/-- Digits that show these nanoseconds as a fraction of a second: none, or three, six or nine. -/
structure Fraction (nanos : Nat) (ds : List Char) : Prop where
  width : ds.length ∈ [0, 3, 6, 9]
  digits : ∀ c ∈ ds, c.isDigit = true
  value : Json.digitsValue ds * 10 ^ (9 - ds.length) = nanos

/-- The fraction that is written, its point in front of it if there are digits. -/
def pointed (ds : List Char) : List Char := if ds.isEmpty then [] else '.' :: ds

theorem fraction_padded {width n k : Nat} (hw : width ∈ [3, 6, 9]) (hk : k = n * 10 ^ (9 - width)) (hn : n < 10 ^ width) :
    Fraction k (padded width n) ∧ (padded width n).length = width := by
  have hpos : 0 < width := by
    simp only [List.mem_cons, List.not_mem_nil, or_false] at hw
    omega
  have hlen := length_padded hpos hn
  refine ⟨⟨?_, fun _ => isDigit_of_mem_padded, ?_⟩, hlen⟩
  · rw [hlen]
    exact List.mem_cons_of_mem 0 hw
  · rw [hlen, digitsValue_padded, hk]

theorem pointed_padded {width n : Nat} (hw : 0 < width) (hn : n < 10 ^ width) :
    pointed (padded width n) = '.' :: padded width n := by
  have hlen := length_padded hw hn
  rw [pointed, if_neg]
  intro h
  rw [List.isEmpty_iff.mp h] at hlen
  exact absurd hlen (Nat.ne_of_lt hw)

/-- Few digits show only few fractions. -/
theorem Fraction.width_cases {nanos : Nat} {ds : List Char} (h : Fraction nanos ds) :
    nanos = 0 ∨ 3 ≤ ds.length ∧ nanos % 1000000 = 0 ∨ 6 ≤ ds.length ∧ nanos % 1000 = 0 ∨ 9 ≤ ds.length := by
  obtain ⟨hwidth, -, hvalue⟩ := h
  simp only [List.mem_cons, List.not_mem_nil, or_false] at hwidth
  rcases hwidth with h | h | h | h <;> rw [h] at hvalue
  · rw [List.length_eq_zero_iff.mp h] at hvalue
    exact .inl (by rw [← hvalue]; rfl)
  · exact .inr (.inl (by omega))
  · exact .inr (.inr (.inl (by omega)))
  · exact .inr (.inr (.inr (by omega)))

/-- What is written for a fraction is the shortest that shows it. -/
theorem fractionChars_shortest {nanos : Nat} (hn : nanos < billion) :
    ∃ ds, fractionChars nanos = pointed ds ∧ Fraction nanos ds ∧ ∀ es, Fraction nanos es → ds.length ≤ es.length := by
  have hb : nanos < 1000000000 := hn
  rw [fractionChars]
  split
  next h =>
    obtain rfl := beq_iff_eq.mp h
    exact ⟨[], rfl, ⟨by decide, nofun, rfl⟩, fun _ _ => Nat.zero_le _⟩
  next h0 =>
    have h0 : nanos ≠ 0 := fun h => h0 (beq_iff_eq.mpr h)
    split
    next h =>
      have h := beq_iff_eq.mp h
      have hlt : nanos / 1000000 < 10 ^ 3 := by omega
      obtain ⟨hf, hlen⟩ := fraction_padded (k := nanos) (by decide : 3 ∈ [3, 6, 9]) (by omega) hlt
      refine ⟨_, (pointed_padded (by decide) hlt).symm, hf, fun es hes => ?_⟩
      have := hes.width_cases
      omega
    next h6 =>
      have h6 : nanos % 1000000 ≠ 0 := fun h => h6 (beq_iff_eq.mpr h)
      split
      next h =>
        have h := beq_iff_eq.mp h
        have hlt : nanos / 1000 < 10 ^ 6 := by omega
        obtain ⟨hf, hlen⟩ := fraction_padded (k := nanos) (by decide : 6 ∈ [3, 6, 9]) (by omega) hlt
        refine ⟨_, (pointed_padded (by decide) hlt).symm, hf, fun es hes => ?_⟩
        have := hes.width_cases
        omega
      next h3 =>
        have h3 : nanos % 1000 ≠ 0 := fun h => h3 (beq_iff_eq.mpr h)
        obtain ⟨hf, hlen⟩ := fraction_padded (k := nanos) (by decide : 9 ∈ [3, 6, 9]) (by omega) hb
        refine ⟨_, (pointed_padded (by decide) hb).symm, hf, fun es hes => ?_⟩
        have := hes.width_cases
        omega

theorem point_not_mem_padded (width n : Nat) : '.' ∉ padded width n :=
  fun h => absurd (isDigit_of_mem_padded h) (by decide)

/-- An instant is written as date and time of day to the second, without a point, and then the shortest
fraction. -/
theorem renderChars_shortest (t : Instant) :
    ∃ front ds, t.renderChars = front ++ pointed ds ++ ['Z'] ∧ '.' ∉ front ∧ Fraction (t.nanos % billion) ds ∧
      ∀ es, Fraction (t.nanos % billion) es → ds.length ≤ es.length := by
  obtain ⟨ds, hds, hf, hleast⟩ := fractionChars_shortest (Nat.mod_lt t.nanos (by decide : 0 < billion))
  refine ⟨yearChars t.date.year ++ '-' :: (padded 2 t.date.month ++ '-' :: (padded 2 t.date.day ++ 'T' :: t.clockChars)),
    ds, ?_, ?_, hf, hleast⟩
  · rw [renderChars, hds]
    simp only [List.append_assoc, List.cons_append]
  · have hyear : '.' ∉ yearChars t.date.year := by
      rw [yearChars]
      split
      · exact point_not_mem_padded _ _
      · split <;> simp [point_not_mem_padded]
    simp [hyear, clockChars, point_not_mem_padded]

end Instant

end StackDeck
