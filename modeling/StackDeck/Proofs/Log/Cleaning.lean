import StackDeck.Proofs.Digits
import StackDeck.Proofs.Log.Plain

/-!
What cleaning takes from a line. A complete sequence that sets colours lets nothing through and leaves the reader of
the terminal as it found it, wherever it stands between characters: a line with colours is read as the line without.
Of a line that has no escape sequence, cleaning still takes the tabs.
-/

namespace StackDeck

namespace Text

variable {s t params : List Char}

/-- Printable characters, spaces and tabs. -/
def isOrdinary (s : List Char) : Bool := s.all fun c => c == '\t' || !isControl c

def untabbed (s : List Char) : List Char := s.filter (· != '\t')

/-- What may stand in a sequence that sets colours. -/
def isParameter (c : Char) : Bool := c.isDigit || c == ';'

/-- The sequence that sets the colours of these parameters. -/
def colour (params : List Char) : List Char := '\x1b' :: '[' :: (params ++ ['m'])

/-- The second text is the first with colours set in front of its characters, between them or behind them. -/
inductive Coloured : List Char → List Char → Prop
  | nil : Coloured [] []
  | char (c : Char) {s t : List Char} (h : Coloured s t) : Coloured (c :: s) (c :: t)
  | colour {params s t : List Char} (hp : params.all isParameter = true) (h : Coloured s t) :
      Coloured s (Text.colour params ++ t)

theorem isPlain_untabbed (h : isOrdinary s = true) : isPlain (untabbed s) = true := by
  refine List.all_eq_true.mpr fun c hc => ?_
  obtain ⟨hmem, hne⟩ := List.mem_filter.mp hc
  have hshown := List.all_eq_true.mp h c hmem
  have htab : (c == '\t') = false := by simpa using hne
  rwa [htab, Bool.false_or] at hshown

theorem untabbed_eq_self (h : '\t' ∉ s) : untabbed s = s := by
  refine List.filter_eq_self.mpr fun c hc => ?_
  have hne : c ≠ '\t' := fun he => h (he ▸ hc)
  simpa using hne

namespace Ansi

/-- Ordinary text loses its tabs. -/
theorem strip_ordinary (h : isOrdinary s = true) : strip s = untabbed s := by
  induction s with
  | nil => rfl
  | cons c r ih =>
    obtain ⟨hc, hr⟩ : (c == '\t' || !isControl c) = true ∧ isOrdinary r = true := by simpa [isOrdinary] using h
    have hrest : stripFrom .ground r = untabbed r := ih hr
    by_cases htab : c = '\t'
    · subst htab
      exact hrest
    · have hshown : isControl c = false := by simpa [htab] using hc
      have hkeep : untabbed (c :: r) = c :: untabbed r := List.filter_cons_of_pos (by simpa using htab)
      rw [strip, stripFrom, step_ground hshown, hrest, hkeep]
      rfl

theorem isParameter_bounds {c : Char} (h : isParameter c = true) : 0x30 ≤ c.toNat ∧ c.toNat ≤ 0x3B := by
  simp only [isParameter, Bool.or_eq_true, beq_iff_eq] at h
  rcases h with h | rfl
  · have := Json.toNat_of_isDigit h
    omega
  · decide

/-- A parameter keeps the reader among the parameters, and a newcomer gets there by it. -/
theorem step_parameter {c : Char} (h : isParameter c = true) :
    step .csiEntry c = (.csiParam, []) ∧ step .csiParam c = (.csiParam, []) := by
  have hbounds := isParameter_bounds h
  have hfinal : between c.toNat 0x40 0x7E = false := by
    simp [between]
    omega
  have hintermediate : between c.toNat 0x20 0x2F = false := by
    simp [between]
    omega
  have hparameter : between c.toNat 0x30 0x3F = true := by
    simp [between]
    omega
  have hprivate : between c.toNat 0x3C 0x3F = false := by
    simp [between]
    omega
  have hstay : anywhere .csiParam c.toNat = .csiParam := by
    have hcancel : (c.toNat == 0x18 || c.toNat == 0x1A) = false := by
      simp
      omega
    have hrestart : (c.toNat == 0x1B) = false := by
      simp
      omega
    simp [anywhere, hcancel, hrestart]
  have hsilent : executed c = [] := by
    have hfeed : (c == '\n') = false := by
      rw [beq_eq_false_iff_ne]
      rintro rfl
      exact absurd h (by decide)
    simp [executed, hfeed]
  constructor
  · simp [step, hfinal, hintermediate, hparameter]
  · simp [step, hfinal, hintermediate, hprivate, hstay, hsilent]

theorem stripFrom_csiParam (hp : params.all isParameter = true) (t : List Char) :
    stripFrom .csiParam (params ++ 'm' :: t) = strip t := by
  induction params with
  | nil => rfl
  | cons c r ih =>
    obtain ⟨hc, hr⟩ : isParameter c = true ∧ r.all isParameter = true := by simpa using hp
    rw [List.cons_append, stripFrom, (step_parameter hc).2]
    exact ih hr

/-- A sequence that sets colours shows nothing, and what follows it is read as if it were not there. -/
theorem strip_colour (hp : params.all isParameter = true) (t : List Char) : strip (colour params ++ t) = strip t := by
  have hentry : strip (colour params ++ t) = stripFrom .csiEntry (params ++ 'm' :: t) := by
    rw [← List.singleton_append (x := 'm'), ← List.append_assoc]
    rfl
  rw [hentry]
  cases params with
  | nil => rfl
  | cons c r =>
    obtain ⟨hc, hr⟩ : isParameter c = true ∧ r.all isParameter = true := by simpa using hp
    rw [List.cons_append, stripFrom, (step_parameter hc).1]
    exact stripFrom_csiParam hr t

/-- Between characters of a text without escapes the reader is always on the ground, where colours do nothing. -/
theorem strip_coloured (h : Coloured s t) (hs : '\x1b' ∉ s) : strip t = strip s := by
  induction h with
  | nil => rfl
  | char c h ih =>
    obtain ⟨hc, hr⟩ := not_or.mp fun hmem => hs (List.mem_cons.mpr hmem)
    have hstart : (c.toNat == 0x1B) = false := by
      rw [beq_eq_false_iff_ne]
      intro he
      exact hc (Char.toNat_inj.mp he.symm)
    have hground : (step .ground c).1 = .ground := by simp [step, hstart]
    have hrest := ih hr
    rw [strip, strip] at hrest
    rw [strip, strip, stripFrom, stripFrom, hground, hrest]
  | colour hp h ih => rw [strip_colour hp, ih hs]

end Ansi

end Text

namespace Log

open Text

theorem escape_not_mem {s : List Char} (h : isOrdinary s = true) : '\x1b' ∉ s :=
  fun hmem => absurd (List.all_eq_true.mp h _ hmem) (by decide)

theorem clean_ordinary {s : List Char} (h : isOrdinary s = true) : clean s = untabbed s := by
  have hplain := isPlain_untabbed h
  calc clean s = clean (untabbed s) := by rw [clean, clean, Ansi.strip_ordinary h, Ansi.strip_plain hplain]
    _ = untabbed s := clean_plain hplain

/-- What a line is read as depends on what is left of it when cleaned; only `raw` is kept as it came. -/
theorem parseLine_congr {raw raw' : String} (h : clean raw'.toList = clean raw.toList) (now : Instant)
    (service : String) : parseLine now service raw' = { parseLine now service raw with raw := raw' } := by
  rw [parseLine, parseLine, h]

/-- Colours, wherever they are set in a line of printable characters, spaces and tabs, change nothing of what it is
read as, whatever the time now. Without tabs such a line is read as it stands, and is its own message where it follows
no format. The tabs are taken away with the colours: a line is read as if its tabs were not there, so that what they
separate runs together. -/
theorem cleaning_takes_colours_and_tabs (now : Instant) (service raw : String) (hraw : isOrdinary raw.toList = true) :
    (∀ coloured : String, Coloured raw.toList coloured.toList →
      parseLine now service coloured = { parseLine now service raw with raw := coloured }) ∧
    clean raw.toList = untabbed raw.toList ∧
    parseLine now service raw = { parseLine now service (String.ofList (untabbed raw.toList)) with raw := raw } ∧
    (Logfmt.read? (untabbed raw.toList) = none → Bracketed.read? (untabbed raw.toList) = none →
      (parseLine now service raw).message = String.ofList (untabbed raw.toList)) ∧
    ('\t' ∉ raw.toList → clean raw.toList = raw.toList ∧
      (Logfmt.read? raw.toList = none → Bracketed.read? raw.toList = none →
        (parseLine now service raw).message = raw)) := by
  have hclean := clean_ordinary hraw
  have hmessage (hpairs : Logfmt.read? (untabbed raw.toList) = none)
      (hbrackets : Bracketed.read? (untabbed raw.toList) = none) :
      (parseLine now service raw).message = String.ofList (untabbed raw.toList) := by
    rw [parseLine, hclean, hpairs, hbrackets]
    rfl
  refine ⟨fun coloured hc => parseLine_congr ?_ now service, hclean, parseLine_congr ?_ now service, hmessage,
    fun htab => ?_⟩
  · rw [clean, clean, Ansi.strip_coloured hc (escape_not_mem hraw)]
  · rw [hclean, String.toList_ofList, clean_plain (isPlain_untabbed hraw)]
  · rw [untabbed_eq_self htab] at hclean hmessage
    refine ⟨hclean, fun hpairs hbrackets => ?_⟩
    rw [hmessage hpairs hbrackets, String.ofList_toList]

/-- Colours inside a keyword do not hide it. -/
theorem coloured_keyword_is_found :
    parseLine ⟨0, 0⟩ "db" "\x1b[1;31mfa\x1b[mtal: no\tspace" =
      ⟨"db", ⟨0, 0⟩, .error, "fatal: nospace", "\x1b[1;31mfa\x1b[mtal: no\tspace"⟩ := by
  have hcoloured : Coloured "fatal: no\tspace".toList "\x1b[1;31mfa\x1b[mtal: no\tspace".toList := by
    have hbold : ['1', ';', '3', '1'].all isParameter = true := rfl
    refine .colour hbold (.char _ (.char _ (.colour List.all_nil ?_)))
    repeat' constructor
  have hread := (cleaning_takes_colours_and_tabs ⟨0, 0⟩ "db" "fatal: no\tspace" (by decide)).1 _ hcoloured
  rw [hread]
  decide +kernel

/-- A tab inside a line that follows no format is lost from the message, and the words on both sides of it become one.
Pairs with a tab between them are not found. -/
theorem tab_joins_what_it_separates :
    (isOrdinary "war\tn".toList = true ∧ Logfmt.read? (clean "war\tn".toList) = none ∧
      Bracketed.read? (clean "war\tn".toList) = none ∧
      parseLine ⟨0, 0⟩ "api" "war\tn" = ⟨"api", ⟨0, 0⟩, .warn, "warn", "war\tn"⟩) ∧
    parseLine ⟨0, 0⟩ "api" "time=2024-05-01T10:20:30Z level=warn msg=slow" =
      ⟨"api", ⟨1714558830, 0⟩, .warn, "slow", "time=2024-05-01T10:20:30Z level=warn msg=slow"⟩ ∧
    parseLine ⟨0, 0⟩ "api" "time=2024-05-01T10:20:30Z\tlevel=warn\tmsg=slow" =
      ⟨"api", ⟨0, 0⟩, .info, "time=2024-05-01T10:20:30Zlevel=warnmsg=slow",
        "time=2024-05-01T10:20:30Z\tlevel=warn\tmsg=slow"⟩ := by
  decide +kernel

end Log

end StackDeck
