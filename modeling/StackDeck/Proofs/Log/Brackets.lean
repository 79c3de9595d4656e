import StackDeck.Proofs.Log.Plain
import StackDeck.Proofs.Time.Forms

/-!
Lines that begin with a level and a time in brackets. The first two brackets of such a line are found whatever blanks
stand around them and whatever brackets follow, so level, time and message are read back as they were written.
-/

namespace StackDeck

namespace Log

open Text Time

namespace Bracketed

/-- A line with a level and a time in brackets and a message behind them, and blanks wherever they may stand. -/
structure Layout where
  before : List Char
  name : List Char
  between : List Char
  time : List Char
  behind : List Char
  message : List Char
  before_blank : before.all isSpace = true
  between_blank : between.all isSpace = true
  behind_blank : behind.all isSpace = true
  name_letters : name.all Char.isAlpha = true
  time_inside : ']' ∉ time
  message_starts : ∀ c ∈ message.head?, isSpace c = false
  message_line : '\n' ∉ message

def Layout.line (l : Layout) : List Char :=
  l.before ++ '[' :: (l.name ++ ']' :: (l.between ++ '[' :: (l.time ++ ']' :: (l.behind ++ l.message))))

variable {inner rest s : List Char}

/-- A bracket reaches to the first that closes. -/
theorem bracket?_eq (h : ']' ∉ inner) (rest : List Char) :
    bracket? ('[' :: (inner ++ ']' :: rest)) = if inner.isEmpty then none else some (inner, rest) := by
  have hopen : ∀ c ∈ inner, (c != ']') = true := by
    intro c hc
    rw [bne_iff_ne]
    rintro rfl
    exact h hc
  have htake : (inner ++ ']' :: rest).takeWhile (· != ']') = inner := by
    rw [List.takeWhile_append_of_pos hopen, List.takeWhile_cons_of_neg (by decide), List.append_nil]
  have hdrop : (inner ++ ']' :: rest).dropWhile (· != ']') = ']' :: rest := by
    rw [List.dropWhile_append_of_pos hopen, List.dropWhile_cons_of_neg (by decide)]
  simp only [bracket?, hdrop, htake]

/-- Blanks in front of a text that does not begin with one are all that is trimmed there. -/
theorem trimStart_blanks {blanks : List Char} (hblanks : blanks.all isSpace = true) (hs : ∀ c ∈ s.head?, isSpace c = false) :
    trimStart (blanks ++ s) = s := by
  rw [trimStart_spaces hblanks]
  cases s with
  | nil => rfl
  | cons c r => exact List.dropWhile_cons_of_neg (by simp [hs c rfl])

theorem trimStart_bracket {blanks : List Char} (hblanks : blanks.all isSpace = true) :
    trimStart (blanks ++ '[' :: s) = '[' :: s := by
  refine trimStart_blanks hblanks ?_
  rintro c hc
  obtain rfl := Option.some.inj hc
  rfl

theorem close_not_mem {name : List Char} (h : name.all Char.isAlpha = true) : ']' ∉ name :=
  fun hmem => absurd (List.all_eq_true.mp h _ hmem) (by decide)

/-- What remains to be read behind the first bracket. -/
def afterName (name rest : List Char) : Option (Option Instant × Level × List Char) := do
  let (time, rest) ← bracket? (trimStart rest)
  let message := trimStart rest
  if message.contains '\n' then none
  let level ← Level.ofName? (String.ofList name)
  some (Instant.ofLogText? (String.ofList (trim time)), level, message)

theorem read?_eq {before name : List Char} (hbefore : before.all isSpace = true) (hclose : ']' ∉ name) (hne : name ≠ [])
    (rest : List Char) : read? (before ++ '[' :: (name ++ ']' :: rest)) =
      if name.all Char.isAlpha then afterName name rest else none := by
  have hfirst : bracket? (trimStart (before ++ '[' :: (name ++ ']' :: rest))) = some (name, rest) := by
    rw [trimStart_bracket hbefore, bracket?_eq hclose, if_neg (by simpa using hne)]
  rw [read?, hfirst]
  show (if !name.all Char.isAlpha then none else afterName name rest) = _
  by_cases hletters : name.all Char.isAlpha = true
  · rw [if_pos hletters, if_neg (by rw [hletters]; exact Bool.false_ne_true)]
  · rw [if_neg hletters, if_pos (by simpa using hletters)]

/-- Where the first bracket holds no level that is known, a line is not read by its brackets. -/
theorem read?_unknown {before name : List Char} (hbefore : before.all isSpace = true) (hclose : ']' ∉ name)
    (hname : name.all Char.isAlpha = true → Level.ofName? (String.ofList name) = none) (rest : List Char) :
    read? (before ++ '[' :: (name ++ ']' :: rest)) = none := by
  by_cases hne : name = []
  · rw [hne, read?, trimStart_bracket hbefore, bracket?_eq (by simp)]
    rfl
  · rw [read?_eq hbefore hclose hne]
    split
    next hletters =>
      rw [afterName, hname hletters]
      cases bracket? (trimStart rest) <;> simp
    next => rfl

theorem read?_line (l : Layout) {level : Level} (hlevel : Level.ofName? (String.ofList l.name) = some level)
    (htime : l.time ≠ []) :
    read? l.line = some (Instant.ofLogText? (String.ofList (trim l.time)), level, l.message) := by
  have hne : l.name ≠ [] := by
    intro h
    have hnone : Level.ofName? (String.ofList []) = none := by decide
    rw [h, hnone] at hlevel
    exact absurd hlevel nofun
  have hsecond : bracket? (trimStart (l.between ++ '[' :: (l.time ++ ']' :: (l.behind ++ l.message)))) =
      some (l.time, l.behind ++ l.message) := by
    rw [trimStart_bracket l.between_blank, bracket?_eq l.time_inside, if_neg (by simpa using htime)]
  have hmessage : trimStart (l.behind ++ l.message) = l.message := trimStart_blanks l.behind_blank l.message_starts
  have hline : l.message.contains '\n' = false := by simpa using l.message_line
  rw [Layout.line, read?_eq l.before_blank (close_not_mem l.name_letters) hne, if_pos l.name_letters, afterName, hsecond]
  simp [hmessage, hlevel, l.message_line]

/-- A line without control characters that begins with a level and a time in brackets, and is not read as pairs, has
that level and that message, whatever brackets, levels and pairs the message holds, and the one instant at which the
clock shows the time, at the offset that is stated with it or in UTC. The same holds of any line that is such a line
once cleaned. Where the time has no form, or shows no date and time of day, the line is stamped `now`. Where the first
bracket holds no level that is known, the brackets tell nothing and the whole cleaned line is the message. -/
theorem lines_read_back (now : Instant) (service : String) :
    (∀ l : Layout, isPlain l.line = true → clean l.line = l.line) ∧
    (∀ (raw : String) (l : Layout) (level : Level), clean raw.toList = l.line → Logfmt.read? l.line = none →
      Level.ofName? (String.ofList l.name) = some level →
        (∀ f off, Shows (trim l.time) f off → f.IsReal → ∃ t : Instant,
          parseLine now service raw = ⟨service, t, level, String.ofList l.message, raw⟩ ∧
            t.Valid ∧ shown t off = f ∧ ∀ u : Instant, u.Valid → shown u off = f → u = t) ∧
        (l.time ≠ [] → (∀ f off, Shows (trim l.time) f off → ¬f.IsReal) →
          parseLine now service raw = ⟨service, now, level, String.ofList l.message, raw⟩)) ∧
    (∀ (raw : String) (before name rest : List Char), clean raw.toList = before ++ '[' :: (name ++ ']' :: rest) →
      before.all isSpace = true → ']' ∉ name →
      (name.all Char.isAlpha = true → Level.ofName? (String.ofList name) = none) →
      Logfmt.read? (clean raw.toList) = none →
        parseLine now service raw =
          ⟨service, now, Keyword.level (clean raw.toList), String.ofList (clean raw.toList), raw⟩) := by
  refine ⟨fun l hplain => clean_plain hplain, fun raw l level hline hpairs hlevel => ?_,
    fun raw before name rest hline hbefore hclose hname hpairs => ?_⟩
  · have hread (htime : l.time ≠ []) : parseLine now service raw = ⟨service,
        (Instant.ofLogText? (String.ofList (trim l.time))).getD now, level, String.ofList l.message, raw⟩ := by
      rw [parseLine, hline, hpairs, read?_line l hlevel htime]
      rfl
    refine ⟨fun f off hshows hreal => ?_, fun htime hnone => ?_⟩
    · have htime : l.time ≠ [] := by
        intro h
        rw [h] at hshows
        exact hshows.ne_nil rfl
      rw [← String.toList_ofList (l := trim l.time)] at hshows
      obtain ⟨t, ht, hvalid, hshown, hunique⟩ := hshows.ofLogText?_eq hreal
      exact ⟨t, by rw [hread htime, ht]; rfl, hvalid, hshown, hunique⟩
    · have hunread : Instant.ofLogText? (String.ofList (trim l.time)) = none := by
        rw [Option.eq_none_iff_forall_ne_some]
        intro t ht
        obtain ⟨f, off, hshows, hreal⟩ := shows_of_ofLogText? ht
        rw [String.toList_ofList] at hshows
        exact hnone f off hshows hreal
      rw [hread htime, hunread]
      rfl
  · have hread : read? (clean raw.toList) = none := by
      rw [hline]
      exact read?_unknown hbefore hclose hname rest
    rw [parseLine, hpairs, hread]
    rfl

/-- Brackets, levels and pairs in a message belong to the message. -/
theorem message_keeps_its_brackets :
    parseLine ⟨0, 0⟩ "db" " [wRn]  [2024-05-01T08:00:01.25+02:00] [ERROR] retry=3 (fatal)" =
      ⟨"db", ⟨1714543201, 250000000⟩, .warn, "[ERROR] retry=3 (fatal)",
        " [wRn]  [2024-05-01T08:00:01.25+02:00] [ERROR] retry=3 (fatal)"⟩ := by
  let l : Layout := ⟨[' '], "wRn".toList, [' ', ' '], "2024-05-01T08:00:01.25+02:00".toList, [' '],
    "[ERROR] retry=3 (fatal)".toList, rfl, rfl, rfl, rfl, by decide,
    fun c hc => Option.some.inj hc ▸ rfl, by decide⟩
  have hstrict : IsStrict ("2024".toList ++ '-' :: ("05".toList ++ '-' :: ("01".toList ++ 'T' :: ("08".toList ++ ':' ::
      ("00".toList ++ ':' :: ("01".toList ++ ('.' :: "25".toList ++ ('+' :: ("02".toList ++ ':' :: "00".toList)))))))))
      ⟨(2024 : Nat), 5, 1, 8, 0, 1, 25 * Instant.billion / 10 ^ 2⟩ (2 * 60 + 0 : Nat) := by
    refine .mk ?_ ?_ ?_ (.inl rfl) ?_ ?_ ?_ (.point ?_) (.ahead ?_ ?_ ?_ ?_)
    all_goals first | decide | exact ⟨List.all_eq_true.mp rfl, by decide, by decide, rfl⟩
  have hshows : Shows (trim l.time) _ _ := .strict hstrict
  have hline : clean " [wRn]  [2024-05-01T08:00:01.25+02:00] [ERROR] retry=3 (fatal)".toList = l.line := by decide +kernel
  obtain ⟨hread, -⟩ := (lines_read_back ⟨0, 0⟩ "db").2.1 _ l .warn hline (by decide +kernel) (by decide)
  obtain ⟨t, hline, -, -, hunique⟩ := hread _ _ hshows ⟨by decide, by decide, by decide, by decide, by decide⟩
  obtain rfl := hunique ⟨1714543201, 250000000⟩ ⟨by decide, by decide⟩ rfl
  exact hline

/-- Blanks of any kind may stand between date and time of day, but a tab there is lost when the line is cleaned: day and
hour become one number, and the line is stamped with another day. -/
theorem tab_moves_the_day :
    Shows "2024-1-1\t08:00:00".toList ⟨2024, 1, 1, 8, 0, 0, 0⟩ 0 ∧
    shown ⟨1704096000, 0⟩ 0 = ⟨2024, 1, 1, 8, 0, 0, 0⟩ ∧ shown ⟨1704873600, 0⟩ 0 = ⟨2024, 1, 10, 8, 0, 0, 0⟩ ∧
    Logfmt.read? "[INFO][2024-1-1\t08:00:00] x".toList = none ∧
    parseLine ⟨0, 0⟩ "api" "[INFO][2024-1-1\t08:00:00] x" =
      ⟨"api", ⟨1704873600, 0⟩, .info, "x", "[INFO][2024-1-1\t08:00:00] x"⟩ := by
  have hform : NaiveForm.Shows ⟨'-', none⟩ ("2024".toList ++ '-' :: ("1".toList ++ '-' :: ("1".toList ++ ("\t".toList ++
      ("08".toList ++ ':' :: ("00".toList ++ ':' :: ("00".toList ++ []))))))) ⟨2024, 1, 1, 8, 0, 0, 0⟩ := by
    refine .mk (.bare List.all_nil ?_) (.mk List.all_nil ?_) (.mk List.all_nil ?_) rfl nofun (.mk List.all_nil ?_)
      (.mk List.all_nil ?_) (.mk List.all_nil ?_) .whole
    all_goals exact ⟨List.all_eq_true.mp rfl, by decide, by decide, rfl⟩
  exact ⟨.naive List.mem_cons_self hform, rfl, rfl, by decide +kernel, by decide +kernel⟩

end Bracketed

end Log

end StackDeck
