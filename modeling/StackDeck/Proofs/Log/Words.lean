import Mathlib.Data.List.TakeWhile
import StackDeck.Log.Parser

/-!
A line that follows no format has the level that its words tell. The words of a text are its maximal runs of word
characters; a keyword counts where it is one of them, in any case, and never as a part of one.
-/

namespace StackDeck

namespace Text

variable {c : Char} {s w : List Char} {inWord : Bool}

/-- What stands between characters that belong to no word, from left to right. -/
def pieces (s : List Char) : List (List Char) := s.splitOnP fun c => !isWord c

/-- The words of a text: its maximal runs of word characters, from left to right. -/
def words (s : List Char) : List (List Char) := (pieces s).filter fun w => !w.isEmpty

theorem pieces_stop (hc : isWord c = false) (s : List Char) : pieces (c :: s) = [] :: pieces s := by
  simp [pieces, List.splitOnP_cons_eq_if_modifyHead, hc]

theorem pieces_word (hc : isWord c = true) (s : List Char) : pieces (c :: s) = (pieces s).modifyHead (c :: ·) := by
  simp [pieces, List.splitOnP_cons_eq_if_modifyHead, hc]

/-- The first piece is the run of word characters at the front. -/
theorem pieces_front (s : List Char) : ∃ rest, pieces s = s.takeWhile isWord :: rest := by
  induction s with
  | nil => exact ⟨[], rfl⟩
  | cons c r ih =>
    obtain ⟨rest, hr⟩ := ih
    by_cases hc : isWord c = true
    · exact ⟨rest, by rw [pieces_word hc, hr, List.modifyHead_cons, List.takeWhile_cons_of_pos hc]⟩
    · exact ⟨pieces r, by rw [pieces_stop (by simpa using hc), List.takeWhile_cons_of_neg hc]⟩

/-- The pieces that begin inside a text; where a word reaches up to its front, the first piece does not. -/
def piecesAfter (inWord : Bool) (s : List Char) : List (List Char) := if inWord then (pieces s).tail else pieces s

theorem piecesAfter_stop (hc : isWord c = false) (s : List Char) :
    piecesAfter inWord (c :: s) = (if inWord then [] else [[]]) ++ piecesAfter false s := by
  cases inWord <;> simp [piecesAfter, pieces_stop hc]

theorem piecesAfter_word (hc : isWord c = true) (s : List Char) :
    piecesAfter inWord (c :: s) = (if inWord then [] else [c :: s.takeWhile isWord]) ++ piecesAfter true s := by
  obtain ⟨rest, hr⟩ := pieces_front s
  cases inWord <;> simp [piecesAfter, pieces_word hc, hr]

/-- No word goes on into the text. -/
def Stops (s : List Char) : Prop := ∀ c ∈ s.head?, isWord c = false

/-- No word reaches the end of the text; of an empty one, `inWord` says whether a word reaches up to it. -/
def Ceases (inWord : Bool) (s : List Char) : Prop := (s.getLast?.map isWord).getD inWord = false

theorem ceases_cons : Ceases inWord (c :: s) ↔ Ceases (isWord c) s := by
  rw [Ceases, Ceases, List.getLast?_cons]
  cases s.getLast? <;> rfl

theorem takeWhile_run {after : List Char} (hw : w.all isWord = true) (hafter : Stops after) :
    (w ++ after).takeWhile isWord = w := by
  have hstop : after.takeWhile isWord = [] := by
    cases after with
    | nil => rfl
    | cons c r => exact List.takeWhile_cons_of_neg (by simp [hafter c rfl])
  rw [List.takeWhile_append_of_pos (List.all_eq_true.mp hw), hstop, List.append_nil]

theorem stops_dropWhile (s : List Char) : Stops (s.dropWhile isWord) := by
  intro c hc
  have hhead := List.head?_dropWhile_not isWord s
  rw [hc] at hhead
  simpa using hhead

/-- A run at the very front begins with the first character or is empty. -/
theorem run_front_iff : (∃ after, c :: s = w ++ after ∧ w.all isWord = true ∧ Stops after) ↔
    w = if isWord c then c :: s.takeWhile isWord else [] := by
  constructor
  · rintro ⟨after, hs, hw, hafter⟩
    have hfront := takeWhile_run hw hafter
    rw [← hs] at hfront
    rw [← hfront]
    by_cases hc : isWord c = true <;> simp [hc]
  · intro h
    refine ⟨(c :: s).dropWhile isWord, ?_, ?_, stops_dropWhile _⟩
    · rw [h]
      by_cases hc : isWord c = true <;> simp [hc]
    · rw [h]
      split
      next hc => simp [hc]
      next => rfl

/-- A piece is a run of word characters that no word character touches. -/
theorem mem_piecesAfter_iff : w ∈ piecesAfter inWord s ↔
    ∃ before after, s = before ++ (w ++ after) ∧ w.all isWord = true ∧ Ceases inWord before ∧ Stops after := by
  induction s generalizing inWord with
  | nil =>
    constructor
    · cases inWord with
      | true => exact fun h => absurd h (by simp [piecesAfter, pieces])
      | false =>
        intro h
        obtain rfl : w = [] := by simpa [piecesAfter, pieces] using h
        exact ⟨[], [], rfl, rfl, rfl, nofun⟩
    · rintro ⟨before, after, hs, -, hbefore, -⟩
      obtain ⟨rfl, hrest⟩ := List.append_eq_nil_iff.mp hs.symm
      obtain ⟨rfl, rfl⟩ := List.append_eq_nil_iff.mp hrest
      obtain rfl : inWord = false := hbefore
      simp [piecesAfter, pieces]
  | cons c r ih =>
    -- Either the run begins with the text, or it stands in what follows the first character.
    have hsplit : (∃ before after, c :: r = before ++ (w ++ after) ∧ w.all isWord = true ∧
        Ceases inWord before ∧ Stops after) ↔
        (inWord = false ∧ w = if isWord c then c :: r.takeWhile isWord else []) ∨
          w ∈ piecesAfter (isWord c) r := by
      rw [ih, ← run_front_iff]
      constructor
      · rintro ⟨before, after, hs, hw, hbefore, hafter⟩
        cases before with
        | nil => exact .inl ⟨hbefore, after, hs, hw, hafter⟩
        | cons d b =>
          obtain ⟨rfl, hr⟩ := List.cons.inj hs
          exact .inr ⟨b, after, hr, hw, ceases_cons.mp hbefore, hafter⟩
      · rintro (⟨hword, after, hs, hw, hafter⟩ | ⟨b, after, hr, hw, hbefore, hafter⟩)
        · exact ⟨[], after, hs, hw, hword, hafter⟩
        · exact ⟨c :: b, after, by rw [hr, List.cons_append], hw, ceases_cons.mpr hbefore, hafter⟩
    rw [hsplit]
    by_cases hc : isWord c = true
    · rw [piecesAfter_word hc, List.mem_append, hc, if_pos rfl]
      cases inWord <;> simp
    · have hc : isWord c = false := by simpa using hc
      rw [piecesAfter_stop hc, List.mem_append, hc]
      cases inWord <;> simp

theorem mem_words_iff : w ∈ words s ↔ w ≠ [] ∧ ∃ before after, s = before ++ (w ++ after) ∧
    w.all isWord = true ∧ (∀ c ∈ before.getLast?, isWord c = false) ∧ ∀ c ∈ after.head?, isWord c = false := by
  have hceases (before : List Char) : Ceases false before ↔ ∀ c ∈ before.getLast?, isWord c = false := by
    rw [Ceases]
    cases before.getLast? <;> simp
  have hpieces : w ∈ piecesAfter false s ↔ _ := mem_piecesAfter_iff
  rw [words, List.mem_filter, and_comm]
  refine and_congr (by simp) (hpieces.trans ?_)
  simp only [hceases, Stops]

/-! ### Case -/

/-- A text without regard to the case of ASCII letters. -/
def lowered (s : List Char) : String := String.ofList (s.map Char.toLower)

theorem isWord_toLower (c : Char) : isWord c.toLower = isWord c := by
  by_cases hc : 'A'.val ≤ c.val ∧ c.val ≤ 'Z'.val
  · have hletters : ∀ k : Fin 26, isWord (Char.ofNat (65 + k)).toLower = isWord (Char.ofNat (65 + k)) := by decide
    have hlow : 65 ≤ c.toNat := UInt32.le_iff_toNat_le.mp hc.1
    have hhigh : c.toNat ≤ 90 := UInt32.le_iff_toNat_le.mp hc.2
    have hletter := hletters ⟨c.toNat - 65, by omega⟩
    rwa [Nat.add_sub_cancel' hlow, Char.ofNat_toNat] at hletter
  · have hsame : c.toLower = c := dif_neg hc
    rw [hsame]

end Text

namespace Log

open Text

namespace Keyword

variable {keywords : List (List Char)}

/-- A keyword stands at the front of a text if it is the run of word characters there. -/
theorem startsWithWord_eq {k : List Char} (hk : k.all isWord = true) (s : List Char) :
    startsWithWord k s = ((s.takeWhile isWord).map Char.toLower == k) := by
  induction k generalizing s with
  | nil =>
    cases s with
    | nil => rfl
    | cons c r => by_cases hc : isWord c = true <;> simp [startsWithWord, hc]
  | cons k ks ih =>
    obtain ⟨hfirst, hrest⟩ : isWord k = true ∧ ks.all isWord = true := by simpa using hk
    cases s with
    | nil => rfl
    | cons c r =>
      rw [startsWithWord, ih hrest]
      by_cases hc : isWord c = true
      · simp [hc]
      · have hne : c.toLower ≠ k := by
          rintro rfl
          exact hc (isWord_toLower c ▸ hfirst)
        simp [hc, hne]

theorem any_startsWithWord (hk : ∀ k ∈ keywords, k.all isWord = true) (s : List Char) :
    (keywords.any fun k => startsWithWord k s) = keywords.contains ((s.takeWhile isWord).map Char.toLower) := by
  rw [Bool.eq_iff_iff, List.any_eq_true, List.contains_iff_mem]
  constructor
  · rintro ⟨k, hmem, h⟩
    rw [startsWithWord_eq (hk k hmem), beq_iff_eq] at h
    rwa [h]
  · intro hmem
    exact ⟨_, hmem, by rw [startsWithWord_eq (hk _ hmem), beq_self_eq_true]⟩

/-- Looking for keywords from left to right finds those that are pieces of the text. -/
theorem occursFrom_eq (hk : ∀ k ∈ keywords, k ≠ [] ∧ k.all isWord = true) (inWord : Bool) (s : List Char) :
    occursFrom keywords inWord s = (piecesAfter inWord s).any fun w => keywords.contains (w.map Char.toLower) := by
  have hempty : [] ∉ keywords := fun h => (hk [] h).1 rfl
  induction s generalizing inWord with
  | nil => cases inWord <;> simp [occursFrom, piecesAfter, pieces, hempty]
  | cons c r ih =>
    rw [occursFrom, ih, any_startsWithWord fun k hmem => (hk k hmem).2]
    by_cases hc : isWord c = true
    · rw [piecesAfter_word hc, List.any_append, hc]
      cases inWord <;> simp [hc]
    · have hc : isWord c = false := by simpa using hc
      rw [piecesAfter_stop hc, List.any_append, hc]
      cases inWord <;> simp [hc, hempty]

/-- One of the names is a word of the text, in any case. -/
def Says (names : List String) (s : List Char) : Prop := ∃ w ∈ words s, lowered w ∈ names

instance (names : List String) (s : List Char) : Decidable (Says names s) :=
  inferInstanceAs (Decidable (∃ w ∈ words s, lowered w ∈ names))

theorem occurs_iff (names : List String) (hnames : ∀ n ∈ names, n.toList ≠ [] ∧ n.toList.all isWord = true)
    (s : List Char) : occurs names s = true ↔ Says names s := by
  have hkeys : ∀ k ∈ names.map String.toList, k ≠ [] ∧ k.all isWord = true := by
    intro k hk
    obtain ⟨n, hn, rfl⟩ := List.mem_map.mp hk
    exact hnames n hn
  have hname (w : List Char) : (names.map String.toList).contains (w.map Char.toLower) = true ↔ lowered w ∈ names := by
    rw [List.contains_iff_mem, List.mem_map]
    constructor
    · rintro ⟨n, hn, he⟩
      rwa [lowered, ← he, String.ofList_toList]
    · exact fun h => ⟨_, h, String.toList_ofList⟩
  rw [occurs, occursFrom_eq hkeys, List.any_eq_true]
  constructor
  · rintro ⟨w, hw, hcontains⟩
    refine ⟨w, List.mem_filter.mpr ⟨hw, ?_⟩, (hname w).mp hcontains⟩
    obtain ⟨hne, -⟩ := hkeys _ (List.contains_iff_mem.mp hcontains)
    simpa using hne
  · rintro ⟨w, hw, hmem⟩
    exact ⟨w, (List.mem_filter.mp hw).1, (hname w).mpr hmem⟩

/-- The most severe level of which a word of the text is a name, and otherwise information. -/
theorem level_eq (s : List Char) : level s =
    if Says ["error", "fatal", "panic"] s then .error
    else if Says ["warn", "warning"] s then .warn
    else if Says ["debug"] s then .debug
    else .info := by
  simp only [level, occurs_iff ["error", "fatal", "panic"] (by decide) s,
    occurs_iff ["warn", "warning"] (by decide) s, occurs_iff ["debug"] (by decide) s]

end Keyword

/-- Cleaning takes away the line ends behind the text, all of them. -/
theorem clean_ends (raw : List Char) : (∃ ends, Ansi.strip raw = clean raw ++ ends ∧ ends.all isLineEnd = true) ∧
    ∀ c ∈ (clean raw).getLast?, isLineEnd c = false := by
  have hsplit := (Ansi.strip raw).reverse.takeWhile_append_dropWhile (p := isLineEnd)
  refine ⟨⟨((Ansi.strip raw).reverse.takeWhile isLineEnd).reverse, ?_, ?_⟩, fun c hc => ?_⟩
  · rw [clean, ← List.reverse_append, hsplit, List.reverse_reverse]
  · rw [List.all_reverse]
    exact List.all_takeWhile
  · have hhead := List.head?_dropWhile_not isLineEnd (Ansi.strip raw).reverse
    rw [clean, List.getLast?_reverse] at hc
    rw [hc] at hhead
    simpa using hhead

open Keyword in
/-- A line that is read neither as pairs nor by brackets is a message as it stands once cleaned, without the line ends
behind it, and has the level that its words tell: its maximal runs of word characters. A name that is part of a longer
word, in front of it or behind it, says nothing. -/
theorem words_tell_level (now : Instant) (service raw : String) (hpairs : Logfmt.read? (clean raw.toList) = none)
    (hbrackets : Bracketed.read? (clean raw.toList) = none) :
    let text := clean raw.toList
    let l := parseLine now service raw
    (l.level = .error ↔ Says ["error", "fatal", "panic"] text) ∧
    (l.level = .warn ↔ ¬Says ["error", "fatal", "panic"] text ∧ Says ["warn", "warning"] text) ∧
    (l.level = .debug ↔ ¬Says ["error", "fatal", "panic"] text ∧ ¬Says ["warn", "warning"] text ∧
      Says ["debug"] text) ∧
    (l.level = .info ↔ ¬Says ["error", "fatal", "panic"] text ∧ ¬Says ["warn", "warning"] text ∧
      ¬Says ["debug"] text) ∧
    (∀ w, w ∈ words text ↔ w ≠ [] ∧ ∃ before after, text = before ++ (w ++ after) ∧ w.all isWord = true ∧
      (∀ c ∈ before.getLast?, isWord c = false) ∧ ∀ c ∈ after.head?, isWord c = false) ∧
    l.message = String.ofList text ∧
    (∃ ends, Ansi.strip raw.toList = text ++ ends ∧ ends.all isLineEnd = true) ∧
    (∀ c ∈ text.getLast?, isLineEnd c = false) ∧
    l.timestamp = now ∧ l.service = service ∧ l.raw = raw := by
  intro text l
  have hl : l = ⟨service, now, Keyword.level text, String.ofList text, raw⟩ := by
    show parseLine now service raw = _
    rw [parseLine, hpairs, hbrackets]
    rfl
  have hlevel : l.level = _ := (congrArg Line.level hl).trans (level_eq text)
  obtain ⟨hends, hlast⟩ := clean_ends raw.toList
  refine ⟨?_, ?_, ?_, ?_, fun w => mem_words_iff, congrArg Line.message hl, hends, hlast,
    congrArg Line.timestamp hl, congrArg Line.service hl, congrArg Line.raw hl⟩
  all_goals
    rw [hlevel]
    by_cases herror : Says ["error", "fatal", "panic"] text <;> by_cases hwarn : Says ["warn", "warning"] text <;>
      by_cases hdebug : Says ["debug"] text <;> simp [herror, hwarn, hdebug]

/-- Longer words say nothing, whatever makes them longer. -/
theorem longer_words_tell_nothing :
    (parseLine ⟨0, 0⟩ "db" "panicked: 3errors, error_2, éfatal (Warning)\r\n").level = .warn := by
  obtain ⟨-, hwarn, -⟩ := words_tell_level ⟨0, 0⟩ "db" "panicked: 3errors, error_2, éfatal (Warning)\r\n"
    (by decide +kernel) (by decide +kernel)
  exact hwarn.mpr ⟨by decide +kernel, by decide +kernel⟩

end Log

end StackDeck
