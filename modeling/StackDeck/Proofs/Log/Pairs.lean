import StackDeck.Proofs.Digits
import StackDeck.Proofs.Keyed
import StackDeck.Proofs.Log.Plain
import StackDeck.Proofs.Text.Space

/-!
Lines of pairs as programs write them: a key, an equals sign and a value that is bare or in quotes, the
pairs one space apart. Reading finds every pair again with the value that was meant, whatever the values
hold: spaces, equals signs, quotes, backslashes or what looks like another pair.
-/

namespace StackDeck.Log.Logfmt

open StackDeck.Text

/-! ### Quotes -/

/-- A text as it stands between quotes: a backslash goes before each quote and each backslash. -/
def escape (v : List Char) : List Char :=
  v.flatMap fun c => if c == '"' || c == '\\' then ['\\', c] else [c]

/-- What of an escaped text is left when its quotes have been unescaped. -/
def doubled (v : List Char) : List Char := v.flatMap fun c => if c == '\\' then ['\\', '\\'] else [c]

theorem escape_special {c : Char} (h : c = '"' ∨ c = '\\') (v : List Char) :
    escape (c :: v) = '\\' :: c :: escape v := by
  rcases h with rfl | rfl <;> rfl

theorem escape_other {c : Char} (h : ¬(c = '"' ∨ c = '\\')) (v : List Char) :
    escape (c :: v) = c :: escape v := by
  simp [escape, not_or.mp h]

theorem doubled_backslash (v : List Char) : doubled ('\\' :: v) = '\\' :: '\\' :: doubled v := rfl

theorem doubled_other {c : Char} (h : c ≠ '\\') (v : List Char) : doubled (c :: v) = c :: doubled v := by
  simp [doubled, h]

theorem escape_head (v : List Char) : (escape v).head? ≠ some '"' := by
  cases v with
  | nil => simp [escape]
  | cons c v =>
    by_cases special : c = '"' ∨ c = '\\'
    · simp [escape_special special]
    · simp [escape_other special, not_or.mp special]

theorem quotedBody_escape (v rest : List Char) :
    quotedBody (escape v ++ '"' :: rest) = some (escape v, rest) := by
  induction v with
  | nil => rfl
  | cons c v ih =>
    by_cases special : c = '"' ∨ c = '\\'
    · have taken : c ≠ '\n' := by rcases special with rfl | rfl <;> decide
      simp [escape_special special, quotedBody, taken, ih]
    · simp [escape_other special, quotedBody, not_or.mp special, ih]

theorem unescape_mark (mark : Char) (s : List Char) :
    unescape mark ('\\' :: mark :: s) = mark :: unescape mark s := by
  rw [unescape]
  simp

theorem unescape_backslash {mark : Char} {s : List Char} (h : s.head? ≠ some mark) :
    unescape mark ('\\' :: s) = '\\' :: unescape mark s := by
  cases s with
  | nil => simp [unescape]
  | cons c r =>
    have other : (c == mark) = false := by simpa using h
    rw [unescape]
    simp [other]

theorem unescape_cons {mark c : Char} (s : List Char) (h : c ≠ '\\') :
    unescape mark (c :: s) = c :: unescape mark s := by
  rw [unescape]
  simp [h]

/-- Unescaping quotes takes the backslash before each quote and no other: an escaped backslash never
stands right before a bare quote. -/
theorem unescape_quotes (v : List Char) : unescape '"' (escape v) = doubled v := by
  induction v with
  | nil => simp [escape, doubled, unescape]
  | cons c v ih =>
    by_cases quote : c = '"'
    · subst quote
      rw [escape_special (.inl rfl), unescape_mark, ih, doubled_other (by decide)]
    by_cases backslash : c = '\\'
    · subst backslash
      rw [escape_special (.inr rfl), unescape_backslash (by simp), unescape_backslash (escape_head v), ih,
        doubled_backslash]
    · rw [escape_other (not_or.mpr ⟨quote, backslash⟩), unescape_cons _ backslash, ih, doubled_other backslash]

theorem unescape_backslashes (v : List Char) : unescape '\\' (doubled v) = v := by
  induction v with
  | nil => simp [doubled, unescape]
  | cons c v ih =>
    by_cases backslash : c = '\\'
    · subst backslash
      rw [doubled_backslash, unescape_mark, ih]
    · rw [doubled_other backslash, unescape_cons _ backslash, ih]

theorem unquote_escape (v : List Char) : unquote ('"' :: (escape v ++ ['"'])) = v := by
  simp [unquote, unescape_quotes, unescape_backslashes]

theorem unquote_bare {v : List Char} (h : v.head? ≠ some '"') : unquote v = v := by
  unfold unquote
  split
  · simp at h
  · rfl

theorem isPlain_escape {v : List Char} (h : isPlain v = true) : isPlain (escape v) = true := by
  induction v with
  | nil => rfl
  | cons c v ih =>
    simp only [isPlain_cons, Bool.and_eq_true] at h
    have backslash : isControl '\\' = false := by decide
    by_cases special : c = '"' ∨ c = '\\'
    · simp [escape_special special, backslash, h.1, ih h.2]
    · simp [escape_other special, h.1, ih h.2]

/-! ### Pairs -/

/-- A letter or an underscore, then letters, digits, underscores, dots and dashes, all of them ASCII. -/
def isKey : List Char → Bool
  | [] => false
  | c :: r => isKeyStart c && r.all fun d => isAsciiWord d || d == '.' || d == '-'

/-- Whether a value can do without quotes. -/
def isBare (v : List Char) : Bool := v.all (fun c => !isSpace c) && v.head? != some '"'

/-- A pair that can be written, with or without quotes around its value. -/
structure Entry where
  key : String
  value : String
  quoted : Bool
  key_sound : isKey key.toList = true
  value_plain : isPlain value.toList = true
  bare_sound : quoted = false → isBare value.toList = true

namespace Entry

/-- The key as it is looked for, without regard to case. -/
def name (e : Entry) : String := String.ofList (e.key.toList.map Char.toLower)

def writtenValue (e : Entry) : List Char :=
  if e.quoted then '"' :: (escape e.value.toList ++ ['"']) else e.value.toList

def write (e : Entry) : List Char := e.key.toList ++ '=' :: e.writtenValue

def pair (e : Entry) : String × String := (e.name, e.value)

end Entry

/-- The pairs of a line, one space apart. -/
def line : List Entry → List Char
  | [] => []
  | [e] => e.write
  | e :: f :: es => e.write ++ ' ' :: line (f :: es)

/-- The value under the first of some names that is there. -/
def first? (names : List String) (es : List Entry) : Option String :=
  names.findSome? fun name => (es.find? fun e => e.name == name).map Entry.value

/-! ### Reading one pair -/

theorem isAsciiWord_bounds {c : Char} (h : isAsciiWord c = true) : 0x30 ≤ c.toNat ∧ c.toNat ≤ 0x7A := by
  simp only [isAsciiWord, Char.isAlphanum, Bool.or_eq_true, beq_iff_eq] at h
  rcases h with (h | h) | rfl
  · have := isAlpha_bounds h
    omega
  · have := Json.toNat_of_isDigit h
    omega
  · decide

theorem isKeyStart_bounds {c : Char} (h : isKeyStart c = true) :
    0x41 ≤ c.toNat ∧ c.toNat ≤ 0x7A ∧ c.toNat ≠ 0x5B := by
  simp only [isKeyStart, Bool.or_eq_true, beq_iff_eq] at h
  rcases h with h | rfl
  · have := isAlpha_bounds h
    omega
  · decide

theorem isKey_spec {key : List Char} (h : isKey key = true) :
    ∃ c r, key = c :: r ∧ isKeyStart c = true ∧ (∀ d ∈ r, isKeyChar d = true) ∧ isPlain key = true := by
  cases key with
  | nil => cases h
  | cons c r =>
    simp only [isKey, Bool.and_eq_true, List.all_eq_true, Bool.or_eq_true, beq_iff_eq] at h
    obtain ⟨start, rest⟩ := h
    have bounds : ∀ d ∈ r, 0x2D ≤ d.toNat ∧ d.toNat ≤ 0x7A := by
      intro d hd
      rcases rest d hd with (word | rfl) | rfl
      · have := isAsciiWord_bounds word
        omega
      · decide
      · decide
    have plain {d : Char} (h : 0x2D ≤ d.toNat ∧ d.toNat ≤ 0x7A) : isControl d = false := by
      simp [isControl, Ansi.between]
      omega
    refine ⟨c, r, rfl, start, fun d hd => ?_, List.all_eq_true.mpr fun d hd => ?_⟩
    · rcases rest d hd with (word | rfl) | rfl
      · have := bounds d hd
        simp [isKeyChar, isWord, word, show d.toNat < 128 by omega]
      · decide
      · decide
    · rcases List.mem_cons.mp hd with rfl | hd
      · have := isKeyStart_bounds start
        simp [plain (d := d) (by omega)]
      · simp [plain (bounds d hd)]

theorem isBare_iff {v : List Char} :
    isBare v = true ↔ (∀ c ∈ v, isSpace c = false) ∧ v.head? ≠ some '"' := by
  simp [isBare]

/-- What may stand behind a written pair: nothing, or white space. -/
def Breaks (rest : List Char) : Prop := ∀ c ∈ rest.head?, isSpace c = true

theorem breaks_nil : Breaks [] := by simp [Breaks]

theorem breaks_space (s : List Char) : Breaks (' ' :: s) := by
  intro c hc
  obtain rfl : ' ' = c := by simpa using hc
  decide

theorem value_quoted (v rest : List Char) :
    value ('"' :: (escape v ++ ['"']) ++ rest) = ('"' :: (escape v ++ ['"']), rest) := by
  have body := quotedBody_escape v rest
  simp [value, body]

theorem value_bare {v rest : List Char} (h : isBare v = true) (hr : Breaks rest) :
    value (v ++ rest) = (v, rest) := by
  obtain ⟨solid, first⟩ := isBare_iff.mp h
  have inside : ∀ c ∈ v, (!isSpace c) = true := fun c hc => by rw [solid c hc]; rfl
  have unquoted : (v ++ rest).head? ≠ some '"' := by
    cases v with
    | nil =>
      intro quote
      exact absurd (hr _ quote) (by decide)
    | cons c v => simpa using first
  have stop : rest.takeWhile (fun c => !isSpace c) = [] ∧ rest.dropWhile (fun c => !isSpace c) = rest := by
    cases rest with
    | nil => exact ⟨rfl, rfl⟩
    | cons c r => simp [hr c rfl]
  unfold value
  split
  · simp_all
  · simp [List.takeWhile_append_of_pos inside, List.dropWhile_append_of_pos inside, stop]

namespace Entry

theorem value_written (e : Entry) {rest : List Char} (h : Breaks rest) :
    Logfmt.value (e.writtenValue ++ rest) = (e.writtenValue, rest) := by
  unfold writtenValue
  split
  · exact value_quoted _ _
  · next bare => exact value_bare (e.bare_sound (by simpa using bare)) h

theorem unquote_written (e : Entry) : unquote e.writtenValue = e.value.toList := by
  unfold writtenValue
  split
  · exact unquote_escape _
  · next bare => exact unquote_bare (isBare_iff.mp (e.bare_sound (by simpa using bare))).2

theorem pair?_write (e : Entry) {rest : List Char} (h : Breaks rest) :
    pair? (e.write ++ rest) = some (e.pair, rest) := by
  obtain ⟨c, r, hk, start, others, -⟩ := isKey_spec e.key_sound
  have last : isKeyChar '=' = false := by decide
  simp [write, pair?, hk, start, List.takeWhile_append_of_pos others,
    List.dropWhile_append_of_pos others, last, e.value_written h, e.unquote_written, pair, name]

theorem write_head (e : Entry) : ∃ c r, e.write = c :: r ∧ isKeyStart c = true := by
  obtain ⟨c, r, hk, start, -, -⟩ := isKey_spec e.key_sound
  exact ⟨c, r ++ '=' :: e.writtenValue, by simp [write, hk], start⟩

theorem write_length (e : Entry) : 0 < e.write.length := by
  obtain ⟨c, r, front, _⟩ := e.write_head
  simp [front]

theorem isPlain_write (e : Entry) : isPlain e.write = true := by
  obtain ⟨-, -, -, -, -, key⟩ := isKey_spec e.key_sound
  have value : isPlain e.writtenValue = true := by
    unfold writtenValue
    split
    · simp only [isPlain_cons, isPlain_append, isPlain_escape e.value_plain]
      decide
    · exact e.value_plain
  simp only [write, isPlain_append, isPlain_cons, key, value]
  decide

end Entry

/-! ### Reading a line -/

theorem isPlain_line (es : List Entry) : isPlain (line es) = true := by
  induction es using line.induct with
  | case1 => rfl
  | case2 e => exact e.isPlain_write
  | case3 e f es ih =>
    simp only [line, isPlain_append, isPlain_cons, e.isPlain_write, ih]
    decide

theorem pairsFrom_write (e : Entry) {rest : List Char} (h : Breaks rest) (fuel : Nat) :
    pairsFrom (fuel + 1) (e.write ++ rest) = e.pair :: pairsFrom fuel rest := by
  obtain ⟨c, r, front, _⟩ := e.write_head
  have found := e.pair?_write h
  rw [front, List.cons_append] at found ⊢
  rw [pairsFrom, found]

theorem pairsFrom_space (fuel : Nat) (s : List Char) : pairsFrom (fuel + 1) (' ' :: s) = pairsFrom fuel s := by
  have start : isKeyStart ' ' = false := by decide
  simp [pairsFrom, pair?, start]

/-- A pair takes two steps, one for itself and one for the space behind it. -/
theorem pairsFrom_line {es : List Entry} {fuel : Nat} (enough : (line es).length ≤ fuel) :
    pairsFrom fuel (line es) = es.map Entry.pair := by
  induction es using line.induct generalizing fuel with
  | case1 => cases fuel <;> rfl
  | case2 e =>
    have some := e.write_length
    rw [line] at enough ⊢
    obtain ⟨n, rfl⟩ : ∃ n, fuel = n + 1 := ⟨fuel - 1, by omega⟩
    have read := pairsFrom_write e breaks_nil n
    rw [List.append_nil] at read
    rw [read]
    cases n <;> rfl
  | case3 e f es ih =>
    have some := e.write_length
    rw [line] at enough ⊢
    rw [List.length_append, List.length_cons] at enough
    obtain ⟨n, rfl⟩ : ∃ n, fuel = n + 1 + 1 := ⟨fuel - 2, by omega⟩
    rw [pairsFrom_write e (breaks_space _), pairsFrom_space, ih (by omega)]
    rfl

theorem pairs_line (es : List Entry) : pairs (line es) = es.map Entry.pair := pairsFrom_line (Nat.le_refl _)

/-- Where no name occurs twice it does not matter that the last pair of a name counts. -/
theorem lookup?_pairs {es : List Entry} (distinct : (es.map Entry.name).Nodup) (key : String) :
    lookup? key (es.map Entry.pair) = (es.find? fun e => e.name == key).map Entry.value := by
  have at_key : (fun p : String × String => p.1 == key) ∘ Entry.pair = fun e => e.name == key := rfl
  rw [lookup?, ← List.map_reverse, List.find?_map, at_key, find?_reverse_key distinct, Option.map_map]
  rfl

theorem firstOf?_pairs {es : List Entry} (distinct : (es.map Entry.name).Nodup) (keys : List String) :
    firstOf? keys (es.map Entry.pair) = first? keys es := by
  simp only [firstOf?, first?, lookup?_pairs distinct]

theorem read?_line {es : List Entry} (distinct : (es.map Entry.name).Nodup) :
    read? (line es) =
      (first? timeKeys es).bind fun time =>
        ((first? levelKeys es).bind Level.ofName?).map fun level =>
          (Instant.ofLogText? time, level, ((first? messageKeys es).map String.toList).getD (line es)) := by
  simp only [read?, pairs_line, firstOf?_pairs distinct]
  cases first? timeKeys es with
  | none => rfl
  | some time => cases (first? levelKeys es).bind Level.ofName? <;> rfl

/-- A line of pairs does not start with a bracket. -/
theorem bracketed_line (es : List Entry) : Bracketed.read? (line es) = none := by
  have front : line es = [] ∨ ∃ c r, line es = c :: r ∧ isKeyStart c = true := by
    induction es using line.induct with
    | case1 => exact .inl rfl
    | case2 e => exact .inr e.write_head
    | case3 e f es _ =>
      obtain ⟨c, r, front, start⟩ := e.write_head
      exact .inr ⟨c, _, by rw [line, front, List.cons_append], start⟩
  obtain empty | ⟨c, r, front, start⟩ := front
  · rw [empty]
    rfl
  · have bounds := isKeyStart_bounds start
    have solid : isSpace c = false := by
      simp [isSpace]
      omega
    have open_ : c ≠ '[' := by
      rintro rfl
      exact bounds.2.2 rfl
    simp [Bracketed.read?, front, trimStart, solid, Bracketed.bracket?, open_]

/-- A line of pairs is read back exactly. With a time and a known level among its pairs it has the time,
the level and the message that were written; otherwise its pairs count for nothing, and it is a message
of the level that its words tell. -/
theorem pairs_read_back (now : Instant) (service : String) (es : List Entry)
    (distinct : (es.map Entry.name).Nodup) (raw : String) (written : raw.toList = line es) :
    (∀ time level, first? timeKeys es = some time →
      (first? levelKeys es).bind Level.ofName? = some level →
        parseLine now service raw =
          ⟨service, (Instant.ofLogText? time).getD now, level, (first? messageKeys es).getD raw, raw⟩) ∧
    (first? timeKeys es = none ∨ (first? levelKeys es).bind Level.ofName? = none →
      read? raw.toList = none ∧
        parseLine now service raw = ⟨service, now, Keyword.level raw.toList, raw, raw⟩) := by
  have plain : isPlain raw.toList = true := written ▸ isPlain_line es
  have read := read?_line distinct
  rw [← written] at read
  have parsed := parseLine_plain now service plain
  refine ⟨fun time level ht hl => ?_, fun absent => ?_⟩
  · rw [read, ht, hl] at parsed
    rw [parsed]
    cases first? messageKeys es <;> simp
  · have unread : read? raw.toList = none := by
      rw [read]
      obtain ht | hl := absent
      · rw [ht]
        rfl
      · rw [hl]
        cases first? timeKeys es <;> rfl
    have unbracketed : Bracketed.read? raw.toList = none := written ▸ bracketed_line es
    refine ⟨unread, ?_⟩
    rw [parsed, unread, unbracketed]
    simp

/-- What a quoted value says about a level is part of the message. -/
theorem quoted_level_is_no_level :
    parseLine ⟨0, 0⟩ "db" r#"time=2024-05-01T10:20:30Z level=warning msg="says \"level=error\" \\""# =
      ⟨"db", ⟨1714558830, 0⟩, .warn, r#"says "level=error" \"#,
        r#"time=2024-05-01T10:20:30Z level=warning msg="says \"level=error\" \\""#⟩ := by
  have read := (pairs_read_back ⟨0, 0⟩ "db"
    [⟨"time", "2024-05-01T10:20:30Z", false, by decide, by decide, by decide⟩,
      ⟨"level", "warning", false, by decide, by decide, by decide⟩,
      ⟨"msg", r#"says "level=error" \"#, true, by decide, by decide, by decide⟩]
    (by decide) r#"time=2024-05-01T10:20:30Z level=warning msg="says \"level=error\" \\""# (by decide)).1
  exact (read "2024-05-01T10:20:30Z" .warn (by decide) (by decide)).trans (by decide +kernel)

/-- Without a time the pairs count for nothing. -/
example :
    parseLine ⟨0, 0⟩ "api" "level=debug msg=hello" =
      ⟨"api", ⟨0, 0⟩, .debug, "level=debug msg=hello", "level=debug msg=hello"⟩ := by
  decide +kernel

end StackDeck.Log.Logfmt
