import Mathlib.Data.List.Induction
import StackDeck.Json.Tree
import StackDeck.Proofs.Digits
import StackDeck.Proofs.Text.Space
import StackDeck.Text.Line

/-!
Blanks in JSON text. Where a text can be cut into tokens, a blank or a mark behind it changes nothing of what came before; so a
text that can be read means the same without the white space around it.
-/

namespace StackDeck.Json

variable {c : Char} {m : Mode} {done ts : List Token} {s : List Char} {t : Tree}

/-! ### Where words and numbers end -/

/-- A character that belongs to no word and to no number. -/
def Separates (c : Char) : Prop := c.isAlpha = false ∧ isNumberChar c = false

theorem separates_of_space (h : Text.isSpace c = true) : Separates c := by
  have hspace := Text.isSpace_bounds h
  constructor
  · by_contra ha
    have := Text.isAlpha_bounds (c := c) (by simpa using ha)
    omega
  · by_contra hn
    simp only [isNumberChar, Bool.not_eq_false, Bool.or_eq_true, beq_iff_eq] at hn
    rcases hn with ((((hd | rfl) | rfl) | rfl) | rfl) | rfl
    · have := toNat_of_isDigit hd
      omega
    all_goals exact absurd hspace (by decide)

theorem isSpace_of_blank (h : isBlankChar c = true) : Text.isSpace c = true := by
  simp only [isBlankChar, Bool.or_eq_true, beq_iff_eq] at h
  rcases h with ((rfl | rfl) | rfl) | rfl <;> decide

theorem separates_of_mark {t : Token} (h : punctuation? c = some t) : Separates c := by
  unfold punctuation? at h
  split at h
  all_goals first | exact ⟨by decide, by decide⟩ | cases h

/-- A token that is complete at the end of the text is complete before a character that cannot belong to it. -/
theorem step_of_finish (hm : finish m = some ts) (hc : Separates c) :
    step m c = (fromIdle c).map fun p => (p.1, ts ++ p.2) := by
  cases m with
  | idle =>
    cases Option.some.inj hm
    simp [step]
  | word g =>
    obtain ⟨t, ht, rfl⟩ := Option.map_eq_some_iff.mp hm
    cases hi : fromIdle c <;> simp [step, hc.1, ht, hi]
  | number g =>
    obtain ⟨n, hn, rfl⟩ := Option.map_eq_some_iff.mp hm
    cases hi : fromIdle c <;> simp [step, hc.2, hn, hi]
  | text => cases hm
  | escape => cases hm
  | hex => cases hm

/-- What was cut into tokens before a blank or a mark stays as it is. -/
theorem tokensFrom_append (h : tokensFrom m done s = some ts) (hc : Separates c) (rest : List Char) :
    tokensFrom m done (s ++ c :: rest) = tokensFrom .idle ts.reverse (c :: rest) := by
  induction s generalizing m done with
  | nil =>
    obtain ⟨ts', hm, rfl⟩ := Option.map_eq_some_iff.mp h
    have hstep := step_of_finish hm hc
    have hidle : step .idle c = fromIdle c := rfl
    cases hi : fromIdle c with
    | none => simp [tokensFrom, hstep, hidle, hi]
    | some p => simp [tokensFrom, hstep, hidle, hi]
  | cons d r ih =>
    simp only [tokensFrom, Option.bind_eq_bind, Option.bind_eq_some_iff] at h
    obtain ⟨⟨m', ts'⟩, hstep, hrest⟩ := h
    simpa [tokensFrom, hstep] using ih hrest

/-! ### White space that can be left out -/

/-- White space that JSON does not know starts no token. -/
theorem fromIdle_space (h : Text.isSpace c = true) :
    fromIdle c = if isBlankChar c then some (.idle, []) else none := by
  have hsep := separates_of_space h
  have hspace := Text.isSpace_bounds h
  have hquote : (c == '"') = false := by
    rw [beq_eq_false_iff_ne]
    rintro rfl
    exact absurd hspace (by decide)
  have hnumber : (c.isDigit || c == '-') = false := by
    have hn := hsep.2
    simp only [isNumberChar, Bool.or_eq_false_iff] at hn ⊢
    exact ⟨hn.1.1.1.1.1, hn.1.1.1.1.2⟩
  have hmark : punctuation? c = none := by
    unfold punctuation?
    split
    all_goals first | rfl | exact absurd hspace (by decide)
  simp [fromIdle, hquote, hnumber, hsep.1, hmark]

theorem tokensFrom_idle_space (hc : Text.isSpace c = true) (h : tokensFrom .idle done (c :: s) = some ts) :
    tokensFrom .idle done s = some ts := by
  simp only [tokensFrom, step, fromIdle_space hc] at h
  split at h
  · simpa using h
  · simp at h

theorem tokensFrom_blanks (h : s.all isBlankChar = true) (rest : List Char) :
    tokensFrom .idle done (s ++ rest) = tokensFrom .idle done rest := by
  induction s with
  | nil => rfl
  | cons c r ih =>
    have hall : isBlankChar c = true ∧ r.all isBlankChar = true := by simpa using h
    have hi : fromIdle c = some (.idle, []) := by simp [fromIdle, hall.1]
    simpa [tokensFrom, step, hi] using ih hall.2

theorem ne_of_space {d : Char} (h : Text.isSpace c = true) (hd : Text.isSpace d = false) : (c == d) = false := by
  rw [beq_eq_false_iff_ne]
  rintro rfl
  rw [h] at hd
  cases hd

/-- What was cut before stays in front of what is cut later. -/
theorem tokensFrom_done (m : Mode) (done : List Token) (s : List Char) :
    tokensFrom m done s = (tokensFrom m [] s).map (done.reverse ++ ·) := by
  have hmore (m : Mode) (new : List Token) :
      tokensFrom m (new ++ done) s = (tokensFrom m new s).map (done.reverse ++ ·) := by
    induction s generalizing m new with
    | nil => cases hm : finish m <;> simp [tokensFrom, hm]
    | cons c r ih =>
      cases hstep : step m c with
      | none => simp [tokensFrom, hstep]
      | some p => simpa [tokensFrom, hstep] using ih p.1 (p.2.reverse ++ new)
  exact hmore m []

/-- Blanks between two tokens change nothing. -/
theorem tokens_spread {p q b : List Char} {ts' : List Token} (hb : b.all isBlankChar = true) (hp : tokens p = some ts)
    (hq : tokens q = some ts') (hpq : tokens (p ++ q) = some (ts ++ ts')) : tokens (p ++ b ++ q) = tokens (p ++ q) := by
  cases b with
  | nil => rw [List.append_nil]
  | cons c r =>
    have hc : isBlankChar c = true := (List.all_eq_true.mp hb) c List.mem_cons_self
    have hcut := tokensFrom_append hp (separates_of_space (isSpace_of_blank hc)) (r ++ q)
    have hskip : tokensFrom .idle ts.reverse (c :: (r ++ q)) = tokensFrom .idle ts.reverse q := tokensFrom_blanks hb q
    have hlast : tokensFrom .idle [] q = some ts' := hq
    have hdone := tokensFrom_done .idle ts.reverse q
    rw [hlast, List.reverse_reverse, Option.map_some] at hdone
    rw [hpq, List.append_assoc]
    exact hcut.trans (hskip.trans hdone)

/-- What is not complete before white space is a string, and goes on. -/
theorem step_unfinished (hc : Text.isSpace c = true) (hm : finish m = none) :
    step m c = none ∨ ∃ g sound high, step m c = some (.text g sound high, []) := by
  have hsep := separates_of_space hc
  have hspace := Text.isSpace_bounds hc
  cases m with
  | idle => cases hm
  | word g =>
    have hword : word? g.reverse = none := by simpa [finish] using hm
    exact .inl (by simp [step, hsep.1, hword])
  | number g =>
    have hnumber : Number.read? g.reverse = none := by simpa [finish] using hm
    exact .inl (by simp [step, hsep.2, hnumber])
  | text g sound high =>
    have hescape : (c == '\\') = false := ne_of_space hc (by decide)
    have hquote : (c == '"') = false := ne_of_space hc (by decide)
    simp only [step, hescape, hquote]
    by_cases hlow : c.toNat < 0x20
    · simp [hlow]
    · simp [hlow]
  | escape g sound high =>
    have hu : (c == 'u') = false := ne_of_space hc (by decide)
    have hsimple : simpleEscape? c = none := by
      unfold simpleEscape?
      split
      all_goals first | rfl | exact absurd hspace (by decide)
    exact .inl (by simp [step, hu, hsimple])
  | hex g sound high left code =>
    have hdigit : hexDigit? c = none := by
      have hle (a b : Char) : a ≤ b ↔ a.toNat ≤ b.toNat := UInt32.le_iff_toNat_le
      simp only [hexDigit?, hle, Bool.and_eq_true, decide_eq_true_eq]
      have h0 : '0'.toNat = 48 := rfl
      have h9 : '9'.toNat = 57 := rfl
      have ha : 'a'.toNat = 97 := rfl
      have hf : 'f'.toNat = 102 := rfl
      have hA : 'A'.toNat = 65 := rfl
      have hF : 'F'.toNat = 70 := rfl
      split_ifs <;> first | rfl | omega
    exact .inl (by simp [step, hdigit])

/-- White space at the end of a text that can be cut into tokens can be left out. -/
theorem tokensFrom_before_space (hc : Text.isSpace c = true) (h : tokensFrom m done (s ++ [c]) = some ts) :
    tokensFrom m done s = some ts := by
  induction s generalizing m done with
  | nil =>
    simp only [List.nil_append, tokensFrom, Option.bind_eq_bind, Option.bind_eq_some_iff] at h
    obtain ⟨⟨m', ts'⟩, hstep, hend⟩ := h
    cases hm : finish m with
    | none =>
      rcases step_unfinished hc hm with hnone | ⟨g, sound, high, htext⟩
      · rw [hnone] at hstep
        cases hstep
      · rw [htext] at hstep
        cases hstep
        cases hend
    | some ts₀ =>
      rw [step_of_finish hm (separates_of_space hc), fromIdle_space hc] at hstep
      split at hstep <;> cases hstep
      cases hend
      simp [tokensFrom, hm]
  | cons d r ih =>
    simp only [List.cons_append, tokensFrom, Option.bind_eq_bind, Option.bind_eq_some_iff] at h ⊢
    obtain ⟨p, hstep, hrest⟩ := h
    exact ⟨p, hstep, ih hrest⟩

theorem tokens_trimStart (h : tokens s = some ts) : tokens (Text.trimStart s) = some ts := by
  induction s with
  | nil => exact h
  | cons c r ih =>
    by_cases hc : Text.isSpace c = true
    · have hrest : tokens r = some ts := tokensFrom_idle_space hc h
      simpa [Text.trimStart, hc] using ih hrest
    · simpa [Text.trimStart, hc] using h

theorem tokens_trimEnd (h : tokens s = some ts) : tokens (Text.trimEnd s) = some ts := by
  induction s using List.reverseRecOn with
  | nil => exact h
  | append_singleton r c ih =>
    by_cases hc : Text.isSpace c = true
    · have hrest : tokens r = some ts := tokensFrom_before_space hc h
      simpa [Text.trimEnd, hc] using ih hrest
    · simpa [Text.trimEnd, hc] using h

theorem parse?_trimStart (h : Tree.parse? s = some t) : Tree.parse? (Text.trimStart s) = some t := by
  obtain ⟨ts, hts, hbuild⟩ := Option.bind_eq_some_iff.mp h
  exact Option.bind_eq_some_iff.mpr ⟨ts, tokens_trimStart hts, hbuild⟩

theorem parse?_trimEnd (h : Tree.parse? s = some t) : Tree.parse? (Text.trimEnd s) = some t := by
  obtain ⟨ts, hts, hbuild⟩ := Option.bind_eq_some_iff.mp h
  exact Option.bind_eq_some_iff.mpr ⟨ts, tokens_trimEnd hts, hbuild⟩

/-- A text that can be read means the same without the white space around it. -/
theorem parse?_trim (h : Tree.parse? s = some t) : Tree.parse? (Text.trim s) = some t := parse?_trimEnd (parse?_trimStart h)

/-- A blank text holds no value. -/
theorem not_blank_of_parse (h : Tree.parse? s = some t) : s.all Text.isSpace = false := by
  by_contra hs
  have hnone : Text.trim s = [] := Text.trim_eq_nil.mpr (by simpa using hs)
  have htrim := parse?_trim h
  rw [hnone] at htrim
  cases htrim

/-- The carriage return at the end of a line can be left out. -/
theorem parse?_dropReturn (h : Tree.parse? s = some t) : Tree.parse? (Text.dropReturn s) = some t := by
  unfold Text.dropReturn
  split
  next r hr =>
    have hs : s = r.reverse ++ ['\r'] := by rw [← List.reverse_reverse s, hr, List.reverse_cons]
    obtain ⟨ts, hts, hbuild⟩ := Option.bind_eq_some_iff.mp h
    rw [hs] at hts
    exact Option.bind_eq_some_iff.mpr ⟨ts, tokensFrom_before_space (by decide) hts, hbuild⟩
  next => exact h

end StackDeck.Json
