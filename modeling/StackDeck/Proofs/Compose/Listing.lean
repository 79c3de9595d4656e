import Mathlib
import StackDeck.Compose.Ps
import StackDeck.Proofs.Json.Nesting

/-!
The service list in both of its forms. One array with any blanks in it, and one object a line with any blank lines between, hold the
same entries, and are refused for the same objects.
-/

namespace StackDeck

namespace Text

variable {line rest : List Char}

theorem lines_line (h : '\n' ∉ line) (rest : List Char) : lines (line ++ '\n' :: rest) = dropReturn line :: lines rest := by
  simp [lines, splitLines_line h]

theorem lines_unended (h : '\n' ∉ line) : lines line = if line.isEmpty then [] else [line] := by
  simp [lines, splitLines_unended h]

end Text

namespace Compose

open Json (Tree Token ListText tokens)
open Json.Tree

/-- What may end a line. -/
def IsLineEnd (mark : List Char) : Prop := mark = ['\n'] ∨ mark = ['\r', '\n']

/-- Output that holds these texts one a line, in this order. The last line need not be ended; any lines before, between and behind
are blank. -/
inductive Printed : List (List Char) → List Char → Prop where
  | done {b : List Char} (hb : b.all Text.isSpace = true) (hline : '\n' ∉ b) : Printed [] b
  | last (e : List Char) : Printed [e] e
  | blank {b s : List Char} {es : List (List Char)} (hb : b.all Text.isSpace = true) (hline : '\n' ∉ b) (h : Printed es s) :
      Printed es (b ++ '\n' :: s)
  | line {mark s : List Char} {es : List (List Char)} (e : List Char) (hmark : IsLineEnd mark) (h : Printed es s) :
      Printed (e :: es) (e ++ (mark ++ s))

theorem IsLineEnd.blank {mark : List Char} (h : IsLineEnd mark) : mark.all Text.isSpace = true := by
  rcases h with rfl | rfl <;> decide

/-- The text of an object that stands on one line. -/
structure Writes (e : List Char) (t : Tree) : Prop where
  parse : Tree.parse? e = some t
  isObject : ∃ fields, t = .obj fields
  oneLine : '\n' ∉ e

namespace Writes

variable {e : List Char} {t : Tree}

theorem trimStart (h : Writes e t) : Writes (Text.trimStart e) t where
  parse := Json.parse?_trimStart h.parse
  isObject := h.isObject
  oneLine hmem := h.oneLine ((List.dropWhile_sublist _).mem hmem)

theorem trimEnd (h : Writes e t) : Writes (Text.trimEnd e) t where
  parse := Json.parse?_trimEnd h.parse
  isObject := h.isObject
  oneLine hmem := by
    have hsub := (List.dropWhile_sublist Text.isSpace).mem (List.mem_reverse.mp hmem)
    exact h.oneLine (List.mem_reverse.mp hsub)

theorem not_blank (h : Writes e t) : e.all Text.isSpace = false := Json.not_blank_of_parse h.parse

end Writes

variable {es : List (List Char)} {trees : List Tree} {s : List Char}

/-- White space before the first line can be left out. -/
theorem Printed.trimStart (h : Printed es s) (hes : List.Forall₂ Writes es trees) :
    ∃ es', List.Forall₂ Writes es' trees ∧ Printed es' (Text.trimStart s) := by
  induction h generalizing trees with
  | done hb hline =>
    have hnone := Text.dropWhile_isSpace_eq_nil.mpr hb
    exact ⟨[], hes, by rw [Text.trimStart, hnone]; exact .done rfl List.not_mem_nil⟩
  | last e =>
    cases hes with
    | cons he hes =>
      cases hes
      exact ⟨[Text.trimStart e], .cons he.trimStart .nil, .last _⟩
  | @blank b s es hb hline h ih =>
    have hskipped : (b ++ ['\n']).all Text.isSpace = true := by simp [hb]; decide
    have hskip := Text.trimStart_spaces hskipped s
    rw [List.append_assoc, List.singleton_append] at hskip
    rw [hskip]
    exact ih hes
  | line e hmark h =>
    cases hes with
    | cons he hes =>
      rw [Text.trimStart_append he.not_blank]
      exact ⟨_, .cons he.trimStart hes, .line _ hmark h⟩

theorem Printed.blank_iff (h : Printed es s) (hes : List.Forall₂ Writes es trees) :
    s.all Text.isSpace = true ↔ trees = [] := by
  induction h generalizing trees with
  | done hb =>
    cases hes
    simp [hb]
  | last e =>
    cases hes with
    | cons he hes => simp [he.not_blank]
  | blank hb hline h ih =>
    have hfeed : Text.isSpace '\n' = true := by decide
    simp [hb, hfeed, ← ih hes]
  | line e hmark h =>
    cases hes with
    | cons he hes => simp [he.not_blank]

theorem Printed.not_blank (h : Printed es s) (hes : List.Forall₂ Writes es trees) (hne : trees ≠ []) :
    s.all Text.isSpace = false := by
  by_contra hs
  exact hne ((h.blank_iff hes).mp (by simpa using hs))

/-- White space behind the last line can be left out. -/
theorem Printed.trimEnd (h : Printed es s) (hes : List.Forall₂ Writes es trees) (hne : trees ≠ []) :
    ∃ es', List.Forall₂ Writes es' trees ∧ Printed es' (Text.trimEnd s) := by
  induction h generalizing trees with
  | done =>
    cases hes
    exact absurd rfl hne
  | last e =>
    cases hes with
    | cons he hes =>
      cases hes
      exact ⟨[Text.trimEnd e], .cons he.trimEnd .nil, .last _⟩
  | @blank b s es hb hline h ih =>
    obtain ⟨es', hes', hprinted⟩ := ih hes hne
    have hkeep := Text.trimEnd_append (h.not_blank hes hne) (b ++ ['\n'])
    simp only [List.append_assoc, List.singleton_append] at hkeep
    rw [hkeep]
    exact ⟨es', hes', .blank hb hline hprinted⟩
  | @line mark s es e hmark h ih =>
    cases hes with
    | @cons _ t _ trees he hes =>
      by_cases hlast : trees = []
      · subst hlast
        cases hes
        have hrest : (mark ++ s).all Text.isSpace = true := by
          simpa only [List.all_append, hmark.blank, Bool.true_and] using (h.blank_iff .nil).mpr rfl
        rw [Text.trimEnd_spaces hrest]
        exact ⟨[Text.trimEnd e], .cons he.trimEnd .nil, .last _⟩
      · obtain ⟨es', hes', hprinted⟩ := ih hes hlast
        have hkeep := Text.trimEnd_append (h.not_blank hes hlast) (e ++ mark)
        simp only [List.append_assoc] at hkeep
        rw [hkeep]
        exact ⟨e :: es', .cons he hes', .line e hmark hprinted⟩

/-- The lines that are not blank. -/
def entryLines (s : List Char) : List (List Char) := (Text.lines s).filter fun l => !l.all Text.isSpace

theorem dropReturn_blank {b : List Char} (hb : b.all Text.isSpace = true) : (Text.dropReturn b).all Text.isSpace = true := by
  unfold Text.dropReturn
  split
  next r hr =>
    have hall : b.reverse.all Text.isSpace = true := by simpa using hb
    rw [hr] at hall
    have hboth : Text.isSpace '\r' = true ∧ r.all Text.isSpace = true := by simpa using hall
    simpa using hboth.2
  next => exact hb

theorem entryLines_blank {b : List Char} (hb : b.all Text.isSpace = true) (hline : '\n' ∉ b) (rest : List Char) :
    entryLines (b ++ '\n' :: rest) = entryLines rest := by
  rw [entryLines, Text.lines_line hline, List.filter_cons_of_neg (by simp [dropReturn_blank hb])]
  rfl

theorem entryLines_filled {l : List Char} {t : Tree} (ht : Tree.parse? (Text.dropReturn l) = some t) (hline : '\n' ∉ l)
    (rest : List Char) : entryLines (l ++ '\n' :: rest) = Text.dropReturn l :: entryLines rest := by
  rw [entryLines, Text.lines_line hline, List.filter_cons_of_pos (by simp [Json.not_blank_of_parse ht])]
  rfl

/-- Each of the texts is one of the lines, perhaps without its carriage return. -/
theorem Printed.filled (h : Printed es s) (hes : List.Forall₂ Writes es trees) :
    List.Forall₂ (fun l t => Tree.parse? l = some t) (entryLines s) trees := by
  induction h generalizing trees with
  | @done b hb hline =>
    cases hes
    have hnone : entryLines b = [] := by
      rw [entryLines, Text.lines_unended hline]
      split <;> simp [hb]
    rw [hnone]
    exact .nil
  | last e =>
    cases hes with
    | cons he hes =>
      cases hes
      have hne : e.isEmpty = false := by
        rw [List.isEmpty_eq_false_iff]
        rintro rfl
        exact absurd he.not_blank (by simp)
      have hone : entryLines e = [e] := by
        rw [entryLines, Text.lines_unended he.oneLine, hne]
        simp [he.not_blank]
      rw [hone]
      exact .cons he.parse .nil
  | blank hb hline h ih =>
    rw [entryLines_blank hb hline]
    exact ih hes
  | @line mark s es e hmark h ih =>
    cases hes with
    | @cons e t es trees he hes =>
      rcases hmark with rfl | rfl
      · have hparse := Json.parse?_dropReturn he.parse
        have hkeep := entryLines_filled hparse he.oneLine s
        rw [List.singleton_append, hkeep]
        exact .cons hparse (ih hes)
      · have hdrop : Text.dropReturn (e ++ ['\r']) = e := by simp [Text.dropReturn]
        have hkeep := entryLines_filled (l := e ++ ['\r']) (by rw [hdrop]; exact he.parse) (by simp [he.oneLine]) s
        rw [hdrop, List.append_assoc] at hkeep
        have hsplit : e ++ (['\r', '\n'] ++ s) = e ++ (['\r'] ++ '\n' :: s) := rfl
        rw [hsplit, hkeep]
        exact .cons he.parse (ih hes)

/-! ### Entries -/

namespace PsEntry

theorem ofText?_of_parse {e : List Char} {t : Tree} (h : Tree.parse? e = some t) : ofText? e = ofTree? t := by
  rw [ofText?, h]
  rfl

theorem mapM_ofText? {ls : List (List Char)} (h : List.Forall₂ (fun l t => Tree.parse? l = some t) ls trees) :
    ls.mapM ofText? = trees.mapM ofTree? := by
  induction h with
  | nil => rfl
  | cons ht _ ih => rw [List.mapM_cons, List.mapM_cons, ofText?_of_parse ht, ih]

/-- Output without a line that is not blank has no entries. -/
theorem listOfText?_blank {s : String} (h : Text.isBlank s = true) : listOfText? s = some [] := by
  have hnone : Text.trim s.toList = [] := Text.trim_eq_nil.mpr h
  simp only [listOfText?, hnone]

/-- An array is read item by item, whatever white space is around it. -/
theorem listOfText?_array {array front back : List Char} (harray : ListText es array)
    (hes : List.Forall₂ (fun e t => Tree.parse? e = some t) es trees) (hfront : front.all Text.isSpace = true)
    (hback : back.all Text.isSpace = true) :
    listOfText? (String.ofList (front ++ array ++ back)) = trees.mapM ofTree? := by
  have hparse := Json.parse?_trim (Json.parse?_list harray hes)
  obtain ⟨rest, hrest⟩ : ∃ rest, array = '[' :: rest := by cases harray <;> exact ⟨_, rfl⟩
  obtain ⟨rest', htrim⟩ := Text.trim_cons (c := '[') (by decide) rest
  rw [← hrest] at htrim
  rw [htrim] at hparse
  simp only [listOfText?, String.toList_ofList, Text.trim_around hfront hback, htrim, hparse]
  rfl

/-- Lines of objects do not look like an array. -/
theorem not_bracket (h : Printed es s) (hes : List.Forall₂ Writes es trees) (rest : List Char) : s ≠ '[' :: rest := by
  have hobject {e r : List Char} {t : Tree} (he : Writes e t) : e ++ r ≠ '[' :: rest := by
    intro hs
    cases e with
    | nil => exact absurd he.not_blank (by simp)
    | cons c e =>
      cases hs
      obtain ⟨items, hitems⟩ := Json.parse?_bracket he.parse
      obtain ⟨fields, hfields⟩ := he.isObject
      rw [hfields] at hitems
      cases hitems
  cases h with
  | done hb =>
    rintro rfl
    simp at hb
    exact absurd hb.1 (by decide)
  | last e =>
    cases hes with
    | cons he hes => simpa using hobject (r := []) he
  | @blank b s' _ hb hline h =>
    intro hs
    cases b with
    | nil => cases hs
    | cons c b =>
      cases hs
      simp at hb
      exact absurd hb.1 (by decide)
  | line e hmark h =>
    cases hes with
    | cons he hes => exact hobject he

/-- Lines are read one by one. -/
theorem listOfText?_lines (h : Printed es s) (hes : List.Forall₂ Writes es trees) :
    listOfText? (String.ofList s) = trees.mapM ofTree? := by
  by_cases hnil : trees = []
  · have hblank : Text.isBlank (String.ofList s) = true := by
      rw [Text.isBlank, String.toList_ofList]
      exact (h.blank_iff hes).mpr hnil
    rw [listOfText?_blank hblank, hnil]
    rfl
  · obtain ⟨es', hes', hstart⟩ := h.trimStart hes
    obtain ⟨es'', hes'', htrim⟩ := hstart.trimEnd hes' hnil
    have hentries := mapM_ofText? (htrim.filled hes'')
    have hbracket := not_bracket htrim hes''
    have hfilled : Text.trimEnd (Text.trimStart s) ≠ [] := by
      intro hnone
      have hblank := htrim.not_blank hes'' hnil
      rw [hnone] at hblank
      cases hblank
    simp only [listOfText?, String.toList_ofList, Text.trim]
    exact hentries

theorem mapM_eq_some_iff {entries : List PsEntry} (h : List.Forall₂ (fun e t => Tree.parse? e = some t) es trees) :
    trees.mapM ofTree? = some entries ↔ List.Forall₂ (fun e entry => ofText? e = some entry) es entries := by
  induction h generalizing entries with
  | nil => simp [eq_comm]
  | @cons e t es trees ht _ ih =>
    simp only [List.mapM_cons, ← ofText?_of_parse ht, Option.bind_eq_bind, Option.bind_eq_some_iff,
      List.forall₂_cons_left_iff]
    constructor
    · rintro ⟨entry, hentry, rest, hrest, hall⟩
      cases hall
      exact ⟨entry, rest, hentry, ih.mp hrest, rfl⟩
    · rintro ⟨entry, rest, hentry, hrest, rfl⟩
      exact ⟨entry, hentry, rest, ih.mpr hrest, rfl⟩

theorem mapM_eq_none_iff (h : List.Forall₂ (fun e t => Tree.parse? e = some t) es trees) :
    trees.mapM ofTree? = none ↔ ∃ e ∈ es, ofText? e = none := by
  induction h with
  | nil => simp
  | @cons e t es trees ht _ ih =>
    rw [List.exists_mem_cons_iff, ← ih, ofText?_of_parse ht, List.mapM_cons]
    cases ofTree? t <;> cases trees.mapM ofTree? <;> simp

theorem writes_of_objects (h : ∀ e ∈ es, (∃ fields, Tree.parse? e = some (.obj fields)) ∧ '\n' ∉ e) :
    ∃ trees, List.Forall₂ Writes es trees := by
  induction es with
  | nil => exact ⟨[], .nil⟩
  | cons e r ih =>
    obtain ⟨⟨⟨fields, hparse⟩, hline⟩, hr⟩ := List.forall_mem_cons.mp h
    obtain ⟨trees, htrees⟩ := ih hr
    exact ⟨.obj fields :: trees, .cons ⟨hparse, ⟨fields, rfl⟩, hline⟩ htrees⟩

/-- Texts with the same tokens are read as the same values. -/
theorem parse_of_tokens {es' : List (List Char)} (hsame : List.Forall₂ (fun e e' => tokens e' = tokens e) es es')
    (hes : List.Forall₂ Writes es trees) : List.Forall₂ (fun e t => Tree.parse? e = some t) es' trees := by
  induction hsame generalizing trees with
  | nil =>
    cases hes
    exact .nil
  | cons he _ ih =>
    cases hes with
    | cons hwrites hes =>
      refine .cons ?_ (ih hes)
      rw [Tree.parse?, he]
      exact hwrites.parse

/-- Both forms of the service list mean the same. The same objects, as one array with any blanks between the tokens and any white
space around it, and as lines with any blank lines between them, are read as the same entries in the same order; both are refused
exactly if one of the objects is no entry. -/
theorem listings_agree {es es' : List (List Char)} {array front back printed : List Char}
    (hobjects : ∀ e ∈ es, (∃ fields, Tree.parse? e = some (.obj fields)) ∧ '\n' ∉ e)
    -- The items of the array are the same texts, with other blanks between their tokens.
    (hsame : List.Forall₂ (fun e e' => tokens e' = tokens e) es es') (harray : ListText es' array)
    (hfront : front.all Text.isSpace = true) (hback : back.all Text.isSpace = true) (hprinted : Printed es printed) :
    let one := listOfText? (String.ofList (front ++ array ++ back))
    let many := listOfText? (String.ofList printed)
    one = many ∧
    (∀ entries, many = some entries ↔ List.Forall₂ (fun e entry => ofText? e = some entry) es entries) ∧
    (many = none ↔ ∃ e ∈ es, ofText? e = none) ∧
    ∀ s, Text.isBlank s = true → listOfText? s = some [] := by
  intro one many
  obtain ⟨trees, hes⟩ := writes_of_objects hobjects
  have hparse : List.Forall₂ (fun e t => Tree.parse? e = some t) es trees := hes.imp fun _ _ h => h.parse
  have hone : one = trees.mapM ofTree? := listOfText?_array harray (parse_of_tokens hsame hes) hfront hback
  have hmany : many = trees.mapM ofTree? := listOfText?_lines hprinted hes
  refine ⟨hone.trans hmany.symm, fun entries => ?_, ?_, fun s hs => listOfText?_blank hs⟩
  · rw [hmany]
    exact mapM_eq_some_iff hparse
  · rw [hmany]
    exact mapM_eq_none_iff hparse

/-- A port that is out of range spoils the list in both forms, also behind an entry that is good. -/
theorem bad_port_spoils_list :
    let good := "\x7b\"Service\":\"a\"\x7d".toList
    let head := "\x7b\"Publishers\":[".toList
    let rest := "\x7b\"PublishedPort\":70000\x7d]\x7d".toList
    let bad := head ++ rest
    let spread := head ++ ['\n', ' '] ++ rest
    let array := '[' :: ([' '] ++ (good ++ (['\r', '\n'] ++ ',' :: ([] ++ (spread ++ (['\n'] ++ [']']))))))
    let printed := [' '] ++ '\n' :: (good ++ (['\r', '\n'] ++ ([] ++ '\n' :: bad)))
    (∀ e ∈ [good, bad], (∃ fields, Tree.parse? e = some (.obj fields)) ∧ '\n' ∉ e) ∧
    List.Forall₂ (fun e e' => tokens e' = tokens e) [good, bad] [good, spread] ∧
    ListText [good, spread] array ∧ Printed [good, bad] printed ∧
    listOfText? (String.ofList (['\t'] ++ array ++ ['\n'])) = none ∧ listOfText? (String.ofList printed) = none := by
  intro good head rest bad spread array printed
  have hgood : Tree.parse? good = some (.obj [(some "Service", .str (some "a"))]) := by
    simp only [good]
    cbv
  have hport : Tree.parse? bad =
      some (.obj [(some "Publishers", .arr [.obj [(some "PublishedPort", .num (some (.int 70000)))]])]) := by
    simp only [bad, head, rest]
    cbv
  have hspread : tokens spread = tokens bad := by
    have hhead : tokens head = some [.openObj, .str (some "Publishers"), .colon, .openArr] := by
      simp only [head]
      cbv
    have hrest : tokens rest = some [.openObj, .str (some "PublishedPort"), .colon, .num (some (.int 70000)), .closeObj,
        .closeArr, .closeObj] := by
      simp only [rest]
      cbv
    refine Json.tokens_spread (by decide) hhead hrest ?_
    simp only [head, rest]
    cbv
  have hobjects : ∀ e ∈ [good, bad], (∃ fields, Tree.parse? e = some (.obj fields)) ∧ '\n' ∉ e := by
    intro e he
    rcases List.mem_pair.mp he with rfl | rfl
    · exact ⟨⟨_, hgood⟩, by decide⟩
    · exact ⟨⟨_, hport⟩, by decide⟩
  have hsame : List.Forall₂ (fun e e' => tokens e' = tokens e) [good, bad] [good, spread] :=
    .cons rfl (.cons hspread .nil)
  have harray : ListText [good, spread] array := .items (by decide) (.item (by decide) (by decide) (.close (by decide)))
  have hprinted : Printed [good, bad] printed :=
    .blank (by decide) (by decide) (.line good (.inr rfl) (.blank (by decide) (by decide) (.last bad)))
  have hfront : ['\t'].all Text.isSpace = true := by decide
  have hback : ['\n'].all Text.isSpace = true := by decide
  obtain ⟨hagree, -, hnone, -⟩ := listings_agree hobjects hsame harray hfront hback hprinted
  have hbad : ofText? bad = none := by decide +kernel
  have hlines := hnone.mpr ⟨bad, by simp, hbad⟩
  exact ⟨hobjects, hsame, harray, hprinted, hagree.trans hlines, hlines⟩

end PsEntry

end Compose

end StackDeck
