import Mathlib.Data.List.Induction
import Mathlib.Data.List.ReduceOption
import StackDeck.Shell.Host

/-!
One stream of a running command. Its reader sees it line by line as the octets come, and never looks behind a line that is not
well-formed UTF-8.
-/

namespace StackDeck.Shell

def Observation.isError : Observation → Bool
  | .line isError _ => isError
  | .closed isError => isError

/-- The text of a line that a line feed has ended. -/
def lineText? (line : List UInt8) : Option String :=
  (Text.Utf8.decode? line).map fun s => String.ofList (Text.dropReturn s.toList)

/-- The texts of the lines of a stream, none where a line has no text. -/
def texts (hangs : Bool) (done : List (List UInt8)) (rest : List UInt8) : List (Option String) :=
  done.map lineText? ++ if hangs || rest.isEmpty then [] else [Text.Utf8.decode? rest]

/-- What its reader sees of a stream are the lines before the first without a text, and that the stream ends there, or where it
ends in truth. -/
theorem streamObservations_eq (isError hangs : Bool) (done : List (List UInt8)) (rest : List UInt8) :
    streamObservations isError hangs done rest =
      ((texts hangs done rest).takeWhile Option.isSome).reduceOption.map (.line isError) ++
        if hangs && (texts hangs done rest).all Option.isSome then [] else [.closed isError] := by
  induction done with
  | nil =>
    rw [streamObservations, texts, List.map_nil, List.nil_append]
    cases hangs with
    | true => rfl
    | false =>
      cases hrest : rest.isEmpty with
      | true => rfl
      | false => cases Text.Utf8.decode? rest <;> simp
  | cons l more ih =>
    rw [streamObservations]
    have htexts : texts hangs (l :: more) rest = lineText? l :: texts hangs more rest := rfl
    cases hd : Text.Utf8.decode? l with
    | none =>
      have hl : lineText? l = none := by rw [lineText?, hd, Option.map_none]
      rw [htexts, hl]
      simp
    | some s =>
      have hl : lineText? l = some (String.ofList (Text.dropReturn s.toList)) := by rw [lineText?, hd, Option.map_some]
      rw [htexts, hl, ih]
      simp

theorem streamObservations_isError {isError hangs : Bool} {done : List (List UInt8)} {rest : List UInt8} {o : Observation}
    (ho : o ∈ streamObservations isError hangs done rest) : o.isError = isError := by
  rw [streamObservations_eq] at ho
  rcases List.mem_append.mp ho with ho | ho
  · obtain ⟨s, -, rfl⟩ := List.mem_map.mp ho
    rfl
  · split at ho
    · cases ho
    · rw [List.mem_singleton.mp ho]
      rfl

/-- Lines that come later are seen later. -/
theorem streamObservations_prefix (isError hangs : Bool) (done more : List (List UInt8)) (rest rest' : List UInt8) :
    streamObservations isError true done rest <+: streamObservations isError hangs (done ++ more) rest' := by
  induction done with
  | nil => exact List.nil_prefix
  | cons l r ih =>
    rw [List.cons_append, streamObservations, streamObservations]
    cases Text.Utf8.decode? l with
    | none => exact List.prefix_rfl
    | some s => exact List.cons_prefix_cons.mpr ⟨rfl, ih⟩

/-- Octets that come later do not change the lines before them. -/
theorem splitOctets_append (as bs : List UInt8) :
    ∃ more, (splitOctets (as ++ bs)).1 = (splitOctets as).1 ++ more := by
  induction as with
  | nil => exact ⟨_, rfl⟩
  | cons b r ih =>
    obtain ⟨more, hmore⟩ := ih
    rw [List.cons_append, splitOctets, splitOctets]
    rcases hr : splitOctets r with ⟨done, rest⟩
    rcases hrs : splitOctets (r ++ bs) with ⟨done', rest'⟩
    rw [hr, hrs] at hmore
    obtain rfl : done' = done ++ more := hmore
    dsimp only
    split
    · exact ⟨more, rfl⟩
    · cases done with
      | nil => cases more <;> exact ⟨_, rfl⟩
      | cons l ls => exact ⟨more, rfl⟩

theorem splitOctets_line {line : List UInt8} (h : 10 ∉ line) (more : List UInt8) :
    splitOctets (line ++ 10 :: more) = (line :: (splitOctets more).1, (splitOctets more).2) := by
  induction line with
  | nil => rfl
  | cons b r ih =>
    have hb : (b == 10) = false := beq_eq_false_iff_ne.mpr fun hb => h (hb ▸ List.mem_cons_self)
    rw [List.cons_append, splitOctets, ih fun hr => h (List.mem_cons_of_mem b hr), hb]
    rfl

/-- Lines that were written one after another are found again. -/
theorem splitOctets_lines {ls : List (List UInt8)} (h : ∀ l ∈ ls, 10 ∉ l) :
    splitOctets (ls.flatMap (· ++ [10])) = (ls, []) := by
  induction ls with
  | nil => rfl
  | cons l r ih =>
    obtain ⟨hl, hr⟩ := List.forall_mem_cons.mp h
    rw [List.flatMap_cons, List.append_assoc]
    exact (splitOctets_line hl _).trans (congrArg (fun s => (l :: s.1, s.2)) (ih hr))

/-- A stream as far as it has come. -/
structure Channel where
  octets : List UInt8 := []
  ended : Bool := false
  deriving DecidableEq

namespace Channel

/-- More is written, if the stream has not ended. -/
def write (more : List UInt8) (c : Channel) : Channel := if c.ended then c else { c with octets := c.octets ++ more }

def close (c : Channel) : Channel := { c with ended := true }

/-- The lines so far, none for one that is not well-formed. What comes after the last line feed is a line when the stream ends. -/
def lines (c : Channel) : List (Option String) := texts (!c.ended) (splitOctets c.octets).1 (splitOctets c.octets).2

theorem lines_of_ended {ls : List (List UInt8)} (h : ∀ l ∈ ls, 10 ∉ l) (ended : Bool) :
    (⟨ls.flatMap (· ++ [10]), ended⟩ : Channel).lines = ls.map lineText? := by
  rw [lines, splitOctets_lines h, texts]
  simp

/-- The lines before the first that is not well-formed. -/
def readable (c : Channel) : List String := (c.lines.takeWhile Option.isSome).reduceOption

/-- Nothing more is to be read of it. -/
def isDone (c : Channel) : Bool := c.ended || c.lines.any Option.isNone

def observations (isError : Bool) (c : Channel) : List Observation :=
  streamObservations isError (!c.ended) (splitOctets c.octets).1 (splitOctets c.octets).2

variable {isError : Bool} {c : Channel}

theorem observations_prefix_write (isError : Bool) (more : List UInt8) (c : Channel) :
    c.observations isError <+: (c.write more).observations isError := by
  unfold write
  split
  · exact List.prefix_rfl
  next hopen =>
    obtain ⟨ls, hls⟩ := splitOctets_append c.octets more
    have hended : c.ended = false := by simpa using hopen
    rw [observations, observations, hls, hended]
    exact streamObservations_prefix _ _ _ _ _ _

theorem observations_prefix_close (isError : Bool) (c : Channel) :
    c.observations isError <+: c.close.observations isError := by
  cases hended : c.ended with
  | true =>
    have hsame : c.close = c := by rw [close, ← hended]
    exact hsame ▸ List.prefix_rfl
  | false =>
    have hlines := streamObservations_prefix isError false (splitOctets c.octets).1 [] (splitOctets c.octets).2
      (splitOctets c.octets).2
    rw [List.append_nil] at hlines
    rw [observations, hended]
    exact hlines

/-- The lines that are seen are those that can be read. -/
theorem observations_eq (isError : Bool) (c : Channel) :
    c.observations isError = c.readable.map (.line isError) ++ if c.isDone then [.closed isError] else [] := by
  have hdone : c.isDone = !(!c.ended && c.lines.all Option.isSome) := by
    rw [isDone, Bool.not_and, Bool.not_not, List.not_all_eq_any_not]
    simp only [Option.not_isSome]
  rw [observations, streamObservations_eq, readable, hdone, lines]
  cases !c.ended && (texts (!c.ended) (splitOctets c.octets).1 (splitOctets c.octets).2).all Option.isSome <;> rfl

/-- A carriage return goes with its line feed, and a line behind one that is not well-formed is not read. -/
example : (⟨[104, 105, 13, 10, 255, 10, 106, 10], false⟩ : Channel).readable = ["hi"] := by cbv

theorem done_of_closed (h : .closed isError ∈ c.observations isError) : c.isDone = true := by
  rw [observations_eq] at h
  by_contra hdone
  rw [if_neg hdone, List.append_nil] at h
  exact absurd h (by simp)

/-- Nothing is seen of a stream after its end. -/
theorem nothing_after_closed {before after : List Observation} (h : c.observations isError = before ++ after)
    (hclosed : .closed isError ∈ before) : after = [] := by
  have hnot : .closed isError ∉ c.readable.map (Observation.line isError) := by simp
  rw [observations_eq] at h
  split at h
  next =>
    cases after using List.reverseRecOn with
    | nil => rfl
    | append_singleton after o =>
      rw [← List.append_assoc] at h
      exact absurd ((List.append_inj' h rfl).1 ▸ List.mem_append_left after hclosed) hnot
  next =>
    rw [List.append_nil] at h
    exact absurd (h ▸ List.mem_append_left after hclosed) hnot

end Channel

end StackDeck.Shell
