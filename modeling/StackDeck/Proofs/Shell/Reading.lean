import StackDeck.Proofs.Shell.Channel

/-!
Reading a running command, both its streams at once. What is read is what comes, in this order, until the reader is told to
stop; nothing is read of a stream behind its end.
-/

namespace StackDeck.Shell

/-- Whether a reader still looks at the stream of an observation. -/
def Observation.isAwaited (outOpen errOpen : Bool) (o : Observation) : Bool := if o.isError then errOpen else outOpen

/-- What is read of a command until its reader is told to stop. -/
def heard (outOpen errOpen : Bool) : List Moment → List Observation
  | [] => []
  | .told :: _ => []
  | .seen o :: r =>
    if o.isAwaited outOpen errOpen then o :: heard (outOpen && o != .closed false) (errOpen && o != .closed true) r
    else heard outOpen errOpen r

/-- Whether a stream is still open after some observations. -/
def opensAfter (isOpen isError : Bool) (os : List Observation) : Bool := isOpen && !os.contains (.closed isError)

variable {outOpen errOpen : Bool} {os os' : List Observation} {ms : List Moment}

theorem opensAfter_cons (isOpen isError : Bool) (o : Observation) (os : List Observation) :
    opensAfter isOpen isError (o :: os) = opensAfter (isOpen && o != .closed isError) isError os := by
  have hsame : (Observation.closed isError == o) = (o == .closed isError) := BEq.comm
  simp only [opensAfter, List.contains_cons, hsame, bne, Bool.not_or, Bool.and_assoc]

theorem opensAfter_snoc (isOpen isError : Bool) (os : List Observation) (o : Observation) :
    opensAfter isOpen isError (os ++ [o]) = (opensAfter isOpen isError os && o != .closed isError) := by
  have hlast : [o].contains (.closed isError) = (o == .closed isError) := by
    rw [List.contains_cons, List.contains_nil, Bool.or_false, BEq.comm]
  rw [opensAfter, opensAfter, List.contains_append, hlast, Bool.not_or, bne, Bool.and_assoc]

theorem heard_nothing (ms : List Moment) : heard false false ms = [] := by
  induction ms with
  | nil => rfl
  | cons m r ih =>
    cases m with
    | told => rfl
    | seen o =>
      have hdeaf : o.isAwaited false false = false := by
        unfold Observation.isAwaited
        split <;> rfl
      rw [heard, hdeaf]
      exact ih

theorem heard_sublist (outOpen errOpen : Bool) (os : List Observation) : (heard outOpen errOpen (os.map .seen)).Sublist os := by
  induction os generalizing outOpen errOpen with
  | nil => exact .slnil
  | cons o r ih =>
    rw [List.map_cons, heard]
    split
    · exact (ih _ _).cons_cons o
    · exact (ih _ _).cons o

/-- What is read after some observations does not depend on what they were but for the ends of the streams. -/
theorem heard_append (outOpen errOpen : Bool) (os : List Observation) (ms : List Moment) :
    heard outOpen errOpen (os.map .seen ++ ms) =
      let first := heard outOpen errOpen (os.map .seen)
      first ++ heard (opensAfter outOpen false first) (opensAfter errOpen true first) ms := by
  induction os generalizing outOpen errOpen with
  | nil => simp [heard, opensAfter]
  | cons o r ih =>
    rw [List.map_cons, List.cons_append, heard, heard]
    split
    · rw [ih]
      simp only [opensAfter_cons, List.cons_append]
    · exact ih _ _

/-- What is seen of a command in some moments. -/
def seenIn (ms : List Moment) : List Observation :=
  ms.filterMap fun
    | .seen o => some o
    | .told => none

theorem heard_closed (isError : Bool) (h : (if isError then errOpen else outOpen) = false) :
    (heard outOpen errOpen ms).filter (·.isError == isError) = [] := by
  induction ms generalizing outOpen errOpen with
  | nil => rfl
  | cons m r ih =>
    cases m with
    | told => rfl
    | seen o =>
      rw [heard]
      split
      next hawaited =>
        have hother : o.isError ≠ isError := by
          rintro rfl
          rw [Observation.isAwaited, h] at hawaited
          cases hawaited
        have hstill : (if isError then errOpen && o != .closed true else outOpen && o != .closed false) = false := by
          cases isError <;> simp_all
        rw [List.filter_cons_of_neg (by simpa using hother)]
        exact ih hstill
      next => exact ih h

/-- What is read of one stream is the first part of what is seen of it. -/
theorem heard_stream (isError outOpen errOpen : Bool) (ms : List Moment) :
    (heard outOpen errOpen ms).filter (·.isError == isError) <+: (seenIn ms).filter (·.isError == isError) := by
  induction ms generalizing outOpen errOpen with
  | nil => exact List.prefix_rfl
  | cons m r ih =>
    cases m with
    | told => exact List.nil_prefix
    | seen o =>
      have hseen : seenIn (.seen o :: r) = o :: seenIn r := rfl
      rw [heard, hseen]
      by_cases hsame : o.isError = isError
      · split
        next =>
          rw [List.filter_cons_of_pos (by simpa using hsame), List.filter_cons_of_pos (by simpa using hsame)]
          exact List.cons_prefix_cons.mpr ⟨rfl, ih _ _⟩
        next hignored =>
          have hclosed : (if isError then errOpen else outOpen) = false := by
            rw [← hsame]
            simpa [Observation.isAwaited] using hignored
          rw [heard_closed isError hclosed]
          exact List.nil_prefix
      · rw [List.filter_cons_of_neg (a := o) (by simpa using hsame)]
        split
        next =>
          rw [List.filter_cons_of_neg (by simpa using hsame)]
          exact ih _ _
        next => exact ih _ _

/-- Observations that can all be read, one after another. -/
def Orderly (outOpen errOpen : Bool) (os : List Observation) : Prop := heard outOpen errOpen (os.map .seen) = os

theorem Orderly.cons_iff {o : Observation} :
    Orderly outOpen errOpen (o :: os) ↔
      o.isAwaited outOpen errOpen = true ∧ Orderly (outOpen && o != .closed false) (errOpen && o != .closed true) os := by
  unfold Orderly
  rw [List.map_cons, heard]
  constructor
  · intro h
    split at h
    next hawaited => exact ⟨hawaited, (List.cons.inj h).2⟩
    next =>
      have hlength := (heard_sublist outOpen errOpen os).length_le
      rw [h, List.length_cons] at hlength
      omega
  · rintro ⟨hawaited, h⟩
    rw [if_pos hawaited, h]

theorem Orderly.append_iff :
    Orderly outOpen errOpen (os ++ os') ↔
      Orderly outOpen errOpen os ∧ Orderly (opensAfter outOpen false os) (opensAfter errOpen true os) os' := by
  induction os generalizing outOpen errOpen with
  | nil => simp [Orderly, heard, opensAfter]
  | cons o r ih => rw [List.cons_append, Orderly.cons_iff, Orderly.cons_iff, ih, opensAfter_cons, opensAfter_cons, and_assoc]

/-- While something is still to come, one of the streams is open. -/
theorem Orderly.opens (h : Orderly outOpen errOpen os) (hne : os ≠ []) : (outOpen || errOpen) = true := by
  by_contra hclosed
  obtain ⟨rfl, rfl⟩ : outOpen = false ∧ errOpen = false := by simpa using hclosed
  have hnone := heard_nothing (os.map .seen)
  rw [h] at hnone
  exact hne hnone

theorem heard_orderly (h : Orderly outOpen errOpen os) (ms : List Moment) :
    heard outOpen errOpen (os.map .seen ++ ms) =
      os ++ heard (opensAfter outOpen false os) (opensAfter errOpen true os) ms := by
  rw [heard_append, h]

/-- What is seen of one stream can be read as long as it is open. -/
theorem orderly_stream (isError hangs : Bool) (done : List (List UInt8)) (rest : List UInt8)
    (h : (if isError then errOpen else outOpen) = true) :
    Orderly outOpen errOpen (streamObservations isError hangs done rest) := by
  have hlast : Orderly outOpen errOpen [.closed isError] := Orderly.cons_iff.mpr ⟨h, rfl⟩
  have hline (s : String) {os : List Observation} (hos : Orderly outOpen errOpen os) :
      Orderly outOpen errOpen (.line isError s :: os) := by
    refine Orderly.cons_iff.mpr ⟨h, ?_⟩
    have hopen (b : Bool) : (Observation.line isError s != .closed b) = true := bne_iff_ne.mpr nofun
    rw [hopen, hopen, Bool.and_true, Bool.and_true]
    exact hos
  induction done with
  | nil =>
    rw [streamObservations]
    split
    · rfl
    split
    · exact hlast
    split
    · exact hline _ hlast
    · exact hlast
  | cons l more ih =>
    rw [streamObservations]
    split
    · exact hline _ ih
    · exact hlast

theorem closed_mem_stream (isError : Bool) (done : List (List UInt8)) (rest : List UInt8) :
    .closed isError ∈ streamObservations isError false done rest := by
  rw [streamObservations_eq]
  exact List.mem_append_right _ (List.mem_singleton_self _)

namespace Output

theorem observations_orderly (o : Output) : Orderly true true o.observations := by
  refine Orderly.append_iff.mpr ⟨orderly_stream false _ _ _ rfl, orderly_stream true _ _ _ ?_⟩
  have hother : Observation.closed true ∉ streamObservations false o.hangs (splitOctets o.stdout).1 (splitOctets o.stdout).2 :=
    fun hmem => absurd (streamObservations_isError hmem) nofun
  simp [opensAfter, hother]

theorem observations_closed {o : Output} (h : o.hangs = false) (isError : Bool) : .closed isError ∈ o.observations := by
  unfold observations
  rw [h]
  cases isError with
  | false => exact List.mem_append_left _ (closed_mem_stream false _ _)
  | true => exact List.mem_append_right _ (closed_mem_stream true _ _)

end Output

end StackDeck.Shell
