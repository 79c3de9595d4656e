import Mathlib
import StackDeck.Compose.Project
import StackDeck.Proofs.Shell.Reading

/-!
What is reported of a long Compose command, and how it ends for its caller. Both depend only on what is read of its two streams
until the caller is told to stop, in whatever order they come.
-/

namespace StackDeck.Compose

open Shell

/-- The text that is shown for something that is seen of a command. -/
def shown? : Observation → Option String
  | .line _ text => if (Text.trimmed text).isEmpty then none else some (Text.trimmed text)
  | .closed _ => none

/-- The texts that are shown for what is read, in the order in which it is read. -/
def textsOf (read : List Observation) : List String := read.filterMap shown?

/-- The last few of the texts, or all of them if they are fewer. -/
def lastFew (texts : List String) : List String := texts.drop (texts.length - min errorTailLines texts.length)

namespace Following

variable {phase : String} {f : Following} {read : List Observation} {o : Observation}

/-- A follower that has read this much of its command. -/
structure HasRead (phase : String) (read : List Observation) (f : Following) : Prop where
  steps : f.steps = (textsOf read).map (Progress.mk phase)
  recent : f.recent = lastFew (textsOf read)
  outOpen : f.outOpen = opensAfter true false read
  errOpen : f.errOpen = opensAfter true true read

theorem hasRead_nothing (phase : String) : HasRead phase [] {} := ⟨rfl, rfl, rfl, rfl⟩

theorem keepRecent_lastFew (text : String) (texts : List String) :
    keepRecent text (lastFew texts) = lastFew (texts ++ [text]) := by
  have hlength : (lastFew texts).length = min errorTailLines texts.length := by
    rw [lastFew, List.length_drop]
    omega
  unfold keepRecent
  by_cases hfull : errorTailLines ≤ texts.length
  · have hall : ((lastFew texts).length == errorTailLines) = true := by
      rw [hlength, beq_iff_eq]
      omega
    have hmore : texts.length - min errorTailLines texts.length + 1 =
        (texts ++ [text]).length - min errorTailLines (texts ++ [text]).length := by
      rw [List.length_append, List.length_singleton]
      omega
    have hle : texts.length - min errorTailLines texts.length + 1 ≤ texts.length := by
      unfold errorTailLines at hfull ⊢
      omega
    rw [if_pos hall, lastFew, lastFew, List.drop_drop, ← hmore, List.drop_append_of_le_length hle]
  · have hsome : ¬ ((lastFew texts).length == errorTailLines) = true := by
      rw [hlength, beq_iff_eq]
      omega
    have hnone : texts.length - min errorTailLines texts.length = 0 := by omega
    have hnone' : (texts ++ [text]).length - min errorTailLines (texts ++ [text]).length = 0 := by
      rw [List.length_append, List.length_singleton]
      omega
    rw [if_neg hsome, lastFew, lastFew, hnone, hnone', List.drop_zero, List.drop_zero]

theorem textsOf_snoc (read : List Observation) (o : Observation) : textsOf (read ++ [o]) = textsOf read ++ (shown? o).toList := by
  rw [textsOf, textsOf, List.filterMap_append]
  cases hshown : shown? o <;> simp [hshown]

theorem openings_observe (phase : String) (f : Following) (o : Observation) :
    (f.observe phase o).outOpen = (f.outOpen && o != .closed false) ∧
      (f.observe phase o).errOpen = (f.errOpen && o != .closed true) := by
  cases o with
  | line isError text =>
    have hkept : (f.observe phase (.line isError text)).outOpen = f.outOpen ∧
        (f.observe phase (.line isError text)).errOpen = f.errOpen := by
      simp only [observe]
      generalize ((if isError then f.errOpen else f.outOpen) && !(Text.trimmed text).isEmpty) = reported
      cases reported <;> exact ⟨rfl, rfl⟩
    have hother (b : Bool) : (Observation.line isError text != .closed b) = true := bne_iff_ne.mpr nofun
    rw [hother, hother, Bool.and_true, Bool.and_true]
    exact hkept
  | closed isError => cases isError <;> simp [observe]

theorem reports_observe (phase : String) (hawaited : o.isAwaited f.outOpen f.errOpen = true) :
    (f.observe phase o).steps = f.steps ++ (shown? o).toList.map (Progress.mk phase) ∧
      (f.observe phase o).recent = (shown? o).elim f.recent fun text => keepRecent text f.recent := by
  cases o with
  | line isError text =>
    have hstream : (if isError then f.errOpen else f.outOpen) = true := hawaited
    cases hblank : (Text.trimmed text).isEmpty <;> simp_all [observe, shown?]
  | closed isError => cases isError <;> simp [observe, shown?]

/-- What is seen of a stream that the follower awaits is read. -/
theorem HasRead.observe (h : f.HasRead phase read) (hawaited : o.isAwaited f.outOpen f.errOpen = true) :
    (f.observe phase o).HasRead phase (read ++ [o]) := by
  obtain ⟨hsteps, hrecent⟩ := reports_observe phase hawaited
  obtain ⟨hout, herr⟩ := openings_observe phase f o
  refine ⟨?_, ?_, ?_, ?_⟩
  · rw [hsteps, h.steps, textsOf_snoc, List.map_append]
  · rw [hrecent, h.recent, textsOf_snoc]
    cases shown? o with
    | none => simp
    | some text => exact keepRecent_lastFew text _
  · rw [hout, h.outOpen, opensAfter_snoc]
  · rw [herr, h.errOpen, opensAfter_snoc]

/-- Nothing else is. -/
theorem observe_ignored (hignored : o.isAwaited f.outOpen f.errOpen = false) : f.observe phase o = f := by
  cases o with
  | line isError text =>
    have hstream : (if isError then f.errOpen else f.outOpen) = false := hignored
    simp [observe, hstream]
  | closed isError =>
    cases isError with
    | true =>
      have hstream : f.errOpen = false := hignored
      rw [observe, ← hstream]
    | false =>
      have hstream : f.outOpen = false := hignored
      rw [observe, ← hstream]

/-- A follower that is not told to stop has read all that it could. -/
theorem HasRead.run (h : f.HasRead phase read) (ms : List Moment) :
    (f.run phase ms).1.HasRead phase (read ++ heard f.outOpen f.errOpen ms) := by
  induction ms generalizing f read with
  | nil => simpa [Following.run, heard] using h
  | cons m r ih =>
    cases m with
    | told => simpa [Following.run, heard] using h
    | seen o =>
      rw [Following.run, heard]
      split
      next hawaited =>
        have hmore := ih (h.observe hawaited)
        obtain ⟨hout, herr⟩ := openings_observe phase f o
        rw [hout, herr] at hmore
        simpa using hmore
      next hignored =>
        rw [observe_ignored (by simpa using hignored)]
        exact ih h

theorem run_told (phase : String) (f : Following) (ms : List Moment) : (f.run phase ms).2 = true ↔ .told ∈ ms := by
  induction ms generalizing f with
  | nil => simp [run]
  | cons m r ih =>
    cases m with
    | told => simp [run]
    | seen o => simp [run, ih]

/-- What comes after the follower was told to stop means nothing. -/
theorem run_stops (phase : String) (f : Following) (before after : List Moment) :
    f.run phase (before ++ .told :: after) = ((f.run phase before).1, true) := by
  induction before generalizing f with
  | nil => rfl
  | cons m r ih =>
    cases m with
    | told => rfl
    | seen o => exact ih (f.observe phase o)

/-! ### How the command ends for its caller -/

theorem HasRead.closed_iff (h : f.HasRead phase read) : f.closed = true ↔ .closed false ∈ read ∧ .closed true ∈ read := by
  simp [closed, h.outOpen, h.errOpen, opensAfter]

/-- The caller succeeds if both streams have ended, he was not told to stop, and the command succeeds. -/
theorem HasRead.succeeds_iff (h : f.HasRead phase read) (command : String) (exit : Option ExitStatus) (told : Bool) :
    f.outcome? command exit told = some (.ok ()) ↔
      .closed false ∈ read ∧ .closed true ∈ read ∧ told = false ∧ ∃ status, exit = some status ∧ status.success = true := by
  rw [← and_assoc, ← h.closed_iff, outcome?]
  cases told with
  | true => simp
  | false =>
    cases hclosed : f.closed with
    | false => simp
    | true =>
      cases exit with
      | none => simp
      | some status => cases hsuccess : status.success <;> simp [hsuccess]

theorem HasRead.fails (h : f.HasRead phase read) (command : String) {status : ExitStatus} (hstatus : status.success = false)
    (hout : .closed false ∈ read) (herr : .closed true ∈ read) :
    f.outcome? command (some status) false =
      some (.error (.failed command status.render ("\n".intercalate (lastFew (textsOf read))))) := by
  simp [outcome?, h.closed_iff.mpr ⟨hout, herr⟩, hstatus, h.recent]

/-! ### Callers that stop after some steps -/

theorem steps_observe (phase : String) (f : Following) (o : Observation) :
    (f.observe phase o).steps.length ≤ f.steps.length + 1 := by
  cases hawaited : o.isAwaited f.outOpen f.errOpen with
  | false =>
    rw [observe_ignored hawaited]
    omega
  | true =>
    rw [(reports_observe phase hawaited).1, List.length_append, List.length_map]
    have hone : (shown? o).toList.length ≤ 1 := by cases shown? o <;> simp
    omega

theorem seenIn_moments (phase : String) (stopAfter : Option Nat) (f : Following) (os : List Observation) :
    seenIn (f.moments phase stopAfter os) = os := by
  induction os generalizing f with
  | nil =>
    rw [moments]
    split <;> rfl
  | cons o r ih =>
    rw [moments]
    split
    · simp [seenIn]
    · exact congrArg (o :: ·) (ih (f.observe phase o))

/-- Such a caller is told to stop when he has reported his steps, and not before. -/
theorem told_moments (phase : String) (stopAfter : Option Nat) (f : Following) (os : List Observation) :
    (f.run phase (f.moments phase stopAfter os)).2 =
      stopAfter.any (· ≤ (f.run phase (f.moments phase stopAfter os)).1.steps.length) := by
  induction os generalizing f with
  | nil =>
    rw [moments]
    split
    next hstop => exact hstop.symm
    next hgo => exact (Bool.eq_false_iff.mpr hgo).symm
  | cons o r ih =>
    rw [moments]
    split
    next hstop => exact hstop.symm
    next => exact ih (f.observe phase o)

theorem steps_moments (phase : String) {n : Nat} {f : Following} (hf : f.steps.length ≤ n) (os : List Observation) :
    (f.run phase (f.moments phase (some n) os)).1.steps.length ≤ n := by
  induction os generalizing f with
  | nil =>
    rw [moments]
    split <;> exact hf
  | cons o r ih =>
    rw [moments]
    split
    next => exact hf
    next hgo =>
      have hless : f.steps.length < n := by simpa using hgo
      have hstep := steps_observe phase f o
      exact ih (by omega)

end Following

theorem runWithProgress_eq (p : Project) (phase : String) (args : List String) (stopAfter : Option Nat) (h : Host) {o : Output}
    (hstart : (Host.start (p.command args) "" h).1 = .ok o) :
    (p.runWithProgress phase args stopAfter h).1 =
      let start : Following := {}
      let (f, told) := start.run phase (start.moments phase stopAfter o.observations)
      let outcome := f.outcome? (p.describe args) (if o.hangs then none else some o.status) told
      ((outcome.getD (.error .cancelled)).mapError Error.toBackend, f.steps) := by
  cases hs : Host.start (p.command args) "" h with
  | mk r h' =>
    rw [hs] at hstart
    subst hstart
    simp only [Project.runWithProgress, Project.spawn, ExceptT.run, bind, StateT.bind, ExceptT.bind, ExceptT.mk, ExceptT.bindCont,
      liftM, monadLift, MonadLift.monadLift, ExceptT.lift, Functor.map, StateT.map, hs]
    rfl

/-- A long command is reported as it is read. Whatever order its two streams come in, and wherever its caller is told to stop, the
steps are the texts of the lines that were read and are not blank, in this order; a caller who was told to stop is cancelled
however the command exits, and one who was not succeeds with the command or is given its last texts. -/
theorem progress_follows_output (p : Project) (phase : String) (args : List String) :
    let command := p.describe args
    let start : Following := {}
    (∀ ms, let read := heard true true ms
      let (f, told) := start.run phase ms
      f.steps = (textsOf read).map (Progress.mk phase) ∧
      -- Each stream is reported in its own order.
      (∀ isError, read.filter (·.isError == isError) <+: (seenIn ms).filter (·.isError == isError)) ∧
      (.told ∈ ms → ∀ exit, f.outcome? command exit told = some (.error .cancelled)) ∧
      (.told ∉ ms → .closed false ∈ read → .closed true ∈ read → ∀ status, status.success = false →
        f.outcome? command (some status) told =
          some (.error (.failed command status.render ("\n".intercalate (lastFew (textsOf read)))))) ∧
      ∀ exit, f.outcome? command exit told = some (.ok ()) ↔
        .closed false ∈ read ∧ .closed true ∈ read ∧ .told ∉ ms ∧ ∃ status, exit = some status ∧ status.success = true) ∧
    (∀ before after, start.run phase (before ++ .told :: after) = ((start.run phase before).1, true)) ∧
    -- A command that starts is reported in this way, to a caller who stops when he has reported his steps.
    ∀ stopAfter h o, (Host.start (p.command args) "" h).1 = .ok o → ∃ ms, seenIn ms = o.observations ∧
      let (f, told) := start.run phase ms
      told = stopAfter.any (· ≤ f.steps.length) ∧ (∀ n, stopAfter = some n → f.steps.length ≤ n) ∧
      let outcome := f.outcome? command (if o.hangs then none else some o.status) told
      (p.runWithProgress phase args stopAfter h).1 = ((outcome.getD (.error .cancelled)).mapError Error.toBackend, f.steps) := by
  intro command start
  refine ⟨fun ms => ?_, Following.run_stops phase start, fun stopAfter h o hstart => ?_⟩
  · have hread : (start.run phase ms).1.HasRead phase (heard true true ms) := (Following.hasRead_nothing phase).run ms
    have htold := Following.run_told phase start ms
    refine ⟨hread.steps, fun isError => heard_stream isError true true ms, fun hmem exit => ?_, fun hmem hout herr status hstatus => ?_,
      fun exit => ?_⟩
    · rw [htold.mpr hmem]
      rfl
    · have hgo : (start.run phase ms).2 = false := by simpa using (not_congr htold).mpr hmem
      rw [hgo]
      exact hread.fails command hstatus hout herr
    · have hgo : (start.run phase ms).2 = false ↔ .told ∉ ms := by rw [← htold, Bool.not_eq_true]
      rw [hread.succeeds_iff, hgo]
  · refine ⟨start.moments phase stopAfter o.observations, Following.seenIn_moments phase stopAfter start _,
      Following.told_moments phase stopAfter start _, ?_, runWithProgress_eq p phase args stopAfter h hstart⟩
    rintro n rfl
    exact Following.steps_moments phase (Nat.zero_le n) o.observations

/-- Two streams that take turns, with a blank line among their seven, are reported in the order in which they come; the failure
gives the last five. Told to stop behind its streams, the caller is cancelled though the command succeeds. -/
theorem last_five_lines_explain_failure :
    let p : Project := ⟨"docker", ".", none, []⟩
    let command := p.describe ["down"]
    let ms : List Moment := [.seen (.line true " a "), .seen (.line false "b"), .seen (.line false "\t"), .seen (.line true "c"),
      .seen (.line false "d"), .seen (.closed false), .seen (.line true "e"), .seen (.line true "f"), .seen (.closed true)]
    let start : Following := {}
    let f := (start.run "down" ms).1
    f.steps.map Progress.message = ["a", "b", "c", "d", "e", "f"] ∧
    (.told ∉ ms ∧ f.outcome? command (some (.code 1)) (start.run "down" ms).2 =
      some (.error (.failed command "exit status: 1" "b\nc\nd\ne\nf"))) ∧
    (.told ∈ ms ++ [.told] ∧ ∀ exit, (start.run "down" (ms ++ [.told])).1.outcome? command exit
      (start.run "down" (ms ++ [.told])).2 = some (.error .cancelled)) ∧
    (Host.start (p.command ["down"]) "" {}).1 = .ok Host.silence ∧
    ∃ ms, seenIn ms = Host.silence.observations := by
  intro p command ms start f
  obtain ⟨hall, -, hrun⟩ := progress_follows_output p "down" ["down"]
  have hread : textsOf (heard true true ms) = ["a", "b", "c", "d", "e", "f"] := by decide +kernel
  have hsteps : f.steps = (textsOf (heard true true ms)).map (Progress.mk "down") := (hall ms).1
  have hgo : Moment.told ∉ ms := by decide
  have hfailed : f.outcome? command (some (.code 1)) (start.run "down" ms).2 =
      some (.error (.failed command "exit status: 1" ("\n".intercalate (lastFew (textsOf (heard true true ms)))))) :=
    (hall ms).2.2.2.1 hgo (by decide) (by decide) (.code 1) rfl
  have htold : Moment.told ∈ ms ++ [.told] := by simp
  have hstart : (Host.start (p.command ["down"]) "" {}).1 = .ok Host.silence := by cbv
  obtain ⟨ms', hseen, -⟩ := hrun none {} Host.silence hstart
  refine ⟨?_, ⟨hgo, ?_⟩, ⟨htold, (hall (ms ++ [.told])).2.2.1 htold⟩, hstart, ms', hseen⟩
  · rw [hsteps, hread]
    rfl
  · rw [hfailed, hread]
    rfl

end StackDeck.Compose
