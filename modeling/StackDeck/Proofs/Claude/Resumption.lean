import Mathlib
import StackDeck.Proofs.Claude.Diagnostics
import StackDeck.Proofs.Shell.Reading

/-!
Which turns of a conversation resume it. A turn may be read in any order of its two streams and may stop anywhere: at its end,
when somebody interrupts it, or when its time is up. It resumes the conversation if an earlier turn had read, before it stopped,
that the conversation exists.
-/

namespace StackDeck.Claude

open Diagnosis Shell

/-! ### Turns that may stop anywhere -/

/-- Why a turn stops reading its command. -/
inductive Stop where
  | ended
  | interrupted
  | expired
  deriving DecidableEq

namespace Turn

/-- Reads the command of a turn, whatever comes first, until both streams have ended, or somebody interrupts the turn, or its time
is up before anything else comes. -/
def follow (t : Turn) (outOpen errOpen : Bool) : List Moment → Turn × Stop
  | [] => (t, if outOpen || errOpen then .expired else .ended)
  | .told :: _ => (t, if outOpen || errOpen then .interrupted else .ended)
  | .seen o :: r =>
    if !(outOpen || errOpen) then (t, .ended)
    else if o.isAwaited outOpen errOpen then
      follow (t.observe o) (outOpen && o != .closed false) (errOpen && o != .closed true) r
    else follow t outOpen errOpen r

end Turn

/-- What happens in a turn: what comes to its reader, and how its command ends. -/
structure Course where
  moments : List Moment
  status : ExitStatus

/-- What is read of a turn before it stops. -/
def Course.read (course : Course) : List Observation := heard true true course.moments

namespace Conversation

/-- The answer of a turn that stopped. -/
def answerOf (c : Conversation) (status : ExitStatus) (t : Turn) : Stop → Except TurnError String
  | .ended => (t.noteExit c.settings.command status).normalizer.finish (.ok ())
  | .interrupted => t.normalizer.finish (.error .streamClosed)
  | .expired => .error (.deadlineExceeded (c.settings.turnTimeoutMs / 1000))

/-- A turn of some course: its answer, what it shows, and the conversation afterwards. -/
def turn (c : Conversation) (course : Course) : Except TurnError String × List Chunk × Conversation :=
  let (t, stop) := c.opening.follow true true course.moments
  (c.answerOf course.status t stop, t.shown, { c with resumable := t.resumable })

/-- The conversation after some turns. -/
def after (c : Conversation) (courses : List Course) : Conversation := courses.foldl (fun c course => (c.turn course).2.2) c

/-- What the command is given in these turns, one after another. -/
def invocations (c : Conversation) : List Course → List (List String)
  | [] => []
  | course :: r => c.args :: invocations (c.turn course).2.2 r

end Conversation

/-- A line that says that the conversation exists: a notice of the system or a result with the name of a conversation. -/
def Confirms (line : String) : Prop :=
  ∃ id, (∃ subtype, Message.ofLine? line = some (.system subtype (some id))) ∨
    ∃ subtype text isError, Message.ofLine? line = some (.result subtype text isError (some id))

/-- Turns in which such a line was read on standard output. -/
def Confirmed (courses : List Course) : Prop := ∃ course ∈ courses, ∃ line ∈ stdoutOf course.read, Confirms line

/-! ### One turn -/

theorem isSigned_iff {line : String} : isSigned line = true ↔ Confirms line := by
  unfold isSigned Confirms
  cases Message.ofLine? line with
  | none => simp
  | some m => cases m <;> simp [Message.sessionId?, Option.isSome_iff_exists]

namespace Turn

/-- A turn comes to what it has read. -/
theorem follow_heard (t : Turn) (outOpen errOpen : Bool) (ms : List Moment) :
    (t.follow outOpen errOpen ms).1 = (heard outOpen errOpen ms).foldl observe t := by
  induction ms generalizing t outOpen errOpen with
  | nil => rfl
  | cons m r ih =>
    cases m with
    | told => rfl
    | seen o =>
      rw [follow, heard]
      split
      next hclosed =>
        obtain ⟨rfl, rfl⟩ : outOpen = false ∧ errOpen = false := by simpa using hclosed
        have hnone := heard_nothing (.seen o :: r)
        rw [heard] at hnone
        rw [hnone]
        rfl
      next =>
        split
        · rw [ih, List.foldl_cons]
        · exact ih _ _ _

theorem resumable_follow (t : Turn) (ms : List Moment) :
    (t.follow true true ms).1.resumable = (t.resumable || (stdoutOf (heard true true ms)).any isSigned) := by
  rw [follow_heard, resumable_hear_all]

end Turn

namespace Conversation

variable {c : Conversation}

theorem turn_conversation (c : Conversation) (course : Course) :
    (c.turn course).2.2 = { c with resumable := c.resumable || (stdoutOf course.read).any isSigned } :=
  congrArg (fun b => { c with resumable := b }) (Turn.resumable_follow c.opening course.moments)

/-! ### Many turns -/

/-- Turns change nothing of a conversation but whether it can be resumed. -/
theorem after_eq (c : Conversation) (courses : List Course) :
    c.after courses =
      { c with resumable := c.resumable || courses.any fun course => (stdoutOf course.read).any isSigned } := by
  induction courses generalizing c with
  | nil => simp [after]
  | cons course r ih =>
    have hrest : c.after (course :: r) = (c.turn course).2.2.after r := rfl
    rw [hrest, ih, turn_conversation, List.any_cons, Bool.or_assoc]

theorem invocations_length (c : Conversation) (courses : List Course) : (c.invocations courses).length = courses.length := by
  induction courses generalizing c with
  | nil => rfl
  | cons course r ih => rw [invocations, List.length_cons, List.length_cons, ih]

theorem invocations_getElem? (c : Conversation) (courses : List Course) {k : Nat} (hk : k < courses.length) :
    (c.invocations courses)[k]? = some (c.after (courses.take k)).args := by
  induction courses generalizing c k with
  | nil => cases hk
  | cons course r ih =>
    cases k with
    | zero => rfl
    | succ k =>
      have hk' : k < r.length := by simpa using hk
      exact ih (c.turn course).2.2 hk'

theorem after_resumable_iff (settings : Settings) (id : String) (courses : List Course) :
    (Conversation.after { settings, id } courses).resumable = true ↔ Confirmed courses := by
  simp only [after_eq, Bool.false_or, List.any_eq_true, isSigned_iff, Confirmed]

/-- What a turn gives to the command that creates a conversation, and to the one that resumes it. -/
def creating (settings : Settings) (id : String) : List String := streamArgs ++ ["--session-id", id] ++ settings.args

def resuming (settings : Settings) (id : String) : List String := streamArgs ++ ["--resume", id] ++ settings.args

theorem args_eq (settings : Settings) (id : String) (resumable : Bool) :
    Conversation.args ⟨settings, id, resumable⟩ = if resumable then resuming settings id else creating settings id := by
  cases resumable <;> rfl

theorem resuming_ne_creating (settings : Settings) (id : String) : resuming settings id ≠ creating settings id := by
  unfold resuming creating streamArgs
  simp

theorem invocations_eq (settings : Settings) (id : String) (courses : List Course) {k : Nat} (hk : k < courses.length) :
    (Conversation.invocations { settings, id } courses)[k]? =
      some (if (Conversation.after { settings, id } (courses.take k)).resumable then resuming settings id
        else creating settings id) := by
  rw [invocations_getElem? _ _ hk, ← args_eq, after_eq]

/-- A turn resumes its conversation if it is confirmed, and else creates it. -/
theorem invocations_iff (settings : Settings) (id : String) (courses : List Course) {k : Nat} (hk : k < courses.length) :
    let given := (Conversation.invocations { settings, id } courses)[k]?
    (given = some (resuming settings id) ↔ Confirmed (courses.take k)) ∧
      (given = some (creating settings id) ↔ ¬ Confirmed (courses.take k)) := by
  have hne := resuming_ne_creating settings id
  simp only [invocations_eq settings id courses hk, ← after_resumable_iff settings id]
  cases (Conversation.after { settings, id } (courses.take k)).resumable <;> simp [hne, hne.symm]

theorem confirmed_mono {courses : List Course} {j k : Nat} (hjk : j ≤ k) (h : Confirmed (courses.take j)) :
    Confirmed (courses.take k) := by
  obtain ⟨course, hcourse, hline⟩ := h
  exact ⟨course, (List.take_sublist_take_left hjk).subset hcourse, hline⟩

/-! ### Turns of the command -/

/-- A turn that asks the command has listened to a part of its output, and stopped before the rest of it if somebody has
interrupted it. -/
theorem listen_cut (t : Turn) (interruptAfter : Option Nat) (os : List Observation) :
    ∃ before rest, os = before ++ rest ∧ (t.listen interruptAfter os).1 = before.foldl Turn.observe t ∧
      ((t.listen interruptAfter os).2 = true ↔ rest ≠ []) := by
  induction os generalizing t with
  | nil => exact ⟨[], [], rfl, rfl, by simp [Turn.listen]⟩
  | cons o r ih =>
    rw [Turn.listen]
    split
    · exact ⟨[], o :: r, rfl, rfl, by simp⟩
    · obtain ⟨before, rest, rfl, hheard, hstop⟩ := ih (t.observe o)
      exact ⟨o :: before, rest, rfl, hheard, hstop⟩

theorem follow_orderly (t : Turn) {outOpen errOpen : Bool} {os : List Observation} (h : Orderly outOpen errOpen os)
    (ms : List Moment) :
    t.follow outOpen errOpen (os.map .seen ++ ms) =
      (os.foldl Turn.observe t).follow (opensAfter outOpen false os) (opensAfter errOpen true os) ms := by
  induction os generalizing t outOpen errOpen with
  | nil => simp [opensAfter]
  | cons o r ih =>
    have hopens := h.opens (by simp)
    obtain ⟨hawaited, hr⟩ := Orderly.cons_iff.mp h
    rw [List.map_cons, List.cons_append, Turn.follow, if_neg (by simp [hopens]), if_pos hawaited, ih _ hr, List.foldl_cons,
      opensAfter_cons, opensAfter_cons]

/-- Whether one of the streams is still open. -/
def someOpen (os : List Observation) : Bool := opensAfter true false os || opensAfter true true os

theorem someOpen_iff {os : List Observation} : someOpen os = true ↔ ∃ isError, .closed isError ∉ os := by
  simp [someOpen, opensAfter]

/-- Why a turn stops that was told to, or not, after all it has read. -/
def stopAfter (told : Bool) (os : List Observation) : Stop :=
  if someOpen os then if told then .interrupted else .expired else .ended

theorem follow_told (t : Turn) {os : List Observation} (h : Orderly true true os) (told : Bool) :
    t.follow true true (os.map .seen ++ if told then [.told] else []) = (os.foldl Turn.observe t, stopAfter told os) := by
  rw [follow_orderly t h]
  cases told <;> simp [Turn.follow, stopAfter, someOpen]

theorem heard_told {os : List Observation} (h : Orderly true true os) (told : Bool) :
    heard true true (os.map .seen ++ if told then [.told] else []) = os := by
  rw [heard_orderly h]
  cases told <;> simp [heard]

/-- Whether a turn that asks the command is interrupted. -/
def isInterrupted (c : Conversation) (interruptAfter : Option Nat) (o : Output) : Bool :=
  let (t, stopped) := c.opening.listen interruptAfter o.observations
  stopped || (o.hangs && interruptAfter.any (· ≤ t.shown.length))

theorem ask_eq (c : Conversation) (prompt : String) (interruptAfter : Option Nat) (h : Host) {o : Output}
    (hstart : (Host.start c.command prompt h).1 = .ok o) :
    (c.ask prompt interruptAfter h).1 =
      let t := (c.opening.listen interruptAfter o.observations).1
      let stop := if c.isInterrupted interruptAfter o then .interrupted else if o.hangs then .expired else .ended
      (c.answerOf o.status t stop, t.shown, { c with resumable := t.resumable }) := by
  cases hs : Host.start c.command prompt h with
  | mk r h' =>
    rw [hs] at hstart
    subst hstart
    unfold isInterrupted opening
    simp only [ask, bind, StateT.bind, hs]
    generalize Turn.listen interruptAfter
      { normalizer := .start (c.settings.turnTimeoutMs / 1000), resumable := c.resumable } o.observations = heard
    by_cases hstop : (heard.2 || (o.hangs && interruptAfter.any (· ≤ heard.1.shown.length))) = true
    · simp only [hstop, if_true]
      rfl
    · simp only [hstop]
      cases o.hangs <;> rfl

/-- A turn that asks the command stops for the reason that its streams give. -/
theorem stop_eq (c : Conversation) (interruptAfter : Option Nat) {o : Output} {before rest : List Observation}
    (hos : o.observations = before ++ rest)
    (hstop : (c.opening.listen interruptAfter o.observations).2 = true ↔ rest ≠ [])
    (hopen : o.hangs = true → ∃ isError, .closed isError ∉ o.observations) :
    (if c.isInterrupted interruptAfter o then .interrupted else if o.hangs then .expired else .ended) =
      stopAfter (c.isInterrupted interruptAfter o) before := by
  unfold stopAfter
  by_cases hrest : rest = []
  · subst hrest
    rw [List.append_nil] at hos
    by_cases hhangs : o.hangs = true
    · have hsome : someOpen before = true := someOpen_iff.mpr (hos ▸ hopen hhangs)
      simp only [hsome, hhangs, if_true]
    · have hends : o.hangs = false := by simpa using hhangs
      have hnone : ¬ someOpen before = true := by
        rw [someOpen_iff, ← hos]
        rintro ⟨isError, hclosed⟩
        exact hclosed (Output.observations_closed hends isError)
      have hgoes : c.isInterrupted interruptAfter o = false := by
        have hstopped : (c.opening.listen interruptAfter o.observations).2 = false := by simpa using hstop
        simp [isInterrupted, hstopped, hends]
      simp [hgoes, hends, hnone]
  · -- Something is still to come when the turn is interrupted, so one of the streams is open.
    have horderly : Orderly true true (before ++ rest) := hos ▸ o.observations_orderly
    have hsome : someOpen before = true := (Orderly.append_iff.mp horderly).2.opens hrest
    have hinterrupted : c.isInterrupted interruptAfter o = true := by simp [isInterrupted, hstop.mpr hrest]
    simp [hsome, hinterrupted]

/-- A turn that asks the command is one of the turns that may stop anywhere. What it reads is a part of the output. -/
theorem ask_turn (c : Conversation) (prompt : String) (interruptAfter : Option Nat) (h : Host) {o : Output}
    (hstart : (Host.start c.command prompt h).1 = .ok o) :
    ∃ course : Course, course.status = o.status ∧ course.read <+: o.observations ∧
      (c.ask prompt interruptAfter h).1.2 = (c.turn course).2 ∧
      ((o.hangs = true → ∃ isError, .closed isError ∉ o.observations) →
        (c.ask prompt interruptAfter h).1.1 = (c.turn course).1) := by
  obtain ⟨before, rest, hos, hheard, hstop⟩ := listen_cut c.opening interruptAfter o.observations
  have horderly : Orderly true true before := (Orderly.append_iff.mp (hos ▸ o.observations_orderly)).1
  have hturn := follow_told c.opening horderly (c.isInterrupted interruptAfter o)
  have hread := heard_told horderly (c.isInterrupted interruptAfter o)
  rw [← hheard] at hturn
  refine ⟨⟨before.map .seen ++ if c.isInterrupted interruptAfter o then [.told] else [], o.status⟩, rfl, ?_, ?_, ?_⟩
  · rw [Course.read, hread, hos]
    exact List.prefix_append before rest
  · rw [ask_eq c prompt interruptAfter h hstart, turn, hturn]
  · intro hopen
    rw [ask_eq c prompt interruptAfter h hstart, turn, hturn]
    exact congrArg (c.answerOf o.status _) (stop_eq c interruptAfter hos hstop hopen)

theorem start_calls (command : Command) (input : String) (h : Host) :
    (∃ o, (Host.start command input h).1 = .ok o ∧
      (Host.start command input h).2.calls.map Call.args = h.calls.map Call.args ++ [command.args]) ∨
    ∃ e, Host.start command input h = (.error e, h) := by
  have hspawn : Host.start command input h = h.spawn command input := rfl
  have hanswer : (h.answer command.args).2.2.calls = h.calls := by
    unfold Host.answer
    split <;> rfl
  rw [hspawn, Host.spawn]
  split
  · exact .inr ⟨_, rfl⟩
  split
  · exact .inr ⟨_, rfl⟩
  · refine .inl ⟨_, rfl, ?_⟩
    simp only [hanswer, List.map_append, List.map_cons, List.map_nil]

/-- A turn notes what it gives to its command. One whose command does not start changes nothing. -/
theorem ask_calls (c : Conversation) (prompt : String) (interruptAfter : Option Nat) (h : Host) :
    (∃ o, (Host.start c.command prompt h).1 = .ok o ∧
      (c.ask prompt interruptAfter h).2.calls.map Call.args = h.calls.map Call.args ++ [c.args]) ∨
    (c.ask prompt interruptAfter h).1.2.2 = c ∧ (c.ask prompt interruptAfter h).2 = h := by
  rcases start_calls c.command prompt h with ⟨o, hstart, hcalls⟩ | ⟨e, hstart⟩
  · refine .inl ⟨o, hstart, ?_⟩
    have hhost : (c.ask prompt interruptAfter h).2 = (Host.start c.command prompt h).2 := by
      cases hs : Host.start c.command prompt h with
      | mk r h' =>
        simp only [ask, bind, StateT.bind, hs]
        cases r <;> rfl
    rw [hhost]
    exact hcalls
  · refine .inr ?_
    simp only [ask, bind, StateT.bind, hstart]
    exact ⟨rfl, rfl⟩

/-- Asks some questions, one after another. -/
def askAll (c : Conversation) (h : Host) : List (String × Option Nat) → Conversation × Host
  | [] => (c, h)
  | (prompt, interruptAfter) :: r =>
    askAll (c.ask prompt interruptAfter h).1.2.2 (c.ask prompt interruptAfter h).2 r

theorem askAll_calls (c : Conversation) (h : Host) (asks : List (String × Option Nat)) :
    ∃ courses, (askAll c h asks).1 = c.after courses ∧
      (askAll c h asks).2.calls.map Call.args = h.calls.map Call.args ++ c.invocations courses := by
  induction asks generalizing c h with
  | nil => exact ⟨[], rfl, by simp [askAll, invocations]⟩
  | cons asked r ih =>
    obtain ⟨prompt, interruptAfter⟩ := asked
    rw [askAll]
    obtain ⟨courses, hafter, hcalls⟩ := ih (c.ask prompt interruptAfter h).1.2.2 (c.ask prompt interruptAfter h).2
    rcases ask_calls c prompt interruptAfter h with ⟨o, hstart, hnoted⟩ | ⟨hsame, hnone⟩
    · obtain ⟨course, -, -, hturn, -⟩ := ask_turn c prompt interruptAfter h hstart
      refine ⟨course :: courses, ?_, ?_⟩
      · rw [hafter, hturn]
        rfl
      · rw [hcalls, hnoted, hturn, List.append_assoc]
        rfl
    · refine ⟨courses, ?_, ?_⟩
      · rw [hafter, hsame]
      · rw [hcalls, hsame, hnone]

/-- A conversation is resumed once it is known to exist. Whatever happens in its turns, in any order of their streams and with any
end, each turn resumes the conversation if an earlier one has read, before it stopped, that the conversation exists, and else
creates it, always under the same name. -/
theorem turns_resume_once_confirmed (settings : Settings) (id : String) :
    let fresh : Conversation := { settings, id }
    (∀ courses, (fresh.invocations courses).length = courses.length) ∧
    (∀ courses k, k < courses.length →
      let given := (fresh.invocations courses)[k]?
      (given = some (resuming settings id) ↔ Confirmed (courses.take k)) ∧
        (given = some (creating settings id) ↔ ¬ Confirmed (courses.take k))) ∧
    (∀ courses j k, j ≤ k → k < courses.length → (fresh.invocations courses)[j]? = some (resuming settings id) →
      (fresh.invocations courses)[k]? = some (resuming settings id)) ∧
    (∀ courses course, (∀ line ∈ stdoutOf course.read, ¬ Confirms line) →
      (fresh.after (courses ++ [course])).args = (fresh.after courses).args) ∧
    -- The turns that ask the command are such turns, and the command is given what they say.
    (∀ c : Conversation, ∀ prompt interruptAfter h o, (Host.start c.command prompt h).1 = .ok o →
      ∃ course : Course, course.status = o.status ∧ course.read <+: o.observations ∧
        (c.ask prompt interruptAfter h).1.2 = (c.turn course).2 ∧
        ((o.hangs = true → ∃ isError, .closed isError ∉ o.observations) →
          (c.ask prompt interruptAfter h).1.1 = (c.turn course).1)) ∧
    ∀ asks h, ∃ courses, (fresh.askAll h asks).1 = fresh.after courses ∧
      (fresh.askAll h asks).2.calls.map Call.args = h.calls.map Call.args ++ fresh.invocations courses := by
  intro fresh
  refine ⟨invocations_length fresh, fun courses k hk => invocations_iff settings id courses hk, ?_, ?_,
    fun c prompt interruptAfter h o => ask_turn c prompt interruptAfter h, fun asks h => askAll_calls fresh h asks⟩
  · intro courses j k hjk hk hresumed
    have hj : j < courses.length := by omega
    have hconfirmed := (invocations_iff settings id courses hj).1.mp hresumed
    exact (invocations_iff settings id courses hk).1.mpr (confirmed_mono hjk hconfirmed)
  · intro courses course hsilent
    have hnone : (stdoutOf course.read).any isSigned = false := by
      rw [List.any_eq_false]
      exact fun line hline hsigned => hsilent line hline (isSigned_iff.mp hsigned)
    rw [after_eq, after_eq, List.any_append, List.any_cons, hnone]
    simp

/-- A turn that dies, and one that is interrupted before the notice comes, confirm nothing. One that runs out of time behind the
notice does, so the turns after it resume. -/
theorem late_notice_resumes_later :
    let user := "\x7b\"type\":\"user\"\x7d"
    let notice := "\x7b\"type\":\"system\",\"session_id\":\"s\"\x7d"
    let dies : Course := ⟨[.seen (.line true "bad key"), .seen (.line false "oops"), .seen (.closed true),
      .seen (.closed false)], .code 1⟩
    let stops : Course := ⟨[.seen (.line false user), .told, .seen (.line false notice)], .signal 2⟩
    let waits : Course := ⟨[.seen (.line false notice)], .signal 9⟩
    let fresh : Conversation := ⟨{}, "s", false⟩
    let courses := [dies, stops, waits, dies, stops]
    let given := fresh.invocations courses
    (¬ Confirmed [dies, stops] ∧ given[2]? = some (creating {} "s")) ∧
    (Confirmed [dies, stops, waits] ∧ given[3]? = some (resuming {} "s") ∧ given[4]? = some (resuming {} "s")) ∧
    (fresh.after ([] ++ [dies])).args = (fresh.after []).args ∧
    (Host.start fresh.command "why" {}).1 = .ok Host.silence ∧
    ∃ course : Course, (fresh.ask "why" none {}).1.2 = (fresh.turn course).2 := by
  intro user notice dies stops waits fresh courses given
  obtain ⟨-, hkth, hstay, hsilent, hask, -⟩ := turns_resume_once_confirmed {} "s"
  have hoops : ¬ Confirms "oops" := by
    rw [← isSigned_iff]
    decide +kernel
  have huser : ¬ Confirms user := by
    rw [← isSigned_iff]
    decide +kernel
  have hnotice : Confirms notice := by
    rw [← isSigned_iff]
    decide +kernel
  have hdies : ∀ line ∈ stdoutOf dies.read, ¬ Confirms line := by
    intro line hline
    obtain rfl : line = "oops" := List.mem_singleton.mp hline
    exact hoops
  have hstops : ∀ line ∈ stdoutOf stops.read, ¬ Confirms line := by
    intro line hline
    obtain rfl : line = user := List.mem_singleton.mp hline
    exact huser
  have hnone : ¬ Confirmed [dies, stops] := by
    rintro ⟨course, hcourse, line, hline, hconfirms⟩
    rcases List.mem_pair.mp hcourse with rfl | rfl
    · exact hdies line hline hconfirms
    · exact hstops line hline hconfirms
  have hsome : Confirmed [dies, stops, waits] := ⟨waits, by simp, notice, List.mem_singleton_self _, hnotice⟩
  have hresumed := (hkth courses 3 (by decide)).1.mpr hsome
  have hstart : (Host.start fresh.command "why" {}).1 = .ok Host.silence := by cbv
  obtain ⟨course, -, -, hcourse, -⟩ := hask fresh "why" none {} Host.silence hstart
  exact ⟨⟨hnone, (hkth courses 2 (by decide)).2.mpr hnone⟩,
    ⟨hsome, hresumed, hstay courses 3 4 (by decide) (by decide) hresumed⟩, hsilent [] dies hdies, hstart, course, hcourse⟩

end Conversation

end StackDeck.Claude
