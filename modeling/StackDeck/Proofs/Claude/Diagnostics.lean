import StackDeck.Proofs.Diagnosis.Answer
import StackDeck.Proofs.Diagnosis.Numbering

/-!
Diagnostic output of the Claude command. It is kept for the account of a failed turn and reaches nothing else: what a turn
shows and answers depends only on the lines of its standard output that tell something.
-/

namespace StackDeck

namespace Diagnosis

/-- An error without the diagnostic output that comes with it. -/
def TurnError.untailed : TurnError → TurnError
  | .failed message debug => .failed message { debug with rawTail := "" }
  | e => e

namespace Normalizer

/-- A normalizer without the diagnostic output that it keeps. -/
def untailed (n : Normalizer) : Normalizer := { n with rawTail := "" }

theorem emit_untailed (kind : ChunkKind) (text source : String) (n : Normalizer) :
    n.untailed.emit kind text source =
      ((n.emit kind text source).1.untailed, (n.emit kind text source).2) := by
  unfold emit
  split <;> rfl

theorem addBlock_untailed (kind text : String) (n : Normalizer) :
    n.untailed.addBlock kind text = ((n.addBlock kind text).1.untailed, (n.addBlock kind text).2) := by
  by_cases h : n.streamText.isEmpty
  · have hs : (n.addMessageText text).streamText.isEmpty = true := h
    have hs' : (n.untailed.addMessageText text).streamText.isEmpty = true := h
    simp only [addBlock, hs, hs', if_true]
    exact emit_untailed .answer text kind (n.addMessageText text)
  · have hs : ¬ (n.addMessageText text).streamText.isEmpty = true := h
    have hs' : ¬ (n.untailed.addMessageText text).streamText.isEmpty = true := h
    simp only [addBlock, hs, hs']
    rfl

theorem addBlocks_untailed (kind : String) (texts : List String) (n : Normalizer) :
    addBlocks kind texts n.untailed = ((addBlocks kind texts n).1.untailed, (addBlocks kind texts n).2) := by
  induction texts generalizing n with
  | nil => rfl
  | cons text r ih =>
    simp only [addBlocks, addBlock_untailed, ih]

theorem endBlock_untailed (n : Normalizer) : n.untailed.endBlock = (n.endBlock.1.untailed, n.endBlock.2) := by
  have htool : n.untailed.tool = n.tool := rfl
  unfold endBlock
  rw [htool]
  cases n.tool with
  | none => rfl
  | some call => exact emit_untailed _ _ _ { n with tool := none }

/-- An event means the same whatever diagnostic output was kept. -/
theorem apply_untailed (e : ProviderEvent) (n : Normalizer) :
    n.untailed.apply e = ((n.apply e).1.untailed, (n.apply e).2) := by
  cases e with
  | thinking text => exact emit_untailed _ _ _ (n.sawEvent _)
  | answer text => exact emit_untailed _ _ _ { n.sawEvent _ with streamText := _ }
  | toolStart name => rfl
  | toolInput fragment => rfl
  | blockStop => exact endBlock_untailed (n.sawEvent _)
  | message kind texts error =>
    have h := addBlocks_untailed kind (texts.filter fun t => !Text.isBlank t) (n.sawMessage kind)
    have hsaw : n.untailed.sawMessage kind = (n.sawMessage kind).untailed := rfl
    simp only [apply, hsaw, h]
    rfl
  | result subtype text isError error =>
    simp only [apply]
    split <;> rfl

/-- Diagnostic output between the events changes nothing but itself. -/
theorem takeAll_untailed (us : List Utterance) (n : Normalizer) :
    n.untailed.applyAll (eventsOf us) = ((n.takeAll us).1.untailed, (n.takeAll us).2) := by
  induction us generalizing n with
  | nil => rfl
  | cons u r ih =>
    cases u with
    | event e =>
      have he : eventsOf (.event e :: r) = e :: eventsOf r := rfl
      simp only [he, applyAll, takeAll, take, apply_untailed, ih]
    | diagnostic line =>
      have he : eventsOf (.diagnostic line :: r) = eventsOf r := rfl
      have hkept : (n.recordDiagnostic line).untailed = n.untailed := rfl
      simp only [he, takeAll, take, ← ih, hkept, List.nil_append]

theorem debug_untailed (n : Normalizer) :
    ({ n.untailed.debug with rawTail := "" } : TurnDebug) = { n.debug with rawTail := "" } := rfl

theorem finish_untailed (ending : Except TurnError Unit) (n : Normalizer) :
    (n.untailed.finish ending).mapError TurnError.untailed = (n.finish ending).mapError TurnError.untailed := by
  refine finish_agree (Except.mapError TurnError.untailed) ?_ ending
  have htext : resolveFinalText n.untailed.resultText n.untailed.messageText n.untailed.streamText =
      resolveFinalText n.resultText n.messageText n.streamText := rfl
  have hreason : (n.untailed.resultError.orElse fun _ => n.untailed.messageError) =
      n.resultError.orElse fun _ => n.messageError := rfl
  simp only [finish, htext, hreason]
  cases resolveFinalText n.resultText n.messageText n.streamText with
  | some text => rfl
  | none => simp only [Except.mapError, TurnError.untailed, debug_untailed]

end Normalizer

end Diagnosis

namespace Claude

open Diagnosis Shell

/-! ### Lines that tell nothing -/

/-- Messages without any meaning for the answer: notices of the system and of the user, parts of unknown kinds, and the
start of a block of text. -/
def Message.isIdle : Message → Bool
  | .system .. => true
  | .user => true
  | .stream .other => true
  | .stream (.blockDelta .other) => true
  | .stream (.blockStart .other) => true
  | .stream (.blockStart (.text _)) => true
  | _ => false

/-- Lines of standard output with a meaning for the answer. Blank and malformed lines are no messages. -/
def isTelling (line : String) : Bool := (Message.ofLine? line).any fun m => !m.isIdle

/-- Notices of the system. -/
def isSystem (line : String) : Bool :=
  match Message.ofLine? line with
  | some (.system ..) => true
  | _ => false

/-- Lines that say which conversation they belong to. -/
def isSigned (line : String) : Bool := (Message.ofLine? line).any fun m => m.sessionId?.isSome

/-- The lines of standard output among everything seen of a command. -/
def stdoutOf (os : List Observation) : List String :=
  os.filterMap fun
    | .line false text => some text
    | _ => none

def eventsOfLine (line : String) : List ProviderEvent := (Message.ofLine? line).elim [] Message.events

theorem Message.events_of_idle {m : Message} (h : m.isIdle = true) : m.events = [] := by
  revert h
  unfold Message.isIdle
  split <;> first | exact fun _ => rfl | nofun

theorem Message.ofLine?_blank {line : String} (h : Text.isBlank line = true) : ofLine? line = none := by
  have htrim : Text.trim line.toList = [] := Text.trim_eq_nil.mpr h
  rw [ofLine?, htrim]
  rfl

theorem eventsOfLine_idle {line : String} (h : isTelling line = false) : eventsOfLine line = [] := by
  unfold isTelling at h
  unfold eventsOfLine
  cases hm : Message.ofLine? line with
  | none => rfl
  | some m => exact Message.events_of_idle (by simpa [hm] using h)

theorem isTelling_or_isSystem {line : String} (h : isSigned line = true) : (isTelling line || isSystem line) = true := by
  unfold isSigned at h
  unfold isTelling isSystem
  cases hm : Message.ofLine? line with
  | none => simp [hm] at h
  | some m => cases m <;> simp_all [Message.sessionId?, Message.isIdle]

/-! ### What a turn hears -/

theorem stdoutOf_append (os os' : List Observation) : stdoutOf (os ++ os') = stdoutOf os ++ stdoutOf os' :=
  List.filterMap_append

theorem stdoutOf_cons (o : Observation) (os : List Observation) : stdoutOf (o :: os) = stdoutOf [o] ++ stdoutOf os :=
  stdoutOf_append [o] os

/-- Lines that nobody looks for may be put anywhere. -/
theorem filter_stdoutOf_insert {keep : String → Bool} {before inserted after : List Observation}
    (h : ∀ line ∈ stdoutOf inserted, keep line = false) :
    (stdoutOf (before ++ after)).filter keep = (stdoutOf (before ++ inserted ++ after)).filter keep := by
  have hnone : (stdoutOf inserted).filter keep = [] := by
    refine List.filter_eq_nil_iff.mpr fun line hline => ?_
    rw [h line hline]
    nofun
  simp only [stdoutOf_append, List.filter_append, hnone, List.append_nil]

theorem eventsOf_heardAs (o : Observation) : eventsOf (heardAs o) = (stdoutOf [o]).flatMap eventsOfLine := by
  cases o with
  | closed isError => rfl
  | line isError text =>
    cases isError with
    | true => rfl
    | false =>
      have hone : (stdoutOf [.line false text]).flatMap eventsOfLine = eventsOfLine text := List.append_nil _
      rw [hone, heardAs, eventsOfLine]
      cases Message.ofLine? text with
      | some m => simp [eventsOf, Utterance.event?, List.filterMap_map, Function.comp_def]
      | none => cases Text.isBlank text <;> rfl

theorem eventsOf_heard (os : List Observation) : eventsOf (os.flatMap heardAs) = (stdoutOf os).flatMap eventsOfLine := by
  induction os with
  | nil => rfl
  | cons o r ih =>
    have hmore : eventsOf (heardAs o ++ r.flatMap heardAs) = eventsOf (heardAs o) ++ eventsOf (r.flatMap heardAs) :=
      List.filterMap_append
    rw [List.flatMap_cons, hmore, eventsOf_heardAs, ih, stdoutOf_cons o r, List.flatMap_append]

theorem flatMap_telling (lines : List String) :
    lines.flatMap eventsOfLine = (lines.filter isTelling).flatMap eventsOfLine := by
  induction lines with
  | nil => rfl
  | cons line r ih =>
    cases h : isTelling line with
    | true => rw [List.filter_cons_of_pos h, List.flatMap_cons, List.flatMap_cons, ih]
    | false => rw [List.filter_cons_of_neg (by simp [h]), List.flatMap_cons, eventsOfLine_idle h, ih, List.nil_append]

namespace Turn

variable {t : Turn} {start : Normalizer} {us : List Utterance}

/-- A turn that nobody interrupts hears everything. -/
theorem listen_of_uninterrupted {interruptAfter : Option Nat} {os : List Observation}
    (h : (t.listen interruptAfter os).2 = false) : t.listen interruptAfter os = (os.foldl observe t, false) := by
  induction os generalizing t with
  | nil => rfl
  | cons o r ih =>
    unfold listen at h ⊢
    split at h
    next => cases h
    next hgo => rw [if_neg hgo, ih h, List.foldl_cons]

theorem Follows.hear_all (h : t.Follows start us) (os : List Observation) :
    (os.foldl Turn.observe t).Follows start (us ++ os.flatMap heardAs) := by
  induction os generalizing t us with
  | nil => simpa using h
  | cons o r ih =>
    rw [List.flatMap_cons, ← List.append_assoc]
    exact ih (h.observe o)

theorem resumable_observe (t : Turn) (o : Observation) :
    (t.observe o).resumable = (t.resumable || (stdoutOf [o]).any isSigned) := by
  cases o with
  | closed isError => exact (Bool.or_false _).symm
  | line isError text =>
    cases isError with
    | true => exact (Bool.or_false _).symm
    | false =>
      have hone : (stdoutOf [.line false text]).any isSigned = isSigned text := Bool.or_false _
      rw [hone, observe, hear, isSigned]
      cases Message.ofLine? text with
      | some m => rfl
      | none => cases Text.isBlank text <;> simp

theorem resumable_hear_all (t : Turn) (os : List Observation) :
    (os.foldl observe t).resumable = (t.resumable || (stdoutOf os).any isSigned) := by
  induction os generalizing t with
  | nil => exact (Bool.or_false _).symm
  | cons o r ih => rw [List.foldl_cons, ih, resumable_observe, stdoutOf_cons o r, List.any_append, Bool.or_assoc]

theorem noteExit_untailed (command : String) (status : ExitStatus) (t : Turn) :
    (t.noteExit command status).normalizer.untailed = t.normalizer.untailed := by
  unfold noteExit
  split <;> rfl

end Turn

namespace Conversation

/-- A turn that has heard nothing yet. -/
def opening (c : Conversation) : Turn :=
  { normalizer := .start (c.settings.turnTimeoutMs / 1000), resumable := c.resumable }

/-- What a turn comes to that read everything of its command, in this order: its answer, what it showed, and the
conversation afterwards. -/
def conclude (c : Conversation) (os : List Observation) (status : ExitStatus) :
    Except TurnError String × List Chunk × Conversation :=
  let t := os.foldl Turn.observe c.opening
  ((t.noteExit c.settings.command status).normalizer.finish (.ok ()), t.shown, { c with resumable := t.resumable })

theorem ask_uninterrupted (c : Conversation) (prompt : String) (interruptAfter : Option Nat) (h : Host) {o : Output}
    (hstart : (Host.start c.command prompt h).1 = .ok o) (hends : o.hangs = false)
    (hlisten : (c.opening.listen interruptAfter o.observations).2 = false) :
    (c.ask prompt interruptAfter h).1 = c.conclude o.observations o.status := by
  have hall := Turn.listen_of_uninterrupted hlisten
  cases hs : Host.start c.command prompt h with
  | mk r h' =>
    rw [hs] at hstart
    subst hstart
    unfold opening at hall
    simp only [ask, bind, StateT.bind, hs, hall, hends]
    rfl

variable {c : Conversation} {os os' : List Observation}

/-- What a turn has gathered and shown, apart from diagnostic output, as a function of the telling lines. -/
theorem hear_telling (c : Conversation) (os : List Observation) :
    c.opening.normalizer.untailed.applyAll (((stdoutOf os).filter isTelling).flatMap eventsOfLine) =
      ((os.foldl Turn.observe c.opening).normalizer.untailed, (os.foldl Turn.observe c.opening).shown) := by
  have hstart : c.opening.Follows c.opening.normalizer [] := ⟨rfl, rfl⟩
  obtain ⟨hnormalizer, hshown⟩ := hstart.hear_all os
  rw [← flatMap_telling, ← eventsOf_heard, Normalizer.takeAll_untailed, hnormalizer, hshown]
  rfl

/-- Turns that come to the same but for diagnostic output and for the conversation afterwards. -/
def SameAnswer (r r' : Except TurnError String × List Chunk × Conversation) : Prop :=
  r.2.1 = r'.2.1 ∧ r.1.mapError TurnError.untailed = r'.1.mapError TurnError.untailed

theorem conclude_telling (h : (stdoutOf os).filter isTelling = (stdoutOf os').filter isTelling)
    (status status' : ExitStatus) : SameAnswer (c.conclude os status) (c.conclude os' status') := by
  have hheard := hear_telling c os
  rw [h, hear_telling c os'] at hheard
  obtain ⟨hnormalizer, hshown⟩ := Prod.mk.inj hheard.symm
  refine ⟨hshown, ?_⟩
  have hended (os : List Observation) (status : ExitStatus) :
      (c.conclude os status).1.mapError TurnError.untailed =
        ((os.foldl Turn.observe c.opening).normalizer.untailed.finish (.ok ())).mapError TurnError.untailed := by
    rw [← Turn.noteExit_untailed c.settings.command status, Normalizer.finish_untailed]
    rfl
  rw [hended, hended, hnormalizer]

theorem any_signed (lines : List String) :
    lines.any isSigned = (lines.filter fun line => isTelling line || isSystem line).any isSigned := by
  rw [List.any_filter]
  refine congrArg (List.any lines) (funext fun line => ?_)
  cases h : isSigned line with
  | true => rw [isTelling_or_isSystem h, Bool.true_and]
  | false => rw [Bool.and_false]

theorem conclude_conversation
    (h : ((stdoutOf os).filter fun line => isTelling line || isSystem line) =
      (stdoutOf os').filter fun line => isTelling line || isSystem line) (status status' : ExitStatus) :
    (c.conclude os status).2.2 = (c.conclude os' status').2.2 := by
  have hsigned : (stdoutOf os).any isSigned = (stdoutOf os').any isSigned := by
    rw [any_signed (stdoutOf os), h, ← any_signed]
  simp only [conclude, Turn.resumable_hear_all, hsigned]

end Conversation

/-- What a turn of the Claude command shows and answers, and why it fails, depends on nothing but the lines of its standard
output that tell something. The diagnostic output, its place among these lines and the way the command ends change only the
diagnostic output that is kept; so do lines that are blank, malformed or idle, but for notices of the system, which may say
that the conversation can be resumed. -/
theorem diagnostics_leave_answer (c : Conversation) :
    -- What a turn comes to that is read to its end, when nobody interrupts it.
    (∀ prompt interruptAfter h o, (Host.start c.command prompt h).1 = .ok o → o.hangs = false →
      (c.opening.listen interruptAfter o.observations).2 = false →
      (c.ask prompt interruptAfter h).1 = c.conclude o.observations o.status) ∧
    (∀ os os' status status', (stdoutOf os).filter isTelling = (stdoutOf os').filter isTelling →
      Conversation.SameAnswer (c.conclude os status) (c.conclude os' status')) ∧
    (∀ before inserted after status status',
      (∀ line ∈ stdoutOf inserted, Text.isBlank line = true ∨ Message.ofLine? line = none ∨
        ∃ m, Message.ofLine? line = some m ∧ m.isIdle = true) →
      Conversation.SameAnswer (c.conclude (before ++ after) status)
        (c.conclude (before ++ inserted ++ after) status')) ∧
    ∀ before inserted after status status',
      (∀ line ∈ stdoutOf inserted, isTelling line = false ∧ isSystem line = false) →
      (c.conclude (before ++ after) status).2.2 = (c.conclude (before ++ inserted ++ after) status').2.2 := by
  refine ⟨fun prompt interruptAfter h o => c.ask_uninterrupted prompt interruptAfter h,
    fun os os' status status' h => Conversation.conclude_telling h status status', ?_, ?_⟩
  · intro before inserted after status status' hidle
    refine Conversation.conclude_telling (filter_stdoutOf_insert fun line hline => ?_) status status'
    have hnone : Message.ofLine? line = none ∨ ∃ m, Message.ofLine? line = some m ∧ m.isIdle = true :=
      (hidle line hline).elim (fun hblank => .inl (Message.ofLine?_blank hblank)) id
    obtain hm | ⟨m, hm, hi⟩ := hnone
    · simp [isTelling, hm]
    · simp [isTelling, hm, hi]
  · intro before inserted after status status' hidle
    refine Conversation.conclude_conversation (filter_stdoutOf_insert fun line hline => ?_) status status'
    obtain ⟨htelling, hsystem⟩ := hidle line hline
    rw [htelling, hsystem]
    rfl

/-- A turn with a warning, chatter and a notice around its result, whose command fails in the end, answers the same as one
that says nothing else. -/
theorem chatter_leaves_answer :
    let c : Conversation := ⟨{}, "s", false⟩
    let result := Observation.line false "\x7b\"type\":\"result\",\"result\":\"ok\"\x7d"
    let notice := Observation.line false "\x7b\"type\":\"system\",\"session_id\":\"s\"\x7d"
    let chatter : List Observation := [.line true "low disk", .line false " ", notice, .closed true, .line false "oops"]
    (∀ line ∈ stdoutOf chatter, Text.isBlank line = true ∨ Message.ofLine? line = none ∨
      ∃ m, Message.ofLine? line = some m ∧ m.isIdle = true) ∧
    Conversation.SameAnswer (c.conclude ([] ++ [result]) (.code 0)) (c.conclude ([] ++ chatter ++ [result]) (.code 1)) := by
  intro c result notice chatter
  have hidle : ∀ line ∈ stdoutOf chatter, Text.isBlank line = true ∨ Message.ofLine? line = none ∨
      ∃ m, Message.ofLine? line = some m ∧ m.isIdle = true := by
    intro line hline
    have hmem : line = " " ∨ line = "\x7b\"type\":\"system\",\"session_id\":\"s\"\x7d" ∨ line = "oops" := by
      simpa [chatter, notice, stdoutOf] using hline
    rcases hmem with rfl | rfl | rfl
    · exact .inl (by decide)
    · exact .inr (.inr ⟨.system "" (some "s"), by decide +kernel, rfl⟩)
    · exact .inr (.inl (by decide +kernel))
  obtain ⟨-, -, hinsert, -⟩ := diagnostics_leave_answer c
  exact ⟨hidle, hinsert [] chatter [result] (.code 0) (.code 1) hidle⟩

end Claude

end StackDeck
