import Mathlib.Algebra.Group.Nat.Defs
import Mathlib.Data.List.Induction
import StackDeck.Proofs.Diagnosis.Utterance

/-!
What a turn answers, read off the list of its events.
-/

namespace StackDeck.Diagnosis

def nonBlank (s : String) : Bool := !Text.isBlank s

/-! ### The parts of an answer -/

namespace ProviderEvent

/-- Whole messages and results are counted as messages. -/
def isWhole : ProviderEvent → Bool
  | .message .. => true
  | .result .. => true
  | _ => false

/-- A result fails if it says so or its subtype begins with the word. -/
def fails (subtype : String) (isError : Bool) : Prop := isError = true ∨ "error".toList <+: subtype.toList

instance (subtype : String) (isError : Bool) : Decidable (fails subtype isError) :=
  inferInstanceAs (Decidable (_ ∨ _))

/-- The text of a result that is no failure. -/
def success? : ProviderEvent → Option String
  | .result subtype text isError _ => if fails subtype isError then none else some text
  | _ => none

/-- What a failed result says: its error, its text if the error is blank, or its subtype if both are. -/
def failure? : ProviderEvent → Option String
  | .result subtype text isError error =>
    if fails subtype isError then
      some ((error.filter nonBlank).getD (if nonBlank text then text else "provider reported " ++ subtype))
    else none
  | _ => none

/-- The texts of a whole message that are not blank. -/
def blocks : ProviderEvent → List String
  | .message _ texts _ => texts.filter nonBlank
  | _ => []

/-- The error of a whole message, unless it is blank. -/
def complaint? : ProviderEvent → Option String
  | .message _ _ error => error.filter nonBlank
  | _ => none

def answer? : ProviderEvent → Option String
  | .answer text => some text
  | _ => none

end ProviderEvent

open ProviderEvent

/-- The last result that is no failure. -/
def finalText (es : List ProviderEvent) : String := (es.filterMap success?).getLast?.getD ""

/-- The whole messages, one under the other. -/
def wholeText (es : List ProviderEvent) : String := "\n".intercalate (es.flatMap blocks)

/-- The partial answers, one after the other. -/
def partialText (es : List ProviderEvent) : String := String.join (es.filterMap answer?)

/-- Why a turn failed: the last failed result says it, or else the first whole message with an error. -/
def reasonOf (es : List ProviderEvent) : String :=
  ((es.filterMap failure?).getLast?.or (es.filterMap complaint?).head?).getD "empty response"

/-- The kinds of the events that are messages, or of those that are not. -/
def kindsOf (whole : Bool) (es : List ProviderEvent) : List String :=
  (es.filter fun e => e.isWhole == whole).map nativeType

namespace Normalizer

/-- What a normalizer knows of the answer. It does not depend on what was shown, nor on the diagnostic output. -/
def account (n : Normalizer) : Normalizer := { n with seq := 0, tool := none, rawTail := "" }

/-- What there is to know after a list of events. -/
def digest (timeoutSecs : Nat) (es : List ProviderEvent) : Normalizer where
  timeoutSecs
  streamText := partialText es
  messageText := wholeText es
  resultText := finalText es
  resultError := (es.filterMap failure?).getLast?
  messageError := (es.filterMap complaint?).head?
  messageCount := (kindsOf true es).length
  eventCount := (kindsOf false es).length
  lastMessageType := (kindsOf true es).getLast?
  lastEventType := (kindsOf false es).getLast?

variable {es : List ProviderEvent} {n n' : Normalizer} {secs : Nat}

theorem emit_account (kind : ChunkKind) (text source : String) (n : Normalizer) :
    (n.emit kind text source).1.account = n.account := by
  unfold emit
  split <;> rfl

theorem endBlock_account (n : Normalizer) : n.endBlock.1.account = n.account := by
  unfold endBlock
  split
  · rfl
  · exact emit_account _ _ _ _

theorem addBlock_account (kind text : String) (n : Normalizer) :
    (n.addBlock kind text).1.account = n.account.addMessageText text := by
  unfold addBlock
  dsimp only
  split
  · exact emit_account _ _ _ _
  · rfl

theorem isEmpty_of_nonBlank {s : String} (h : nonBlank s = true) : s.isEmpty = false := by
  rw [← Bool.not_eq_true, String.isEmpty_iff]
  rintro rfl
  cases h

/-- Blocks that are not blank leave no doubt whether there were any. -/
theorem isEmpty_intercalate {bs : List String} (h : ∀ b ∈ bs, nonBlank b = true) :
    ("\n".intercalate bs).isEmpty = bs.isEmpty := by
  cases bs with
  | nil => rfl
  | cons b r =>
    have hb := isEmpty_of_nonBlank (h b (by simp))
    cases r with
    | nil => simpa using hb
    | cons c r => simp [String.intercalate_cons_cons]

theorem addBlocks_account (kind : String) {bs texts : List String} (hbs : ∀ b ∈ bs, nonBlank b = true)
    (htexts : ∀ b ∈ texts, nonBlank b = true) (h : n.messageText = "\n".intercalate bs) :
    (addBlocks kind texts n).1.account = { n.account with messageText := "\n".intercalate (bs ++ texts) } := by
  induction texts generalizing n bs with
  | nil =>
    rw [List.append_nil, ← h]
    rfl
  | cons text r ih =>
    have hadd := addBlock_account kind text n
    have hm : (n.addBlock kind text).1.messageText = "\n".intercalate (bs ++ [text]) := by
      have he := congrArg Normalizer.messageText hadd
      refine he.trans ?_
      show (if n.messageText.isEmpty then text else n.messageText ++ "\n" ++ text) = _
      rw [h, isEmpty_intercalate hbs]
      cases bs with
      | nil => simp
      | cons b bs =>
        rw [String.intercalate_append_of_ne_nil (List.cons_ne_nil b bs) (List.cons_ne_nil text [])]
        simp
    have hbs' : ∀ b ∈ bs ++ [text], nonBlank b = true := by
      simpa [or_imp, forall_and] using ⟨hbs, htexts text (by simp)⟩
    have hr := ih hbs' (fun b hb => htexts b (List.mem_cons_of_mem text hb)) hm
    rw [List.append_assoc] at hr
    have hrest : (addBlocks kind (text :: r) n).1 = (addBlocks kind r (n.addBlock kind text).1).1 := rfl
    rw [hrest, hr, hadd]
    rfl

theorem nonBlank_blocks {e : ProviderEvent} {b : String} (h : b ∈ e.blocks) : nonBlank b = true := by
  cases e with
  | message kind texts error => exact (List.mem_filter.mp h).2
  | _ => cases h

theorem errorDetail_eq (subtype text : String) (error : Option String) : errorDetail subtype text error =
    (error.filter nonBlank).getD (if nonBlank text then text else "provider reported " ++ subtype) := by
  have hfilter : (error.filter fun e => !Text.isBlank e) = error.filter nonBlank := rfl
  unfold errorDetail
  rw [hfilter]
  cases error.filter nonBlank with
  | none => cases hb : Text.isBlank text <;> simp [nonBlank, hb]
  | some e => rfl

/-! ### What one event adds -/

theorem kindsOf_concat (whole : Bool) (es : List ProviderEvent) (e : ProviderEvent) :
    kindsOf whole (es ++ [e]) = kindsOf whole es ++ if e.isWhole = whole then [e.nativeType] else [] := by
  unfold kindsOf
  rw [List.filter_append, List.map_append]
  by_cases h : e.isWhole = whole <;> simp [h]

theorem partialText_concat (es : List ProviderEvent) (e : ProviderEvent) :
    partialText (es ++ [e]) = partialText es ++ e.answer?.getD "" := by
  unfold partialText
  rw [List.filterMap_append, String.join_append]
  cases he : e.answer? <;> simp [he]

/-- An event that is no message is counted, and a partial answer is kept. -/
theorem digest_event (secs : Nat) (es : List ProviderEvent) {e : ProviderEvent} (hw : e.isWhole = false) :
    digest secs (es ++ [e]) = { (digest secs es).sawEvent e.nativeType with
      streamText := partialText es ++ e.answer?.getD "" } := by
  have hs : e.success? = none ∧ e.failure? = none ∧ e.complaint? = none ∧ e.blocks = [] := by
    cases e <;> simp_all [isWhole, success?, failure?, complaint?, blocks]
  obtain ⟨h1, h2, h3, h4⟩ := hs
  simp [digest, sawEvent, kindsOf_concat, partialText_concat, hw, finalText, wholeText, h1, h2, h3, h4]

theorem digest_message (secs : Nat) (es : List ProviderEvent) (kind : String) (texts : List String)
    (error : Option String) : digest secs (es ++ [.message kind texts error]) =
      { ((digest secs es).sawMessage kind).noteMessageError error with
        messageText := "\n".intercalate (es.flatMap blocks ++ texts.filter nonBlank) } := by
  have hf : (error.filter fun e => !Text.isBlank e) = error.filter nonBlank := rfl
  have hp : (ProviderEvent.message kind texts error).answer?.getD "" = "" := rfl
  simp only [digest, sawMessage, noteMessageError, hf, partialText_concat, hp, String.append_empty]
  simp [kindsOf_concat, isWhole, nativeType, finalText, wholeText, success?, failure?, complaint?, blocks]

theorem digest_result (secs : Nat) (es : List ProviderEvent) (subtype text : String) (isError : Bool)
    (error : Option String) : digest secs (es ++ [.result subtype text isError error]) =
      if fails subtype isError then
        { (digest secs es).sawMessage "result" with resultError := some (errorDetail subtype text error) }
      else { (digest secs es).sawMessage "result" with resultText := text } := by
  have hp : (ProviderEvent.result subtype text isError error).answer?.getD "" = "" := rfl
  simp only [digest, sawMessage, errorDetail_eq, partialText_concat, hp, String.append_empty]
  by_cases hf : fails subtype isError
  · simp [kindsOf_concat, isWhole, nativeType, finalText, wholeText, success?, failure?, complaint?, blocks, hf]
  · simp [kindsOf_concat, isWhole, nativeType, finalText, wholeText, success?, failure?, complaint?, blocks, hf]

theorem fails_iff {subtype : String} {isError : Bool} :
    (isError || "error".toList.isPrefixOf subtype.toList) = true ↔ fails subtype isError := by
  rw [Bool.or_eq_true, List.isPrefixOf_iff_prefix, fails]

/-- An event changes what a normalizer knows as it changes what there is to know. -/
theorem apply_account (h : n.account = digest secs es) (e : ProviderEvent) :
    (n.apply e).1.account = digest secs (es ++ [e]) := by
  have hs : n.streamText = partialText es := congrArg Normalizer.streamText h
  have counted {e : ProviderEvent} (hw : e.isWhole = false) (ha : e.answer? = none) :
      (n.sawEvent e.nativeType).account = digest secs (es ++ [e]) := by
    rw [digest_event secs es hw, ha, Option.getD_none, String.append_empty, ← h, ← hs]
    rfl
  cases e with
  | thinking text => exact (emit_account _ _ _ _).trans (counted rfl rfl)
  | answer text =>
    refine (emit_account _ _ _ _).trans ?_
    rw [digest_event secs es rfl, ← h, ← hs]
    rfl
  | toolStart name => exact counted rfl rfl
  | toolInput fragment => exact counted rfl rfl
  | blockStop => exact (endBlock_account _).trans (counted rfl rfl)
  | message kind texts error =>
    have hm : (n.sawMessage kind).messageText = wholeText es := congrArg Normalizer.messageText h
    have hbs : ∀ b ∈ es.flatMap blocks, nonBlank b = true := by
      intro b hb
      obtain ⟨e, -, hb⟩ := List.mem_flatMap.mp hb
      exact nonBlank_blocks hb
    have htexts : ∀ b ∈ texts.filter nonBlank, nonBlank b = true := fun b hb => (List.mem_filter.mp hb).2
    have hnote := congrArg (noteMessageError error) (addBlocks_account kind hbs htexts hm)
    refine hnote.trans ?_
    rw [digest_message, ← h]
    rfl
  | result subtype text isError error =>
    rw [digest_result, ← h]
    simp only [apply]
    by_cases hf : fails subtype isError
    · rw [if_pos hf, if_pos (fails_iff.mpr hf)]
      rfl
    · rw [if_neg hf, if_neg fun hb => hf (fails_iff.mp hb)]
      rfl

/-- Diagnostic output between the events adds nothing to what is known. -/
theorem takeAll_account (secs : Nat) (us : List Utterance) :
    ((Normalizer.start secs).takeAll us).1.account = digest secs (eventsOf us) := by
  induction us using List.reverseRecOn with
  | nil => rfl
  | append_singleton us u ih =>
    rw [takeAll_concat]
    cases u with
    | event e =>
      have he : eventsOf (us ++ [.event e]) = eventsOf us ++ [e] := by simp [eventsOf, Utterance.event?]
      rw [he]
      exact apply_account ih e
    | diagnostic line =>
      have he : eventsOf (us ++ [.diagnostic line]) = eventsOf us := by simp [eventsOf, Utterance.event?]
      rw [he]
      exact ih

/-- What a turn comes to that has ended normally. -/
theorem finish_ok (n : Normalizer) : n.finish (.ok ()) =
    match [n.resultText, n.messageText, n.streamText].find? nonBlank with
    | some text => .ok text
    | none => .error (.failed ((n.resultError.or n.messageError).getD "empty response") n.debug) := by
  have hor : (n.resultError.orElse fun _ => n.messageError) = n.resultError.or n.messageError := by
    cases n.resultError <;> rfl
  unfold finish
  dsimp only
  rw [hor]
  rfl

theorem finish_error (n : Normalizer) {e : TurnError} (he : e ≠ .streamClosed) :
    n.finish (.error e) = .error e := by
  cases e with
  | streamClosed => exact absurd rfl he
  | _ => rfl

/-- Two normalizers that agree on a turn that ended normally agree on any other. -/
theorem finish_agree {α : Type} (view : Except TurnError String → α) {n n' : Normalizer}
    (h : view (n.finish (.ok ())) = view (n'.finish (.ok ()))) (ending : Except TurnError Unit) :
    view (n.finish ending) = view (n'.finish ending) := by
  cases ending with
  | ok => exact h
  | error e =>
    by_cases he : e = .streamClosed
    · subst he
      exact h
    · rw [finish_error n he, finish_error n' he]

theorem toNat_count {whole : Bool} (hes : es.length < 2 ^ 32) :
    (UInt32.ofNat (kindsOf whole es).length).toNat = (es.filter fun e => e.isWhole == whole).length := by
  have hle := List.length_filter_le (fun e : ProviderEvent => e.isWhole == whole) es
  rw [kindsOf, List.length_map]
  exact UInt32.toNat_ofNat_of_lt' (Nat.lt_of_le_of_lt hle hes)

end Normalizer

/-- A turn answers the first of its last result, its whole messages and its partial answer that is not blank. Without
one it tells why it failed and what it has seen. -/
theorem turn_answers_first_text (timeoutSecs : Nat) (us : List Utterance) (hcount : (eventsOf us).length < 2 ^ 32) :
    let n := ((Normalizer.start timeoutSecs).takeAll us).1
    let es := eventsOf us
    let texts := [finalText es, wholeText es, partialText es]
    (∀ ending, ending = .ok () ∨ ending = .error .streamClosed →
      (∀ text, texts.find? nonBlank = some text → n.finish ending = .ok text) ∧
      ((∀ text ∈ texts, nonBlank text = false) → ∃ debug, n.finish ending = .error (.failed (reasonOf es) debug) ∧
        debug.messageCount.toNat = (es.filter fun e => e.isWhole == true).length ∧
        debug.eventCount.toNat = (es.filter fun e => e.isWhole == false).length ∧
        debug.streamChars = UInt64.ofNat (partialText es).length ∧
        debug.assistantChars = UInt64.ofNat (wholeText es).length ∧
        debug.resultChars = UInt64.ofNat (finalText es).length ∧
        debug.lastMessageType = (kindsOf true es).getLast? ∧
        debug.lastEventType = (kindsOf false es).getLast? ∧
        debug.timeoutSecs = UInt64.ofNat timeoutSecs)) ∧
    -- Any other ending is the outcome, whatever was said.
    (∀ e, e ≠ .streamClosed → n.finish (.error e) = .error e) := by
  intro n es texts
  have ha : n.account = Normalizer.digest timeoutSecs es := Normalizer.takeAll_account timeoutSecs us
  have hresult : n.resultText = finalText es := congrArg Normalizer.resultText ha
  have hmessage : n.messageText = wholeText es := congrArg Normalizer.messageText ha
  have hstream : n.streamText = partialText es := congrArg Normalizer.streamText ha
  have hreason : (n.resultError.or n.messageError).getD "empty response" = reasonOf es :=
    congrArg (fun n => (n.resultError.or n.messageError).getD "empty response") ha
  refine ⟨fun ending hending => ?_, fun e => n.finish_error⟩
  have hnormal : n.finish ending = n.finish (.ok ()) := by
    rcases hending with rfl | rfl <;> rfl
  rw [hnormal, n.finish_ok, hresult, hmessage, hstream, hreason]
  refine ⟨fun text ht => by rw [ht], fun hblank => ⟨n.debug, ?_, ?_, ?_, ?_, ?_, ?_, ?_, ?_, ?_⟩⟩
  · have hnone : texts.find? nonBlank = none := by
      refine List.find?_eq_none.mpr fun text ht => ?_
      rw [hblank text ht]
      nofun
    rw [hnone]
  · rw [← Normalizer.toNat_count hcount]
    exact congrArg (fun n => n.debug.messageCount.toNat) ha
  · rw [← Normalizer.toNat_count hcount]
    exact congrArg (fun n => n.debug.eventCount.toNat) ha
  · exact congrArg (fun n => n.debug.streamChars) ha
  · exact congrArg (fun n => n.debug.assistantChars) ha
  · exact congrArg (fun n => n.debug.resultChars) ha
  · exact congrArg (fun n => n.debug.lastMessageType) ha
  · exact congrArg (fun n => n.debug.lastEventType) ha
  · exact congrArg (fun n => n.debug.timeoutSecs) ha

/-- A result that fails by its subtype alone counts for more than the error of a message before it. -/
theorem blank_turn_names_subtype :
    let us : List Utterance := [.diagnostic "low disk", .event (.answer " \t"),
      .event (.message "assistant" ["", "\n"] (some "overloaded")), .event (.result "error_max_turns" "" false none)]
    (eventsOf us).length < 2 ^ 32 ∧
    ∃ debug, ((Normalizer.start 60).takeAll us).1.finish (.error .streamClosed) =
        .error (.failed "provider reported error_max_turns" debug) ∧
      debug.messageCount.toNat = 2 ∧ debug.eventCount.toNat = 1 ∧ debug.streamChars = 2 ∧
      debug.lastMessageType = some "result" ∧ debug.lastEventType = some "text_delta" := by
  intro us
  have hcount : (eventsOf us).length < 2 ^ 32 := by decide
  obtain ⟨hnormal, -⟩ := turn_answers_first_text 60 us hcount
  have hblank : ∀ text ∈ [finalText (eventsOf us), wholeText (eventsOf us), partialText (eventsOf us)],
      nonBlank text = false := by decide +kernel
  obtain ⟨debug, hfinish, hmessages, hevents, hstream, -, -, hlast, hkind, -⟩ :=
    (hnormal (.error .streamClosed) (.inr rfl)).2 hblank
  have hreason : reasonOf (eventsOf us) = "provider reported error_max_turns" := by decide +kernel
  rw [hreason] at hfinish
  exact ⟨hcount, debug, hfinish, hmessages, hevents, hstream.trans (by decide +kernel), hlast.trans (by decide +kernel),
    hkind.trans (by decide +kernel)⟩

end StackDeck.Diagnosis
