import StackDeck.Proofs.Diagnosis.Answer

/-!
What a turn shows of its answer, read off the list of its events. What one event shows depends on two things only: whether
a partial answer came before it, and the tool call that is open.
-/

namespace StackDeck.Diagnosis

/-- A piece of output apart from its number. -/
def Chunk.unnumbered (c : Chunk) : Chunk := { c with seq := 0 }

/-- The pieces of one kind: their texts, and where each comes from. -/
def piecesOf (kind : ChunkKind) (cs : List Chunk) : List (String × String) :=
  (cs.filter fun c => c.kind = kind).map fun c => (c.text, c.source)

/-- Texts on show, one piece for each that is not empty. -/
def voiced (kind : ChunkKind) (texts : List String) (source : String) : List Chunk :=
  (texts.filter (· ≠ "")).map fun text => ⟨kind, text, source, 0⟩

namespace ProviderEvent

def thought? : ProviderEvent → Option String
  | .thinking text => some text
  | _ => none

/-- A partial answer that holds anything. -/
def streams (e : ProviderEvent) : Bool := e.answer?.any (· ≠ "")

/-- Texts that are not empty, with the provider's name for the event that brings them. -/
def named (texts : List String) (e : ProviderEvent) : List (String × String) :=
  (texts.filter (· ≠ "")).map fun text => (text, e.nativeType)

/-- What an event brings as a partial answer. -/
def partials (e : ProviderEvent) : List (String × String) := e.named e.answer?.toList

def thoughts (e : ProviderEvent) : List (String × String) := e.named e.thought?.toList

/-- What an event brings as a whole message: its blocks that are not blank. -/
def wholes (e : ProviderEvent) : List (String × String) := e.blocks.map fun text => (text, e.nativeType)

/-- What an event shows: `silent` says that no partial answer came before it, `call` is the tool call that is open. -/
def shows (silent : Bool) (call : Option ToolCall) (e : ProviderEvent) : List Chunk :=
  match e with
  | .thinking text => voiced .thinking [text] e.nativeType
  | .answer text => voiced .answer [text] e.nativeType
  | .message .. => if silent then voiced .answer e.blocks e.nativeType else []
  | .blockStop => voiced .remark (call.toList.map fun call => summarizeTool call.name call.input) e.nativeType
  | _ => []

/-- The tool call that is open after an event. -/
def leaves (call : Option ToolCall) : ProviderEvent → Option ToolCall
  | .toolStart name => some ⟨name, ""⟩
  | .toolInput fragment => call.map fun call => { call with input := call.input ++ fragment }
  | .blockStop => none
  | _ => call

end ProviderEvent

open ProviderEvent

/-- The answer on show: the whole messages up to the first partial answer, and from there on the partial answers. -/
def answersOf (es : List ProviderEvent) : List (String × String) :=
  (es.takeWhile fun e => !e.streams).flatMap wholes ++ (es.dropWhile fun e => !e.streams).flatMap partials

@[simp] theorem piecesOf_nil (kind : ChunkKind) : piecesOf kind [] = [] := rfl

@[simp] theorem piecesOf_append (kind : ChunkKind) (cs ds : List Chunk) :
    piecesOf kind (cs ++ ds) = piecesOf kind cs ++ piecesOf kind ds := by
  simp [piecesOf]

theorem piecesOf_unnumbered (kind : ChunkKind) (cs : List Chunk) :
    piecesOf kind (cs.map Chunk.unnumbered) = piecesOf kind cs := by
  simp only [piecesOf, List.filter_map, List.map_map]
  rfl

@[simp] theorem piecesOf_voiced (kind kind' : ChunkKind) (texts : List String) (source : String) :
    piecesOf kind (voiced kind' texts source) =
      if kind' = kind then (texts.filter (· ≠ "")).map fun text => (text, source) else [] := by
  simp only [piecesOf, voiced, List.filter_map, List.map_map, Function.comp_def]
  by_cases h : kind' = kind <;> simp [h]

theorem voiced_append (kind : ChunkKind) (texts texts' : List String) (source : String) :
    voiced kind (texts ++ texts') source = voiced kind texts source ++ voiced kind texts' source := by
  simp [voiced]

theorem ne_empty_of_nonBlank {s : String} (h : nonBlank s = true) : s ≠ "" := by
  rintro rfl
  cases h

theorem filter_blocks (e : ProviderEvent) : e.blocks.filter (· ≠ "") = e.blocks :=
  List.filter_eq_self.mpr fun _ hb => decide_eq_true (ne_empty_of_nonBlank (Normalizer.nonBlank_blocks hb))

namespace Normalizer

/-! ### What one event shows -/

theorem emit_shows (kind : ChunkKind) (text source : String) (n : Normalizer) :
    (n.emit kind text source).2.map Chunk.unnumbered = voiced kind [text] source := by
  by_cases h : text = ""
  · simp [emit, voiced, h]
  · have he : text.isEmpty = false := by simpa using h
    simp [emit, voiced, h, he, Chunk.unnumbered]

theorem emit_tool (kind : ChunkKind) (text source : String) (n : Normalizer) :
    (n.emit kind text source).1.tool = n.tool := by
  unfold emit
  split <;> rfl

theorem addBlock_shows (kind text : String) (n : Normalizer) :
    (n.addBlock kind text).2.map Chunk.unnumbered = if n.streamText = "" then voiced .answer [text] kind else [] := by
  by_cases h : n.streamText = ""
  · have hs : (n.addMessageText text).streamText.isEmpty = true := String.isEmpty_iff.mpr h
    simp only [addBlock, hs, h, if_true]
    exact emit_shows .answer text kind _
  · have hs : (n.addMessageText text).streamText.isEmpty = false := by simpa [addMessageText] using h
    simp [addBlock, hs, h]

theorem addBlock_streamText (kind text : String) (n : Normalizer) :
    (n.addBlock kind text).1.streamText = n.streamText :=
  (congrArg Normalizer.streamText (addBlock_account kind text n) :)

theorem addBlock_tool (kind text : String) (n : Normalizer) : (n.addBlock kind text).1.tool = n.tool := by
  unfold addBlock
  dsimp only
  split
  · exact emit_tool _ _ _ _
  · rfl

theorem addBlocks_shows (kind : String) (texts : List String) (n : Normalizer) :
    (addBlocks kind texts n).2.map Chunk.unnumbered = if n.streamText = "" then voiced .answer texts kind else [] := by
  induction texts generalizing n with
  | nil => simp [addBlocks, voiced]
  | cons text r ih =>
    have hrest : (addBlocks kind (text :: r) n).2 =
        (n.addBlock kind text).2 ++ (addBlocks kind r (n.addBlock kind text).1).2 := rfl
    have hvoiced : voiced .answer (text :: r) kind = voiced .answer [text] kind ++ voiced .answer r kind :=
      voiced_append .answer [text] r kind
    rw [hrest, List.map_append, addBlock_shows, ih, addBlock_streamText, hvoiced]
    by_cases h : n.streamText = "" <;> simp [h]

theorem addBlocks_streamText (kind : String) (texts : List String) (n : Normalizer) :
    (addBlocks kind texts n).1.streamText = n.streamText := by
  induction texts generalizing n with
  | nil => rfl
  | cons text r ih => exact (ih (n.addBlock kind text).1).trans (addBlock_streamText kind text n)

theorem addBlocks_tool (kind : String) (texts : List String) (n : Normalizer) :
    (addBlocks kind texts n).1.tool = n.tool := by
  induction texts generalizing n with
  | nil => rfl
  | cons text r ih => exact (ih (n.addBlock kind text).1).trans (addBlock_tool kind text n)

theorem apply_shows (e : ProviderEvent) (n : Normalizer) :
    (n.apply e).2.map Chunk.unnumbered = e.shows (n.streamText = "") n.tool := by
  cases e with
  | thinking text => exact emit_shows _ _ _ _
  | answer text => exact emit_shows _ _ _ _
  | toolStart name => rfl
  | toolInput fragment => rfl
  | blockStop =>
    simp only [apply, endBlock, shows, sawEvent]
    cases n.tool with
    | none => rfl
    | some call => exact emit_shows _ _ _ _
  | message kind texts error =>
    refine (addBlocks_shows kind (texts.filter nonBlank) (n.sawMessage kind)).trans ?_
    by_cases h : n.streamText = "" <;> simp [shows, blocks, nativeType, sawMessage, h]
  | result subtype text isError error =>
    simp only [apply, shows]
    split <;> rfl

theorem apply_streamText (e : ProviderEvent) (n : Normalizer) :
    (n.apply e).1.streamText = n.streamText ++ e.answer?.getD "" := by
  cases e with
  | answer text => exact congrArg Normalizer.streamText (emit_account _ _ _ _)
  | thinking text =>
    exact (congrArg Normalizer.streamText (emit_account _ _ _ _)).trans String.append_empty.symm
  | blockStop =>
    exact (congrArg Normalizer.streamText (endBlock_account _)).trans String.append_empty.symm
  | message kind texts error => exact (addBlocks_streamText _ _ _).trans String.append_empty.symm
  | result subtype text isError error =>
    simp only [apply, answer?, Option.getD_none, String.append_empty]
    split <;> rfl
  | _ => exact String.append_empty.symm

theorem apply_tool (e : ProviderEvent) (n : Normalizer) : (n.apply e).1.tool = e.leaves n.tool := by
  cases e with
  | thinking text => exact emit_tool _ _ _ _
  | answer text => exact emit_tool _ _ _ _
  | toolStart name => rfl
  | toolInput fragment => rfl
  | blockStop =>
    simp only [apply, endBlock, leaves]
    split
    · assumption
    · exact emit_tool _ _ _ _
  | message kind texts error => exact addBlocks_tool _ _ _
  | result subtype text isError error =>
    simp only [apply, leaves]
    split <;> rfl

theorem piecesOf_apply (kind : ChunkKind) (e : ProviderEvent) (n : Normalizer) :
    piecesOf kind (n.apply e).2 = piecesOf kind (e.shows (n.streamText = "") n.tool) := by
  rw [← piecesOf_unnumbered, apply_shows]

/-- A whole message shows nothing but parts of the answer. -/
theorem piecesOf_shows_message {shown : ChunkKind} (hshown : shown ≠ .answer) (silent : Bool)
    (call : Option ToolCall) (kind : String) (texts : List String) (error : Option String) :
    piecesOf shown ((ProviderEvent.message kind texts error).shows silent call) = [] := by
  cases silent <;> simp [shows, hshown.symm]

/-- Of the answer an event shows what it brings, whole messages only as long as no partial answer was seen. -/
theorem apply_answers (e : ProviderEvent) (n : Normalizer) :
    piecesOf .answer (n.apply e).2 = (if n.streamText = "" then e.wholes else []) ++ e.partials := by
  rw [piecesOf_apply]
  cases e with
  | message kind texts error =>
    by_cases h : n.streamText = ""
    · simp only [shows, h, decide_true, if_true, piecesOf_voiced, filter_blocks]
      exact (List.append_nil _).symm
    · simp [shows, h, partials, named, answer?]
  | _ => simp [shows, wholes, blocks, partials, named, answer?]

theorem apply_thoughts (e : ProviderEvent) (n : Normalizer) : piecesOf .thinking (n.apply e).2 = e.thoughts := by
  rw [piecesOf_apply]
  cases e with
  | message kind texts error => exact piecesOf_shows_message (by decide) ..
  | _ => simp [shows, thoughts, named, thought?]

/-! ### Whole turns -/

/-- What is shown depends on a normalizer only by its partial answer and its open tool call. -/
theorem applyAll_shows_congr {n n' : Normalizer} (es : List ProviderEvent)
    (hstream : n.streamText = n'.streamText) (htool : n.tool = n'.tool) :
    (n.applyAll es).2.map Chunk.unnumbered = (n'.applyAll es).2.map Chunk.unnumbered := by
  induction es generalizing n n' with
  | nil => rfl
  | cons e r ih =>
    have hstream' : (n.apply e).1.streamText = (n'.apply e).1.streamText := by
      rw [apply_streamText, apply_streamText, hstream]
    have htool' : (n.apply e).1.tool = (n'.apply e).1.tool := by
      rw [apply_tool, apply_tool, htool]
    simp only [applyAll, List.map_append, apply_shows, hstream, htool, ih hstream' htool']

theorem partialText_cons (e : ProviderEvent) (es : List ProviderEvent) :
    partialText (e :: es) = e.answer?.getD "" ++ partialText es := by
  unfold partialText
  cases he : e.answer? <;> simp [he]

theorem applyAll_streamText (es : List ProviderEvent) (n : Normalizer) :
    (n.applyAll es).1.streamText = n.streamText ++ partialText es := by
  induction es generalizing n with
  | nil => exact String.append_empty.symm
  | cons e r ih =>
    rw [partialText_cons, ← String.append_assoc, ← apply_streamText]
    exact ih (n.apply e).1

theorem applyAll_tool (es : List ProviderEvent) (n : Normalizer) : (n.applyAll es).1.tool = es.foldl leaves n.tool := by
  induction es generalizing n with
  | nil => rfl
  | cons e r ih =>
    rw [List.foldl_cons, ← apply_tool]
    exact ih (n.apply e).1

theorem streams_iff (e : ProviderEvent) : e.streams = true ↔ e.answer?.getD "" ≠ "" := by
  unfold streams
  cases e.answer? <;> simp

theorem partialText_eq_empty {es : List ProviderEvent} : partialText es = "" ↔ es.any streams = false := by
  induction es with
  | nil => simp [partialText]
  | cons e r ih =>
    rw [partialText_cons, String.append_eq_empty_iff, ih, List.any_cons, Bool.or_eq_false_iff, ← Bool.not_eq_true e.streams,
      streams_iff, not_not]

/-- Once there is a partial answer, only partial answers are shown. -/
theorem answers_of_streamed {n : Normalizer} (es : List ProviderEvent) (hn : n.streamText ≠ "") :
    piecesOf .answer (n.applyAll es).2 = es.flatMap partials := by
  induction es generalizing n with
  | nil => rfl
  | cons e r ih =>
    have hn' : (n.apply e).1.streamText ≠ "" := by
      rw [apply_streamText]
      simp [hn]
    simp only [applyAll, piecesOf_append, apply_answers, if_neg hn, List.nil_append, ih hn', List.flatMap_cons]

theorem answers_of_silent {n : Normalizer} (es : List ProviderEvent) (hn : n.streamText = "") :
    piecesOf .answer (n.applyAll es).2 = answersOf es := by
  induction es generalizing n with
  | nil => rfl
  | cons e r ih =>
    have hstream := apply_streamText e n
    rw [hn, String.empty_append] at hstream
    simp only [applyAll, piecesOf_append, apply_answers, if_pos hn]
    by_cases he : e.streams = true
    · have hwholes : e.wholes = [] := by cases e <;> first | rfl | cases he
      rw [answers_of_streamed r (hstream ▸ (streams_iff e).mp he), hwholes]
      simp [answersOf, he]
    · have hbrought : e.answer?.getD "" = "" := by simpa using mt (streams_iff e).mpr he
      have hpartials : e.partials = [] := by
        unfold partials named
        cases ha : e.answer? <;> simp_all
      rw [ih (hstream.trans hbrought), hpartials, List.append_nil]
      simp [answersOf, he]

theorem applyAll_thoughts (es : List ProviderEvent) (n : Normalizer) :
    piecesOf .thinking (n.applyAll es).2 = es.flatMap thoughts := by
  induction es generalizing n with
  | nil => rfl
  | cons e r ih => simp only [applyAll, piecesOf_append, apply_thoughts, ih, List.flatMap_cons]

/-! ### Partial answers in pieces -/

theorem partialText_pieces (pieces : List String) : partialText (pieces.map .answer) = String.join pieces := by
  simp [partialText, List.filterMap_map, Function.comp_def, answer?]

theorem foldl_leaves_pieces (pieces : List String) (call : Option ToolCall) :
    (pieces.map ProviderEvent.answer).foldl leaves call = call := by
  induction pieces with
  | nil => rfl
  | cons piece r ih => exact ih

theorem applyAll_pieces (pieces : List String) (n : Normalizer) :
    (n.applyAll (pieces.map .answer)).2.map Chunk.unnumbered = voiced .answer pieces "text_delta" := by
  induction pieces generalizing n with
  | nil => rfl
  | cons piece r ih =>
    have hvoiced : voiced .answer (piece :: r) "text_delta" =
        voiced .answer [piece] "text_delta" ++ voiced .answer r "text_delta" := voiced_append .answer [piece] r _
    simp only [List.map_cons, applyAll, List.map_append, apply_shows, ih, hvoiced]
    rfl

/-- Partial answers in the middle of a turn are shown as they come, and what is shown later depends only on their text. -/
theorem applyAll_around (before after : List ProviderEvent) (pieces : List String) (n : Normalizer) :
    (n.applyAll (before ++ pieces.map .answer ++ after)).2.map Chunk.unnumbered =
      (n.applyAll before).2.map Chunk.unnumbered ++ voiced .answer pieces "text_delta" ++
        (({ (n.applyAll before).1 with
            streamText := (n.applyAll before).1.streamText ++ String.join pieces }).applyAll after).2.map
          Chunk.unnumbered := by
  simp only [applyAll_append, List.map_append, applyAll_pieces]
  congr 1
  refine applyAll_shows_congr after ?_ ?_
  · rw [applyAll_streamText, partialText_pieces]
  · rw [applyAll_tool, foldl_leaves_pieces]

theorem applyAll_account (secs : Nat) (es : List ProviderEvent) :
    ((Normalizer.start secs).applyAll es).1.account = digest secs es := by
  have hevents : eventsOf (es.map .event) = es := by simp [eventsOf, Utterance.event?, List.filterMap_map, Function.comp_def]
  rw [← takeAll_events, takeAll_account, hevents]

/-- What a turn comes to, apart from its account of what was seen. -/
theorem finish_told (secs : Nat) (es : List ProviderEvent) :
    (((Normalizer.start secs).applyAll es).1.finish (.ok ())).mapError TurnError.message =
      ([finalText es, wholeText es, partialText es].find? nonBlank).elim (.error (reasonOf es)) .ok := by
  have ha := applyAll_account secs es
  have hresult : ((Normalizer.start secs).applyAll es).1.resultText = finalText es := congrArg Normalizer.resultText ha
  have hmessage : ((Normalizer.start secs).applyAll es).1.messageText = wholeText es :=
    congrArg Normalizer.messageText ha
  have hstream : ((Normalizer.start secs).applyAll es).1.streamText = partialText es := congrArg Normalizer.streamText ha
  have hreason : (((Normalizer.start secs).applyAll es).1.resultError.or
      ((Normalizer.start secs).applyAll es).1.messageError).getD "empty response" = reasonOf es :=
    congrArg (fun n => (n.resultError.or n.messageError).getD "empty response") ha
  rw [finish_ok, hresult, hmessage, hstream, hreason]
  cases [finalText es, wholeText es, partialText es].find? nonBlank <;> rfl

theorem finish_congr {es es' : List ProviderEvent} (secs : Nat) (hfinal : finalText es = finalText es')
    (hwhole : wholeText es = wholeText es') (hpartial : partialText es = partialText es')
    (hreason : reasonOf es = reasonOf es') (ending : Except TurnError Unit) :
    (((Normalizer.start secs).applyAll es).1.finish ending).mapError TurnError.message =
      (((Normalizer.start secs).applyAll es').1.finish ending).mapError TurnError.message := by
  refine finish_agree (Except.mapError TurnError.message) ?_ ending
  rw [finish_told, finish_told, hfinal, hwhole, hpartial, hreason]

theorem filterMap_pieces {α : Type} {f : ProviderEvent → Option α} (hf : ∀ text, f (.answer text) = none)
    (pieces : List String) : (pieces.map ProviderEvent.answer).filterMap f = [] := by
  rw [List.filterMap_map]
  exact List.filterMap_eq_nil_iff.mpr fun text _ => hf text

/-- Partial answers that say the same in other pieces come to the same. -/
theorem finish_around (secs : Nat) (before after : List ProviderEvent) (pieces pieces' : List String)
    (h : String.join pieces = String.join pieces') (ending : Except TurnError Unit) :
    (((Normalizer.start secs).applyAll (before ++ pieces.map .answer ++ after)).1.finish ending).mapError
        TurnError.message =
      (((Normalizer.start secs).applyAll (before ++ pieces'.map .answer ++ after)).1.finish ending).mapError
        TurnError.message := by
  have hblocks (pieces : List String) : (pieces.map ProviderEvent.answer).flatMap blocks = [] := by
    simp [List.flatMap_map, blocks]
  refine finish_congr secs ?_ ?_ ?_ ?_ ending
  · simp only [finalText, List.filterMap_append, filterMap_pieces (f := success?) fun _ => rfl]
  · simp only [wholeText, List.flatMap_append, hblocks]
  · have hpartial := (partialText_pieces pieces).trans (h.trans (partialText_pieces pieces').symm)
    simp only [partialText, List.filterMap_append, String.join_append] at hpartial ⊢
    rw [hpartial]
  · simp only [reasonOf, List.filterMap_append, filterMap_pieces (f := failure?) fun _ => rfl,
      filterMap_pieces (f := complaint?) fun _ => rfl]

end Normalizer

/-- Of a turn's answer is shown, in the order of the events, every partial answer that is not empty, and every block of a
whole message that is not blank as long as no partial answer was shown; each under its provider's name for the event. A
partial answer that comes in pieces changes nothing but the cuts. -/
theorem answers_surface_once (timeoutSecs : Nat) (es : List ProviderEvent) :
    let shown := ((Normalizer.start timeoutSecs).applyAll es).2
    piecesOf .answer shown = answersOf es ∧
    piecesOf .thinking shown = es.flatMap thoughts ∧
    (∀ before e, piecesOf .answer (((Normalizer.start timeoutSecs).applyAll before).1.apply e).2 =
      (if before.any streams then [] else e.wholes) ++ e.partials) ∧
    ∀ before pieces after,
      let whole := (Normalizer.start timeoutSecs).applyAll (before ++ [.answer (String.join pieces)] ++ after)
      let cut := (Normalizer.start timeoutSecs).applyAll (before ++ pieces.map .answer ++ after)
      (∃ later, whole.2.map Chunk.unnumbered =
          ((Normalizer.start timeoutSecs).applyAll before).2.map Chunk.unnumbered ++
            voiced .answer [String.join pieces] "text_delta" ++ later ∧
        cut.2.map Chunk.unnumbered =
          ((Normalizer.start timeoutSecs).applyAll before).2.map Chunk.unnumbered ++
            voiced .answer pieces "text_delta" ++ later) ∧
      ∀ ending, (whole.1.finish ending).mapError TurnError.message = (cut.1.finish ending).mapError TurnError.message := by
  intro shown
  refine ⟨Normalizer.answers_of_silent es rfl, Normalizer.applyAll_thoughts es _, ?_, ?_⟩
  · intro before e
    have hstream : ((Normalizer.start timeoutSecs).applyAll before).1.streamText = partialText before := by
      rw [Normalizer.applyAll_streamText]
      exact String.empty_append
    rw [Normalizer.apply_answers, hstream]
    by_cases hany : before.any streams = true
    · simp [hany, Normalizer.partialText_eq_empty]
    · simp [hany, Normalizer.partialText_eq_empty]
  · intro before pieces after whole cut
    have hjoin : String.join [String.join pieces] = String.join pieces := by simp
    have hwhole := Normalizer.applyAll_around before after [String.join pieces] (Normalizer.start timeoutSecs)
    have hcut := Normalizer.applyAll_around before after pieces (Normalizer.start timeoutSecs)
    rw [hjoin] at hwhole
    exact ⟨⟨_, hwhole, hcut⟩,
      Normalizer.finish_around timeoutSecs before after [String.join pieces] pieces hjoin⟩

/-- A partial answer without text ends no whole message; a blank one does. -/
example :
    answersOf [.message "assistant" ["A", " "] none, .answer "", .message "assistant" ["B"] none, .answer " ",
      .message "assistant" ["C"] none] = [("A", "assistant"), ("B", "assistant"), (" ", "text_delta")] := by
  decide +kernel

end StackDeck.Diagnosis
