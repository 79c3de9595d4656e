import Mathlib.Data.List.DropRight
import StackDeck.Proofs.Diagnosis.Surfacing

/-!
What a turn tells of the tools it uses: one summary for each call, at the end of the block in which the call was made.
-/

namespace StackDeck.Diagnosis

namespace ProviderEvent

def tool? : ProviderEvent → Option String
  | .toolStart name => some name
  | _ => none

def fragment? : ProviderEvent → Option String
  | .toolInput fragment => some fragment
  | _ => none

/-- The events that tell of tools. -/
def isTooling : ProviderEvent → Bool
  | .toolStart _ => true
  | .toolInput _ => true
  | .blockStop => true
  | _ => false

end ProviderEvent

open ProviderEvent

/-- The events since the last end of a block. -/
def currentBlock (es : List ProviderEvent) : List ProviderEvent := es.rtakeWhile fun e => e ≠ .blockStop

/-- The events since the last start of a tool. -/
def sinceStart (es : List ProviderEvent) : List ProviderEvent := es.rtakeWhile fun e => e.tool? = none

/-- The call that is open after some events: the last tool that was started in the current block, with all the input it was
given since. -/
def openCall (es : List ProviderEvent) : Option ToolCall :=
  ((currentBlock es).filterMap tool?).getLast?.map fun name =>
    ⟨name, String.join ((sinceStart es).filterMap fragment?)⟩

/-- The summaries that an event brings when these events came before it. -/
def summariesAt (before : List ProviderEvent) (e : ProviderEvent) : List (String × String) :=
  if e = .blockStop then (openCall before).toList.map fun call => (summarizeTool call.name call.input, e.nativeType)
  else []

/-! ### The open call -/

theorem currentBlock_concat (es : List ProviderEvent) {e : ProviderEvent} (he : e ≠ .blockStop) :
    currentBlock (es ++ [e]) = currentBlock es ++ [e] :=
  List.rtakeWhile_concat_pos _ es e (decide_eq_true he)

theorem currentBlock_stop (es : List ProviderEvent) : currentBlock (es ++ [.blockStop]) = [] :=
  List.rtakeWhile_concat_neg _ es .blockStop (by simp)

theorem sinceStart_concat (es : List ProviderEvent) {e : ProviderEvent} (he : e.tool? = none) :
    sinceStart (es ++ [e]) = sinceStart es ++ [e] :=
  List.rtakeWhile_concat_pos _ es e (decide_eq_true he)

theorem sinceStart_start (es : List ProviderEvent) (name : String) : sinceStart (es ++ [.toolStart name]) = [] :=
  List.rtakeWhile_concat_neg _ es (.toolStart name) (by simp [tool?])

theorem openCall_concat (es : List ProviderEvent) (e : ProviderEvent) : openCall (es ++ [e]) = e.leaves (openCall es) := by
  have hnone (h : e ≠ .blockStop) (ht : e.tool? = none) : openCall (es ++ [e]) =
      (openCall es).map fun call => { call with input := call.input ++ e.fragment?.getD "" } := by
    rw [openCall, currentBlock_concat es h, sinceStart_concat es ht]
    cases hf : e.fragment? <;> simp [openCall, ht, hf, Function.comp_def]
  cases e with
  | toolStart name =>
    rw [openCall, currentBlock_concat (e := .toolStart name) es (by simp), sinceStart_start]
    simp [tool?, leaves]
  | toolInput fragment => exact hnone (by simp) rfl
  | blockStop =>
    rw [openCall, currentBlock_stop]
    rfl
  | _ => simpa [fragment?, leaves] using hnone (by simp) rfl

theorem foldl_leaves (es : List ProviderEvent) : es.foldl leaves none = openCall es := by
  induction es using List.reverseRecOn with
  | nil => rfl
  | append_singleton es e ih => rw [List.foldl_concat, ih, openCall_concat]

/-! ### The summary of a call -/

theorem nonBlank_truncate {max : Nat} {s : String} (h : nonBlank s = true) : nonBlank (Text.truncate max s) = true := by
  unfold Text.truncate
  split
  · exact h
  · simp [nonBlank, Text.isBlank, Text.isSpace]

theorem nonBlank_detail {keys : List String} {input : Json} {s : String} (h : detail? keys input = some s) :
    nonBlank s = true := (Option.filter_eq_some_iff.mp h).2

theorem nonBlank_toolDetail {tool : String} {input : Json} {s : String} (h : toolDetail? tool input = some s) :
    nonBlank s = true := by
  unfold toolDetail? at h
  split at h
  · obtain ⟨command, hcommand, rfl⟩ := Option.map_eq_some_iff.mp h
    exact nonBlank_truncate (nonBlank_detail hcommand)
  all_goals first | exact nonBlank_detail h | cases h

/-- A summary names the tool, and tells one more thing about the call or that it is complete. -/
theorem summarizeTool_cases (tool input : String) :
    (∃ detail, nonBlank detail = true ∧ summarizeTool tool input = tool ++ ": " ++ detail) ∨
      summarizeTool tool input = tool ++ " complete" := by
  unfold summarizeTool
  cases h : (Json.parse? input).bind (toolDetail? tool) with
  | none => exact .inr rfl
  | some detail =>
    obtain ⟨value, -, hdetail⟩ := Option.bind_eq_some_iff.mp h
    exact .inl ⟨detail, nonBlank_toolDetail hdetail, rfl⟩

theorem summarizeTool_ne (tool input : String) : summarizeTool tool input ≠ "" := by
  obtain ⟨detail, -, h⟩ | h := summarizeTool_cases tool input <;> rw [h] <;> simp

theorem summarizeTool_malformed (tool : String) {input : String} (h : Json.parse? input = none) :
    summarizeTool tool input = tool ++ " complete" := by
  simp [summarizeTool, h]

theorem str?_eq_some {v : Json} {s : String} (h : v.str? = some s) : v = .str s := by
  cases v with
  | str t => exact congrArg Json.str (Option.some.inj h)
  | _ => cases h

theorem detail?_eq_some {key : String} {input : Json} {s : String} :
    detail? [key] input = some s ↔ input.field? key = some (.str s) ∧ nonBlank s = true := by
  have hfound : ([key].findSome? fun key => (input.field? key).bind Json.str?) = (input.field? key).bind Json.str? := by
    simp
  rw [detail?, hfound, Option.filter_eq_some_iff, Option.bind_eq_some_iff]
  refine and_congr_left fun _ => ⟨?_, fun h => ⟨_, h, rfl⟩⟩
  rintro ⟨field, hfield, hs⟩
  rw [hfield, str?_eq_some hs]

/-- A command is told as far as a summary has room for it. -/
theorem summarizeTool_bash (input : String) :
    (∃ value command, Json.parse? input = some value ∧ value.field? "command" = some (.str command) ∧
      nonBlank command = true ∧ summarizeTool "Bash" input = "Bash: " ++ Text.truncate commandSummaryChars command) ∨
    (∀ value command, Json.parse? input = some value → value.field? "command" = some (.str command) →
      nonBlank command = false) ∧ summarizeTool "Bash" input = "Bash complete" := by
  cases h : (Json.parse? input).bind (toolDetail? "Bash") with
  | none =>
    refine .inr ⟨fun value command hvalue hfield => ?_, ?_⟩
    · by_contra hblank
      have hdetail := detail?_eq_some.mpr ⟨hfield, Bool.not_eq_false _ ▸ hblank⟩
      simp [hvalue, toolDetail?, hdetail] at h
    · rw [summarizeTool, h]
      rfl
  | some detail =>
    obtain ⟨value, hvalue, hdetail⟩ := Option.bind_eq_some_iff.mp h
    obtain ⟨command, hcommand, rfl⟩ := Option.map_eq_some_iff.mp hdetail
    obtain ⟨hfield, hblank⟩ := detail?_eq_some.mp hcommand
    refine .inl ⟨value, command, hvalue, hfield, hblank, ?_⟩
    rw [summarizeTool, h]
    rfl

theorem truncate_cases (max : Nat) (s : String) :
    (s.length ≤ max ∧ Text.truncate max s = s) ∨
      (max < s.length ∧ (Text.truncate max s).toList = s.toList.take max ++ ['.', '.', '.']) := by
  unfold Text.truncate
  split
  next h => exact .inl ⟨h, rfl⟩
  next h => exact .inr ⟨by omega, by simp⟩

/-! ### Where summaries are shown -/

namespace Normalizer

theorem apply_remarks (e : ProviderEvent) (n : Normalizer) :
    piecesOf .remark (n.apply e).2 =
      if e = .blockStop then n.tool.toList.map fun call => (summarizeTool call.name call.input, e.nativeType)
      else [] := by
  rw [piecesOf_apply]
  cases e with
  | message kind texts error => exact piecesOf_shows_message (by decide) ..
  | blockStop =>
    cases n.tool with
    | none => rfl
    | some call => simp [shows, summarizeTool_ne]
  | _ => simp [shows]

theorem tool_start (secs : Nat) (es : List ProviderEvent) :
    ((Normalizer.start secs).applyAll es).1.tool = openCall es := by
  rw [applyAll_tool]
  exact foldl_leaves es

theorem remarks_after (secs : Nat) (before : List ProviderEvent) (e : ProviderEvent) :
    piecesOf .remark (((Normalizer.start secs).applyAll before).1.apply e).2 = summariesAt before e := by
  rw [apply_remarks, tool_start]
  rfl

theorem remarks_run (secs : Nat) (es : List ProviderEvent) :
    piecesOf .remark ((Normalizer.start secs).applyAll es).2 =
      es.zipIdx.flatMap fun p => summariesAt (es.take p.2) p.1 := by
  induction es using List.reverseRecOn with
  | nil => rfl
  | append_singleton es e ih =>
    have hearlier : (es.zipIdx.flatMap fun p => summariesAt ((es ++ [e]).take p.2) p.1) =
        es.zipIdx.flatMap fun p => summariesAt (es.take p.2) p.1 := by
      refine List.flatMap_congr fun p hp => ?_
      have hlt := List.snd_lt_of_mem_zipIdx hp
      rw [List.take_append_of_le_length (by omega)]
    rw [applyAll_concat, piecesOf_append, remarks_after, ih, List.zipIdx_append, List.flatMap_append, hearlier]
    simp

/-- What is told of tools depends on a normalizer only by the call that is open. -/
theorem remarks_congr {n n' : Normalizer} (es : List ProviderEvent) (h : n.tool = n'.tool) :
    piecesOf .remark (n.applyAll es).2 = piecesOf .remark (n'.applyAll es).2 := by
  induction es generalizing n n' with
  | nil => rfl
  | cons e r ih =>
    have h' : (n.apply e).1.tool = (n'.apply e).1.tool := by rw [apply_tool, apply_tool, h]
    simp only [applyAll, piecesOf_append, apply_remarks, h, ih h']

theorem leaves_other {e : ProviderEvent} (h : e.isTooling = false) (call : Option ToolCall) : e.leaves call = call := by
  cases e <;> first | rfl | cases h

theorem remarks_tooling (es : List ProviderEvent) (n : Normalizer) :
    piecesOf .remark (n.applyAll es).2 = piecesOf .remark (n.applyAll (es.filter isTooling)).2 := by
  induction es generalizing n with
  | nil => rfl
  | cons e r ih =>
    cases h : e.isTooling with
    | true => simp only [List.filter_cons_of_pos h, applyAll, piecesOf_append, ih]
    | false =>
      have hsilent : piecesOf .remark (n.apply e).2 = [] := by
        rw [apply_remarks, if_neg]
        rintro rfl
        cases h
      have htool : (n.apply e).1.tool = n.tool := by rw [apply_tool, leaves_other h]
      rw [List.filter_cons_of_neg (by simp [h]), ← ih n, ← remarks_congr r htool]
      simp only [applyAll, piecesOf_append, hsilent, List.nil_append]

theorem remarks_silent {es : List ProviderEvent} (h : ∀ e ∈ es, e ≠ .blockStop) (n : Normalizer) :
    piecesOf .remark (n.applyAll es).2 = [] := by
  induction es generalizing n with
  | nil => rfl
  | cons e r ih =>
    have hfirst : e ≠ .blockStop := h e List.mem_cons_self
    simp only [applyAll, piecesOf_append, apply_remarks, if_neg hfirst, List.nil_append]
    exact ih (fun e he => h e (List.mem_cons_of_mem _ he)) _

/-- What ends no block counts only by the call that it leaves open. -/
theorem remarks_around (before after es es' : List ProviderEvent) (n : Normalizer)
    (hes : ∀ e ∈ es, e ≠ .blockStop) (hes' : ∀ e ∈ es', e ≠ .blockStop)
    (htool : es.foldl leaves (n.applyAll before).1.tool = es'.foldl leaves (n.applyAll before).1.tool) :
    piecesOf .remark (n.applyAll (before ++ es ++ after)).2 =
      piecesOf .remark (n.applyAll (before ++ es' ++ after)).2 := by
  simp only [applyAll_append, piecesOf_append, remarks_silent hes, remarks_silent hes', List.append_nil]
  congr 1
  refine remarks_congr after ?_
  rw [applyAll_tool es, applyAll_tool es', htool]

theorem foldl_leaves_fragments (fragments : List String) (call : Option ToolCall) :
    (fragments.map ProviderEvent.toolInput).foldl leaves call =
      call.map fun call => { call with input := call.input ++ String.join fragments } := by
  induction fragments generalizing call with
  | nil => simp
  | cons fragment r ih =>
    rw [List.map_cons, List.foldl_cons, ih]
    simp [leaves, Function.comp_def, String.append_assoc]

theorem fragments_ne_stop (fragments : List String) :
    ∀ e ∈ fragments.map ProviderEvent.toolInput, e ≠ .blockStop := by
  intro e he
  obtain ⟨fragment, -, rfl⟩ := List.mem_map.mp he
  nofun

end Normalizer

/-- A turn shows one summary for each tool call, at the end of the block in which the call was made, of the tool that was
started last and all the input it was given. How the input was cut and what else was said does not matter, and input that is
given to no tool is lost. -/
theorem summaries_follow_calls (timeoutSecs : Nat) (es : List ProviderEvent) :
    let remarks (es : List ProviderEvent) := piecesOf .remark ((Normalizer.start timeoutSecs).applyAll es).2
    (∀ before e, piecesOf .remark (((Normalizer.start timeoutSecs).applyAll before).1.apply e).2 =
      summariesAt before e) ∧
    remarks es = (es.zipIdx.flatMap fun p => summariesAt (es.take p.2) p.1) ∧
    remarks es = remarks (es.filter isTooling) ∧
    (∀ (before after : List ProviderEvent) (fragments : List String),
      remarks (before ++ fragments.map .toolInput ++ after) =
        remarks (before ++ [.toolInput (String.join fragments)] ++ after)) ∧
    (∀ (before after : List ProviderEvent) (fragments : List String), openCall before = none →
      remarks (before ++ fragments.map .toolInput ++ after) = remarks (before ++ after)) ∧
    (∀ tool input, summarizeTool tool input ≠ "" ∧
      ((∃ detail, nonBlank detail = true ∧ summarizeTool tool input = tool ++ ": " ++ detail) ∨
        summarizeTool tool input = tool ++ " complete") ∧
      (Json.parse? input = none → summarizeTool tool input = tool ++ " complete")) ∧
    ∀ input,
      (∃ value command detail, Json.parse? input = some value ∧ value.field? "command" = some (.str command) ∧
        nonBlank command = true ∧ summarizeTool "Bash" input = "Bash: " ++ detail ∧
        (command.length ≤ 120 ∧ detail = command ∨
          120 < command.length ∧ detail.toList = command.toList.take 120 ++ ['.', '.', '.'])) ∨
      (∀ value command, Json.parse? input = some value → value.field? "command" = some (.str command) →
        nonBlank command = false) ∧ summarizeTool "Bash" input = "Bash complete" := by
  intro remarks
  have htool (before : List ProviderEvent) := Normalizer.tool_start timeoutSecs before
  refine ⟨Normalizer.remarks_after timeoutSecs, Normalizer.remarks_run timeoutSecs es,
    Normalizer.remarks_tooling es _, ?_, ?_, ?_, ?_⟩
  · intro before after fragments
    refine Normalizer.remarks_around before after _ _ _ (Normalizer.fragments_ne_stop fragments) (by simp) ?_
    rw [Normalizer.foldl_leaves_fragments]
    rfl
  · intro before after fragments hnone
    have hlost : remarks (before ++ fragments.map .toolInput ++ after) = remarks (before ++ [] ++ after) := by
      refine Normalizer.remarks_around before after _ [] _ (Normalizer.fragments_ne_stop fragments) nofun ?_
      rw [htool, hnone, Normalizer.foldl_leaves_fragments]
      rfl
    rwa [List.append_nil] at hlost
  · exact fun tool input => ⟨summarizeTool_ne tool input, summarizeTool_cases tool input, summarizeTool_malformed tool⟩
  · intro input
    obtain ⟨value, command, hvalue, hfield, hblank, hsummary⟩ | h := summarizeTool_bash input
    · exact .inl ⟨value, command, _, hvalue, hfield, hblank, hsummary, truncate_cases 120 command⟩
    · exact .inr h

/-- Input that no tool was started for does not reach the next tool, whose own input is cut off before its end. -/
theorem stray_input_is_lost :
    let before : List ProviderEvent := [.toolStart "Read", .toolInput "null", .blockStop, .answer "so"]
    let after : List ProviderEvent := [.toolStart "Bash", .toolInput "\x7b\"command\":", .blockStop]
    let stray := ["\x7b\"command\":", "\"ls\"\x7d"]
    openCall before = none ∧
    piecesOf .remark ((Normalizer.start 60).applyAll (before ++ stray.map .toolInput ++ after)).2 =
      piecesOf .remark ((Normalizer.start 60).applyAll (before ++ after)).2 ∧
    Json.parse? "\x7b\"command\":" = none ∧ summarizeTool "Bash" "\x7b\"command\":" = "Bash complete" := by
  intro before after stray
  obtain ⟨-, -, -, -, hstray, hsummary, -⟩ := summaries_follow_calls 60 []
  have hnone : openCall before = none := rfl
  have hmalformed : Json.parse? "\x7b\"command\":" = none := by decide +kernel
  exact ⟨hnone, hstray before after stray hnone, hmalformed, (hsummary "Bash" _).2.2 hmalformed⟩

end StackDeck.Diagnosis
