import Mathlib.Data.List.Forall2
import StackDeck.Log.Parser
import StackDeck.Proofs.Json.Proper
import StackDeck.Web.EventStream

/-!
An event stream read by its clients. The reader follows the rules of the format, whoever wrote the text: lines end at a line feed, a
carriage return or both, and a blank line ends an event. What it reads of the frames of a subscription is each greeting and each event
once, in order, with its name and its payload on one line, whatever stands in the payload.
-/

namespace StackDeck

/-! ### The reader -/

namespace EventStream

/-- What a client is told: the name of an event and the lines of its data. -/
structure Message where
  name : String
  data : List String
  deriving DecidableEq, Repr

/-- The fields of an event that is not ended yet. -/
structure Gathered where
  name : List Char := []
  data : List (List Char) := []

/-- The lines of a text that are ended, by a line feed, a carriage return or both together. -/
def endedLines (line : List Char) : List Char → List (List Char)
  | [] => []
  | '\r' :: '\n' :: r => line.reverse :: endedLines [] r
  | c :: r => if Log.isLineEnd c then line.reverse :: endedLines [] r else endedLines (c :: line) r

/-- Cuts a line at its first colon. One space after the colon belongs to neither part. -/
def fieldOf (line : List Char) : List Char × List Char :=
  (line.takeWhile (· != ':'),
    match line.dropWhile (· != ':') with
    | ':' :: ' ' :: value => value
    | ':' :: value => value
    | _ => [])

/-- Takes a line that is not blank. A line that starts with a colon is a comment. -/
def Gathered.add (g : Gathered) : List Char → Gathered
  | ':' :: _ => g
  | line =>
    let (field, value) := fieldOf line
    if field == "event".toList then { g with name := value }
    else if field == "data".toList then { g with data := g.data ++ [value] }
    else g

/-- What a blank line ends: nothing if there is no data. -/
def Gathered.told? (g : Gathered) : Option Message :=
  if g.data.isEmpty then none
  else some ⟨if g.name.isEmpty then "message" else String.ofList g.name, g.data.map String.ofList⟩

def readLines (g : Gathered) : List (List Char) → List Message
  | [] => []
  | [] :: r => g.told?.toList ++ readLines {} r
  | line :: r => readLines (g.add line) r

/-- A text may start with a mark of its byte order. -/
def dropMark : List Char → List Char
  | '\uFEFF' :: r => r
  | s => s

/-- Reads the text of a stream. An event whose blank line is missing is not told. -/
def read (s : String) : List Message := readLines {} (endedLines [] (dropMark s.toList))

end EventStream

/-! ### Frames and messages -/

/-- Events with a name that stands on one line. It may start with a space: only the one after the colon is dropped. -/
structure Event.IsNamed (e : Event) : Prop where
  ne_empty : e.name ≠ ""
  unbroken : ∀ c ∈ e.name.toList, Log.isLineEnd c = false

/-- What a frame tells: a greeting is an event with the number of the client, and a sign of life tells nothing. -/
def Frame.told? : Frame → Option Event
  | .connected id => some ⟨"connected", .object [("clientId", .nat id)]⟩
  | .event e => some e
  | .keepAlive => none

/-- The message carries an event: its name, and its payload as a text on one line. The text is read back as the payload, if any
text is. -/
structure EventStream.Message.Carries (m : Message) (e : Event) : Prop where
  name : m.name = e.name
  data : m.data = [e.data.render]
  holds : (∃ text, Json.Holds text e.data) → Json.Holds e.data.render e.data

namespace EventStream

variable {line name value : List Char} {g : Gathered} {e : Event}

/-! ### Lines -/

/-- A line feed ends a line, whatever comes behind it. -/
theorem endedLines_line (h : ∀ c ∈ line, Log.isLineEnd c = false) (front rest : List Char) :
    endedLines front (line ++ '\n' :: rest) = (front.reverse ++ line) :: endedLines [] rest := by
  induction line generalizing front with
  | nil =>
    rw [List.nil_append, List.append_nil, endedLines]
    · rfl
    · exact fun r hc => absurd hc (by decide)
  | cons c r ih =>
    have hc := h c List.mem_cons_self
    have hne : c ≠ '\r' := by
      rintro rfl
      exact absurd hc (by decide)
    rw [List.cons_append, endedLines, if_neg (by rw [hc]; exact Bool.false_ne_true),
      ih fun d hd => h d (List.mem_cons_of_mem c hd)]
    · simp
    · exact fun s hs => absurd hs hne

theorem endedLines_blank (rest : List Char) : endedLines [] ('\n' :: rest) = [] :: endedLines [] rest := by
  have hnone : ∀ c ∈ ([] : List Char), Log.isLineEnd c = false := nofun
  exact endedLines_line hnone [] rest

/-- A field is one line if its parts have no line ends. -/
theorem endedLines_field (hname : ∀ c ∈ name, Log.isLineEnd c = false) (hvalue : ∀ c ∈ value, Log.isLineEnd c = false)
    (rest : List Char) :
    endedLines [] (name ++ ':' :: ' ' :: value ++ '\n' :: rest) = (name ++ ':' :: ' ' :: value) :: endedLines [] rest := by
  refine endedLines_line (fun c hc => ?_) [] rest
  rcases List.mem_append.mp hc with hc | hc
  · exact hname c hc
  · rcases List.mem_cons.mp hc with rfl | hc
    · rfl
    · rcases List.mem_cons.mp hc with rfl | hc
      · rfl
      · exact hvalue c hc

theorem readLines_cons (hline : line ≠ []) (r : List (List Char)) : readLines g (line :: r) = readLines (g.add line) r := by
  cases line with
  | nil => exact absurd rfl hline
  | cons c s => rfl

theorem add_event (value : List Char) : g.add ("event".toList ++ ':' :: ' ' :: value) = { g with name := value } := rfl

theorem add_data (value : List Char) :
    g.add ("data".toList ++ ':' :: ' ' :: value) = { g with data := g.data ++ [value] } := rfl

theorem add_comment (value : List Char) : g.add (':' :: ' ' :: value) = g := rfl

theorem toList_streamField (name value : String) (rest : List Char) :
    (streamField name value).toList ++ rest = name.toList ++ ':' :: ' ' :: value.toList ++ '\n' :: rest := by
  simp [streamField]

/-- The payload of an event is on one line. -/
theorem isLineEnd_of_mem_render {v : Json} {c : Char} (h : c ∈ v.render.toList) : Log.isLineEnd c = false := by
  rw [Json.render, String.toList_ofList] at h
  exact Log.isLineEnd_of_space_le (Json.space_le_of_mem_render v h)

/-! ### Frames -/

variable {f : Frame}

theorem text_of_told (h : f.told? = some e) :
    f.text = streamField "event" e.name ++ streamField "data" e.data.render ++ "\n" := by
  cases f with
  | connected id =>
    cases h
    rfl
  | event e =>
    cases h
    rfl
  | keepAlive => cases h

/-- An event is read from its two lines and the blank line behind them. -/
theorem readLines_event (h : e.IsNamed) (hf : f.told? = some e) (rest : List Char) :
    readLines {} (endedLines [] (f.text.toList ++ rest)) =
      ⟨e.name, [e.data.render]⟩ :: readLines {} (endedLines [] rest) := by
  have htext : f.text.toList ++ rest =
      "event".toList ++ ':' :: ' ' :: e.name.toList ++ '\n' ::
        ("data".toList ++ ':' :: ' ' :: e.data.render.toList ++ '\n' :: ('\n' :: rest)) := by
    rw [text_of_told hf, String.toList_append, String.toList_append, List.append_assoc, List.append_assoc,
      toList_streamField, toList_streamField]
    rfl
  have hname : e.name.toList.isEmpty = false := by
    rw [List.isEmpty_eq_false_iff]
    exact fun hnil => h.ne_empty (String.toList_eq_nil_iff.mp hnil)
  have hevent : ∀ c ∈ "event".toList, Log.isLineEnd c = false := by simp [Log.isLineEnd]
  have hdata : ∀ c ∈ "data".toList, Log.isLineEnd c = false := by simp [Log.isLineEnd]
  rw [htext, endedLines_field hevent h.unbroken, endedLines_field hdata fun _ => isLineEnd_of_mem_render,
    endedLines_blank, readLines_cons (by simp), readLines_cons (by simp), add_event, add_data]
  simp [readLines, Gathered.told?, hname]

/-- A sign of life is a comment, and the blank line behind it ends nothing. -/
theorem readLines_keepAlive (rest : List Char) :
    readLines {} (endedLines [] (Frame.keepAlive.text.toList ++ rest)) = readLines {} (endedLines [] rest) := by
  have htext : Frame.keepAlive.text.toList ++ rest = [] ++ ':' :: ' ' :: "keepalive".toList ++ '\n' :: ('\n' :: rest) := by
    show (streamField "" "keepalive" ++ "\n").toList ++ rest = _
    rw [String.toList_append, List.append_assoc, toList_streamField]
    rfl
  have hkeepalive : ∀ c ∈ "keepalive".toList, Log.isLineEnd c = false := by simp [Log.isLineEnd]
  rw [htext, endedLines_field (by simp) hkeepalive, endedLines_blank, readLines_cons (by simp), List.nil_append, add_comment]
  rfl

theorem isNamed_greeting (data : Json) : Event.IsNamed ⟨"connected", data⟩ where
  ne_empty := by simp
  unbroken := by simp [Log.isLineEnd]

/-- A frame is read as what it tells, whatever frames come behind it. -/
theorem readLines_frame (h : ∀ e, f = .event e → e.IsNamed) (rest : List Char) :
    readLines {} (endedLines [] (f.text.toList ++ rest)) =
      f.told?.toList.map (fun e => ⟨e.name, [e.data.render]⟩) ++ readLines {} (endedLines [] rest) := by
  cases f with
  | connected id => exact readLines_event (isNamed_greeting _) rfl rest
  | event e => exact readLines_event (h e rfl) rfl rest
  | keepAlive => exact readLines_keepAlive rest

theorem readLines_frames {frames : List Frame} (hnames : ∀ e, Frame.event e ∈ frames → e.IsNamed) :
    readLines {} (endedLines [] (String.join (frames.map Frame.text)).toList) =
      (frames.filterMap Frame.told?).map fun e => ⟨e.name, [e.data.render]⟩ := by
  induction frames with
  | nil => rfl
  | cons f r ih =>
    have hjoin : (String.join ((f :: r).map Frame.text)).toList =
        f.text.toList ++ (String.join (r.map Frame.text)).toList := by simp
    have hf : ∀ e, f = .event e → e.IsNamed := fun e he => hnames e (he ▸ List.mem_cons_self)
    rw [hjoin, readLines_frame hf, ih fun e he => hnames e (List.mem_cons_of_mem f he)]
    cases htold : f.told? with
    | none => simp [htold]
    | some e => simp [htold]

theorem text_head (f : Frame) : f.text.toList.head? = some 'e' ∨ f.text.toList.head? = some ':' := by
  cases htold : f.told? with
  | some e =>
    rw [text_of_told htold]
    exact .inl (by simp [streamField])
  | none =>
    cases f with
    | keepAlive => exact .inr (by show (streamField "" "keepalive" ++ "\n").toList.head? = _; simp [streamField])
    | connected id => cases htold
    | event e => cases htold

/-- No stream starts with a mark of the byte order. -/
theorem dropMark_frames (frames : List Frame) :
    dropMark (String.join (frames.map Frame.text)).toList = (String.join (frames.map Frame.text)).toList := by
  have hhead : (String.join (frames.map Frame.text)).toList.head? ≠ some '\uFEFF' := by
    cases frames with
    | nil => exact nofun
    | cons f r =>
      rw [List.map_cons, String.toList_join, List.flatMap_cons, List.head?_append]
      rcases text_head f with h | h <;> rw [h, Option.some_or] <;> decide
  cases hs : (String.join (frames.map Frame.text)).toList with
  | nil => rfl
  | cons c r =>
    rw [dropMark]
    rintro s ⟨rfl, -⟩
    exact hhead (by rw [hs]; rfl)

/-- The text of any frames is read as what they tell: each greeting and each event is told once, in order, with its name and one
line of data that holds its payload, and a sign of life is not told. Nothing in a payload ends, splits or adds an event. -/
theorem frames_are_told_in_order (frames : List Frame) (hnames : ∀ e, Frame.event e ∈ frames → e.IsNamed) :
    List.Forall₂ Message.Carries (read (String.join (frames.map Frame.text))) (frames.filterMap Frame.told?) := by
  rw [read, dropMark_frames, readLines_frames hnames, List.forall₂_map_left_iff]
  exact List.forall₂_same.mpr fun e _ => ⟨rfl, rfl, fun h => Json.holds_render (Json.isProper_iff.mpr h)⟩

/-- A payload that imitates the lines of an event ends none. -/
theorem imitated_event_stays_in_payload :
    let payload : Json :=
      .obj [("level", .num (.decimal true 15 (-1))), ("text", .str "end\n\nevent: done\r\ndata: 1\r\r: no comment")]
    let frames : List Frame := [.connected 7, .event ⟨"log", payload⟩, .keepAlive, .event ⟨"done:", .arr [.null, .arr []]⟩]
    (∀ e, Frame.event e ∈ frames → e.IsNamed) ∧ payload.IsProper ∧
      List.Forall₂ Message.Carries (read (String.join (frames.map Frame.text)))
        [⟨"connected", .obj [("clientId", .nat 7)]⟩, ⟨"log", payload⟩, ⟨"done:", .arr [.null, .arr []]⟩] := by
  intro payload frames
  have hnames : ∀ e, Frame.event e ∈ frames → e.IsNamed := by
    intro e he
    simp only [frames, List.mem_cons, List.not_mem_nil, or_false, reduceCtorEq, Frame.event.injEq, false_or] at he
    rcases he with rfl | rfl
    · exact ⟨by simp, by simp [Log.isLineEnd]⟩
    · exact ⟨by simp, by simp [Log.isLineEnd]⟩
  have hshort : Json.IsShortest 15 (-1) := .inr ⟨by decide, by decide, by decide +kernel⟩
  have hnext : "level" < "text" := String.lt_iff_toList_lt.mpr (by decide)
  have hproper : payload.IsProper := ⟨⟨hshort, trivial, trivial⟩, by simpa using hnext, trivial, trivial, trivial⟩
  exact ⟨hnames, hproper, frames_are_told_in_order frames hnames⟩

end EventStream

end StackDeck
