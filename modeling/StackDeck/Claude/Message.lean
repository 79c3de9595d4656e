import StackDeck.Diagnosis.Chunk
import StackDeck.Json.Record
import StackDeck.Text.Blank

/-!
The lines that the Claude command writes during a turn, one JSON object a line. `Message.ofLine?` reads a
line and `Message.events` says what it means for the turn. A line that is malformed or of an unknown
kind is no message; an unknown part inside a known message means nothing.
-/

namespace StackDeck.Claude

open StackDeck.Json (Tree)
open StackDeck.Json.Tree
open StackDeck.Diagnosis (ProviderEvent)

inductive Block where
  | text (text : String)
  | toolUse (name : String)
  | other
  deriving DecidableEq, Repr

inductive Delta where
  | text (text : String)
  | thinking (text : String)
  | inputJson (fragment : String)
  | other
  deriving DecidableEq, Repr

/-- A step of the answer while it is being written. -/
inductive StreamStep where
  | blockStart (block : Block)
  | blockDelta (delta : Delta)
  | blockStop
  | other
  deriving DecidableEq, Repr

inductive Message where
  | system (subtype : String) (sessionId : Option String)
  | stream (step : StreamStep)
  | assistant (content : List Block) (error : Option String)
  | user
  | result (subtype : String) (text : Option String) (isError : Bool) (sessionId : Option String)
  deriving DecidableEq, Repr

/-- A record of one kind among those that may be nested in a message. -/
def nested? (kinds : List String) (t : Tree) : Option (String × Tree) := do
  let (tag, rest) ← untag? t
  some (← kind? kinds tag, rest)

def field? {α : Type} (name : String) (read : Tree → Option α) (t : Tree) : Option α := do
  match ← slots? [name] t with
  | [slot] => slot.required read
  | _ => none

def Block.ofTree? (t : Tree) : Option Block := do
  match ← nested? ["text", "tool_use"] t with
  | ("text", rest) =>
    match ← slots? ["text"] rest with
    | [slot] => (slot.withDefault "" string?).map .text
    | _ => none
  | ("tool_use", rest) => (field? "name" string? rest).map .toolUse
  | (_, rest) => if rest.isUnit then some .other else none

def Delta.ofTree? (t : Tree) : Option Delta := do
  match ← nested? ["text_delta", "thinking_delta", "input_json_delta"] t with
  | ("text_delta", rest) => (field? "text" string? rest).map .text
  | ("thinking_delta", rest) => (field? "thinking" string? rest).map .thinking
  | ("input_json_delta", rest) => (field? "partial_json" string? rest).map .inputJson
  | (_, rest) => if rest.isUnit then some .other else none

def StreamStep.ofTree? (t : Tree) : Option StreamStep := do
  let kinds := ["content_block_start", "content_block_delta", "content_block_stop"]
  match ← nested? kinds t with
  | ("content_block_start", rest) => (field? "content_block" Block.ofTree? rest).map .blockStart
  | ("content_block_delta", rest) => (field? "delta" Delta.ofTree? rest).map .blockDelta
  | ("content_block_stop", rest) => if rest.isUnit then some .blockStop else none
  | (_, rest) => if rest.isUnit then some .other else none

def contentOf? (t : Tree) : Option (List Block) := do
  match ← slots? ["content"] t with
  | [content] => content.withDefault [] (list? Block.ofTree?)
  | _ => none

namespace Message

def ofTree? (t : Tree) : Option Message := do
  match ← t.tagged? with
  | ("system", rest) =>
    match ← slots? ["subtype", "session_id"] rest with
    | [subtype, session] =>
      some (.system (← subtype.withDefault "" string?) (← session.optionalAnywhere string?))
    | _ => none
  | ("stream_event", rest) => (field? "event" StreamStep.ofTree? rest).map .stream
  | ("assistant", rest) =>
    match ← slots? ["message", "error"] rest with
    | [message, error] =>
      some (.assistant (← message.required contentOf?) (← error.optionalAnywhere string?))
    | _ => none
  | ("user", rest) => if rest.isUnit then some .user else none
  | ("result", rest) =>
    match ← slots? ["subtype", "result", "is_error", "session_id"] rest with
    | [subtype, text, isError, session] =>
      some (.result (← subtype.withDefault "" string?) (← text.optionalAnywhere string?)
        (← isError.withDefault false boolean?) (← session.optionalAnywhere string?))
    | _ => none
  | _ => none

/-- Reads one line of output. -/
def ofLine? (line : String) : Option Message := do
  let t ← Tree.parse? (Text.trim line.toList)
  if t.isSound then ofTree? t else none

/-- The conversation that a message belongs to, where it says so. -/
def sessionId? : Message → Option String
  | .system _ id => id
  | .result _ _ _ id => id
  | _ => none

def blockText? : Block → Option String
  | .text s => some s
  | _ => none

/-- What a message means for its turn. -/
def events : Message → List ProviderEvent
  | .system .. => []
  | .user => []
  | .stream (.blockStart (.toolUse name)) => [.toolStart name]
  | .stream (.blockStart _) => []
  | .stream (.blockDelta (.text s)) => [.answer s]
  | .stream (.blockDelta (.thinking s)) => [.thinking s]
  | .stream (.blockDelta (.inputJson s)) => [.toolInput s]
  | .stream (.blockDelta .other) => []
  | .stream .blockStop => [.blockStop]
  | .stream .other => []
  | .assistant content error => [.message "assistant" (content.filterMap blockText?) error]
  | .result subtype text isError _ => [.result subtype (text.getD "") isError none]

end Message

end StackDeck.Claude
