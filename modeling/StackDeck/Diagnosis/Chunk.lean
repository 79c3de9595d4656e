import StackDeck.Json.Record

namespace StackDeck.Diagnosis

inductive ChunkKind where
  | thinking
  | answer
  | remark
  deriving DecidableEq, Repr

def ChunkKind.name : ChunkKind → String
  | .thinking => "thinking"
  | .answer => "answer"
  | .remark => "meta"

def ChunkKind.names : List (String × ChunkKind) :=
  [("thinking", .thinking), ("answer", .answer), ("meta", .remark)]

/-- A piece of a turn's output. Pieces are numbered from 1 within the turn. -/
structure Chunk where
  kind : ChunkKind
  text : String
  source : String
  seq : UInt64
  deriving DecidableEq, Repr

namespace Chunk

open Json in
def toJson (c : Chunk) : Json :=
  .object [("kind", .str c.kind.name), ("text", .str c.text), ("source", .str c.source),
    ("seq", .nat c.seq.toNat)]

open Json.Tree in
def ofTree? (t : Json.Tree) : Option Chunk := do
  match ← slots? ["kind", "text", "source", "seq"] t with
  | [kind, text, source, seq] =>
    some {
      kind := ← kind.required (choice? ChunkKind.names)
      text := ← text.required string?
      source := ← source.required string?
      seq := ← seq.required uint64? }
  | _ => none

end Chunk

/-- What a turn had seen when it was looked at. -/
structure TurnDebug where
  messageCount : UInt32
  eventCount : UInt32
  streamChars : UInt64
  assistantChars : UInt64
  resultChars : UInt64
  lastMessageType : Option String
  lastEventType : Option String
  timeoutSecs : UInt64
  rawTail : String
  deriving DecidableEq, Repr

namespace TurnDebug

def empty : TurnDebug := ⟨0, 0, 0, 0, 0, none, none, 0, ""⟩

open Json in
def toJson (d : TurnDebug) : Json :=
  .object ([("message_count", nat d.messageCount.toNat), ("event_count", nat d.eventCount.toNat),
      ("stream_chars", nat d.streamChars.toNat), ("assistant_chars", nat d.assistantChars.toNat),
      ("result_chars", nat d.resultChars.toNat)] ++
    optionalField "last_message_type" .str d.lastMessageType ++
    optionalField "last_event_type" .str d.lastEventType ++
    [("timeout_secs", nat d.timeoutSecs.toNat), ("raw_tail", .str d.rawTail)])

open Json.Tree in
def ofTree? (t : Json.Tree) : Option TurnDebug := do
  match ← slots? ["message_count", "event_count", "stream_chars", "assistant_chars",
      "result_chars", "last_message_type", "last_event_type", "timeout_secs", "raw_tail"] t with
  | [messages, events, stream, assistant, result, messageType, eventType, timeout, tail] =>
    some {
      messageCount := ← messages.required uint32?
      eventCount := ← events.required uint32?
      streamChars := ← stream.required uint64?
      assistantChars := ← assistant.required uint64?
      resultChars := ← result.required uint64?
      lastMessageType := ← messageType.optional string?
      lastEventType := ← eventType.optional string?
      timeoutSecs := ← timeout.required uint64?
      rawTail := ← tail.required string? }
  | _ => none

end TurnDebug

/-- Why a turn ended without an answer. -/
inductive TurnError where
  | cancelled
  | deadlineExceeded (timeoutSecs : Nat)
  | streamClosed
  | failed (message : String) (debug : TurnDebug)
  | provider (message : String)
  deriving DecidableEq, Repr

namespace TurnError

def message : TurnError → String
  | .cancelled => "turn cancelled"
  | .deadlineExceeded secs => s!"turn deadline exceeded after {secs}s"
  | .streamClosed => "stream closed"
  | .failed message _ => message
  | .provider message => "provider error: " ++ message

/-- An ending that says nothing about the provider. -/
def isCancellation : TurnError → Bool
  | .cancelled => true
  | .deadlineExceeded _ => true
  | _ => false

def debug? : TurnError → Option TurnDebug
  | .failed _ debug => some debug
  | _ => none

end TurnError

/-- What a provider says during a turn: partial output, whole messages and the final result. -/
inductive ProviderEvent where
  | thinking (text : String)
  | answer (text : String)
  | toolStart (name : String)
  | toolInput (fragment : String)
  | blockStop
  | message (kind : String) (texts : List String) (error : Option String)
  | result (subtype : String) (text : String) (isError : Bool) (error : Option String)
  deriving DecidableEq, Repr

/-- The provider's own name for the kind of an event. -/
def ProviderEvent.nativeType : ProviderEvent → String
  | .thinking _ => "thinking_delta"
  | .answer _ => "text_delta"
  | .toolStart _ => "content_block_start"
  | .toolInput _ => "input_json_delta"
  | .blockStop => "content_block_stop"
  | .message kind _ _ => kind
  | .result .. => "result"

end StackDeck.Diagnosis
