import StackDeck.Diagnosis.Chunk
import StackDeck.Diagnosis.Tool

/-!
The events of one turn, brought into one shape.

`Normalizer.apply` takes an event and gives the chunks to show for it. `Normalizer.finish` settles what the
turn answered: the first of the final result, the whole messages and the partial answer that is not
blank.
-/

namespace StackDeck.Diagnosis

/-- Characters of diagnostic output kept for a failed turn. -/
def rawTailChars : Nat := 4000

structure ToolCall where
  name : String
  input : String

structure Normalizer where
  timeoutSecs : Nat
  seq : Nat := 0
  streamText : String := ""
  messageText : String := ""
  resultText : String := ""
  resultError : Option String := none
  messageError : Option String := none
  messageCount : Nat := 0
  eventCount : Nat := 0
  lastMessageType : Option String := none
  lastEventType : Option String := none
  tool : Option ToolCall := none
  rawTail : String := ""

/-- How a turn ended, as a reader of the session sees it. -/
inductive Outcome where
  | completed (text : String)
  | interrupted (text : Option String)
  | failed (error : TurnError)

/-- Any ending of an interrupted turn is an interruption. -/
def Outcome.ofResult (result : Except TurnError String) (interrupted : Bool) : Outcome :=
  match result, interrupted with
  | .ok text, false => .completed text
  | .error e, false => .failed e
  | .ok text, true => .interrupted (some text)
  | .error _, true => .interrupted none

def resolveFinalText (result message stream : String) : Option String :=
  [result, message, stream].find? fun s => !Text.isBlank s

namespace Normalizer

def start (timeoutSecs : Nat) : Normalizer := { timeoutSecs }

def sawEvent (kind : String) (n : Normalizer) : Normalizer :=
  { n with eventCount := n.eventCount + 1, lastEventType := some kind }

def sawMessage (kind : String) (n : Normalizer) : Normalizer :=
  { n with messageCount := n.messageCount + 1, lastMessageType := some kind }

/-- Numbers a piece of output; an empty piece is none. -/
def emit (kind : ChunkKind) (text source : String) (n : Normalizer) : Normalizer × List Chunk :=
  if text.isEmpty then (n, [])
  else ({ n with seq := n.seq + 1 }, [⟨kind, text, source, UInt64.ofNat (n.seq + 1)⟩])

def addMessageText (text : String) (n : Normalizer) : Normalizer :=
  { n with messageText := if n.messageText.isEmpty then text else n.messageText ++ "\n" ++ text }

/-- A block of a whole message. It is shown only as long as no partial answer was. -/
def addBlock (kind text : String) (n : Normalizer) : Normalizer × List Chunk :=
  let n := n.addMessageText text
  if n.streamText.isEmpty then n.emit .answer text kind else (n, [])

def addBlocks (kind : String) : List String → Normalizer → Normalizer × List Chunk
  | [], n => (n, [])
  | text :: r, n =>
    let (n, shown) := n.addBlock kind text
    let (n, rest) := addBlocks kind r n
    (n, shown ++ rest)

def noteMessageError (error : Option String) (n : Normalizer) : Normalizer :=
  { n with messageError := n.messageError.orElse fun _ => error.filter fun e => !Text.isBlank e }

/-- What a failed result says: its error, else its text, else its subtype. -/
def errorDetail (subtype text : String) (error : Option String) : String :=
  match error.filter (fun e => !Text.isBlank e) with
  | some e => e
  | none => if Text.isBlank text then "provider reported " ++ subtype else text

def endBlock (n : Normalizer) : Normalizer × List Chunk :=
  match n.tool with
  | none => (n, [])
  | some call =>
    { n with tool := none }.emit .remark (summarizeTool call.name call.input)
      ProviderEvent.blockStop.nativeType

def apply (e : ProviderEvent) (n : Normalizer) : Normalizer × List Chunk :=
  match e with
  | .thinking text => (n.sawEvent e.nativeType).emit .thinking text e.nativeType
  | .answer text =>
    { n.sawEvent e.nativeType with streamText := n.streamText ++ text }.emit .answer text
      e.nativeType
  | .toolStart name => ({ n.sawEvent e.nativeType with tool := some ⟨name, ""⟩ }, [])
  | .toolInput fragment =>
    ({ n.sawEvent e.nativeType with
        tool := n.tool.map fun call => { call with input := call.input ++ fragment } }, [])
  | .blockStop => (n.sawEvent e.nativeType).endBlock
  | .message kind texts error =>
    let (n, shown) :=
      (n.sawMessage kind).addBlocks kind (texts.filter fun t => !Text.isBlank t)
    (n.noteMessageError error, shown)
  | .result subtype text isError error =>
    let n := n.sawMessage e.nativeType
    if isError || "error".toList.isPrefixOf subtype.toList then
      ({ n with resultError := some (errorDetail subtype text error) }, [])
    else ({ n with resultText := text }, [])

def applyAll : List ProviderEvent → Normalizer → Normalizer × List Chunk
  | [], n => (n, [])
  | e :: r, n =>
    let (n, shown) := n.apply e
    let (n, rest) := applyAll r n
    (n, shown ++ rest)

/-- Keeps a line of diagnostic output. What is kept is cut back whenever its octets outgrow twice the
characters that are needed. -/
def recordDiagnostic (line : String) (n : Normalizer) : Normalizer :=
  let kept := n.rawTail ++ line ++ "\n"
  { n with
    rawTail := if rawTailChars * 2 < kept.utf8ByteSize then Text.tail rawTailChars kept else kept }

def debug (n : Normalizer) : TurnDebug where
  messageCount := UInt32.ofNat n.messageCount
  eventCount := UInt32.ofNat n.eventCount
  streamChars := UInt64.ofNat n.streamText.length
  assistantChars := UInt64.ofNat n.messageText.length
  resultChars := UInt64.ofNat n.resultText.length
  lastMessageType := n.lastMessageType
  lastEventType := n.lastEventType
  timeoutSecs := UInt64.ofNat n.timeoutSecs
  rawTail := Text.tail rawTailChars n.rawTail

/-- Settles the turn. A closed stream is a normal end; any other error is the result. -/
def finish (ending : Except TurnError Unit) (n : Normalizer) : Except TurnError String :=
  match ending with
  | .ok () | .error .streamClosed =>
    match resolveFinalText n.resultText n.messageText n.streamText with
    | some text => .ok text
    | none =>
      let reason := n.resultError.orElse fun _ => n.messageError
      .error (.failed (reason.getD "empty response") n.debug)
  | .error e => .error e

end Normalizer

end StackDeck.Diagnosis
