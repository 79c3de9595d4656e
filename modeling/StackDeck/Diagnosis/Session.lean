import StackDeck.Diagnosis.Engine
import StackDeck.Diagnosis.Record
import StackDeck.Hub.Basic

/-!
One conversation about one service, and the turns launched in it. The turns of a session take their turn
behind a lock, in the order in which they first asked for it.
-/

namespace StackDeck.Diagnosis

/-- Why a call about sessions was refused. -/
inductive Fault where
  | serviceRequired
  | messageRequired
  | promptRequired
  | sessionRequired
  | sessionNotFound (id : String)
  | serviceNotFound (name : String)
  | unknownProvider (id : String)
  | unavailable (id : String)
  | startTimeout (secs : Nat)
  | provider (e : TurnError)
  deriving DecidableEq, Repr

def Fault.message : Fault → String
  | .serviceRequired => "service is required"
  | .messageRequired => "message is required"
  | .promptRequired => "prompt is required"
  | .sessionRequired => "session id is required"
  | .sessionNotFound id => "session not found: " ++ id
  | .serviceNotFound name => "service not found: " ++ name
  | .unknownProvider id => "unknown provider: " ++ id
  | .unavailable id => "provider '" ++ id ++ "' is not available"
  | .startTimeout secs => s!"provider session did not start within {secs}s"
  | .provider e => e.message

/-- Sessions and turns are named by counting. -/
structure Session where
  id : String
  service : String
  provider : String
  engine : Nat
  createdAt : Instant
  /-- Turns launched and not yet ended. -/
  pending : Nat := 0
  interrupted : Bool := false
  /-- The turn that an interrupt reaches. -/
  current : Option Nat := none
  /-- The turn that has the lock, and those that wait for it. -/
  holder : Option Nat := none
  waiters : List Nat := []
  closed : Bool := false
  turns : Nat := 0

/-- Where a turn is. -/
inductive TurnPlace where
  | launched
  /-- Waits for the lock. -/
  | waiting
  /-- Was handed the lock and has not gone on yet. -/
  | granted
  | sleeping (due : Nat) (n : Normalizer) (rest : TurnScript)
  /-- Waits to be interrupted. -/
  | listening (n : Normalizer) (rest : TurnScript)
  | over

structure Turn where
  id : Nat
  session : String
  requestId : String
  prompt : String
  /-- The turn's own interrupt token was used. -/
  cut : Bool := false
  place : TurnPlace := .launched

/-- What all news of one turn carries. -/
structure TurnNames where
  sessionId : String
  requestId : String
  service : String
  provider : String
  deriving DecidableEq, Repr

inductive TurnNews where
  | started
  | chunk (c : Chunk)
  | completed (text : String)
  | interrupted (text : Option String)
  | failed (e : TurnError)
  deriving DecidableEq, Repr

inductive Notice where
  | turn (names : TurnNames) (news : TurnNews)
  | closed (sessionId service provider : String)
  deriving DecidableEq, Repr

namespace Notice

def sessionId : Notice → String
  | .turn names _ => names.sessionId
  | .closed id _ _ => id

def payload (names : TurnNames) (more : List (String × Json)) : Json :=
  .object ([("sessionId", .str names.sessionId), ("requestId", .str names.requestId),
    ("service", .str names.service), ("provider", .str names.provider)] ++ more)

def event : Notice → Event
  | .turn names .started => ⟨"diagnose_started", payload names []⟩
  | .turn names (.chunk c) => ⟨"diagnose_stream", payload names [("chunk", c.toJson)]⟩
  | .turn names (.completed text) => ⟨"diagnose_result", payload names [("text", .str text)]⟩
  | .turn names (.interrupted text) =>
    ⟨"diagnose_interrupted", payload names [("text", Json.ofOption .str text)]⟩
  | .turn names (.failed e) =>
    ⟨"diagnose_error", payload names [("error", .str e.message), ("cancelled", .bool e.isCancellation),
      ("debug", Json.ofOption TurnDebug.toJson e.debug?)]⟩
  | .closed id service provider =>
    ⟨"diagnose_session_closed", .object [("sessionId", .str id), ("service", .str service),
      ("provider", .str provider)]⟩

end Notice

def Outcome.news : Outcome → TurnNews
  | .completed text => .completed text
  | .interrupted text => .interrupted text
  | .failed e => .failed e

namespace Session

/-- Somebody has the lock. -/
def isBusy (s : Session) : Bool := s.holder.isSome

def info (s : Session) : SessionInfo :=
  ⟨s.id, s.service, s.provider, s.createdAt, UInt64.ofNat s.turns, s.isBusy⟩

/-- A turn has ended; the interrupt that was meant for it is used up. -/
def endTurn (s : Session) : Session := { s with pending := s.pending - 1, interrupted := false }

end Session

end StackDeck.Diagnosis
