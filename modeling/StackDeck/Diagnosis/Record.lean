import StackDeck.Json.Record
import StackDeck.Time.Reader

namespace StackDeck.Diagnosis

/-- The names of a turn that was launched. -/
structure StartedTurn where
  sessionId : String
  requestId : String
  provider : String
  deriving DecidableEq, Repr

namespace StartedTurn

open Json in
def toJson (t : StartedTurn) : Json :=
  .object [("sessionId", .str t.sessionId), ("requestId", .str t.requestId), ("provider", .str t.provider)]

open Json.Tree in
def ofTree? (t : Json.Tree) : Option StartedTurn := do
  match ← slots? ["sessionId", "requestId", "provider"] t with
  | [session, request, provider] =>
    some ⟨← session.required string?, ← request.required string?, ← provider.required string?⟩
  | _ => none

end StartedTurn

/-- A live session as its clients see it. -/
structure SessionInfo where
  sessionId : String
  service : String
  provider : String
  createdAt : Instant
  turns : UInt64
  busy : Bool
  deriving DecidableEq, Repr

namespace SessionInfo

open Json in
def toJsonWith (clock : Instant → Json) (s : SessionInfo) : Json :=
  .object [("sessionId", .str s.sessionId), ("service", .str s.service), ("provider", .str s.provider),
    ("createdAt", clock s.createdAt), ("turns", .nat s.turns.toNat), ("busy", .bool s.busy)]

def toJson (s : SessionInfo) : Json := s.toJsonWith fun t => .str t.render

open Json.Tree in
def ofTree? (t : Json.Tree) : Option SessionInfo := do
  match ← slots? ["sessionId", "service", "provider", "createdAt", "turns", "busy"] t with
  | [session, service, provider, createdAt, turns, busy] =>
    some {
      sessionId := ← session.required string?
      service := ← service.required string?
      provider := ← provider.required string?
      createdAt := ← createdAt.required fun t => t.string?.bind Instant.ofRelaxed?
      turns := ← turns.required uint64?
      busy := ← busy.required boolean? }
  | _ => none

end SessionInfo

end StackDeck.Diagnosis
