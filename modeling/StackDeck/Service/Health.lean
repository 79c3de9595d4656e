import StackDeck.Json.Record
import StackDeck.Time.Reader

namespace StackDeck

inductive HealthStatus where
  | healthy
  | unhealthy
  | unknown
  deriving DecidableEq, Repr

def HealthStatus.name : HealthStatus → String
  | .healthy => "healthy"
  | .unhealthy => "unhealthy"
  | .unknown => "unknown"

def HealthStatus.names : List (String × HealthStatus) :=
  [("healthy", .healthy), ("unhealthy", .unhealthy), ("unknown", .unknown)]

/-- What is known of one service's health. -/
structure ServiceHealth where
  status : HealthStatus
  lastCheck : Instant
  lastError : Option String
  consecutiveFailures : UInt32
  deriving DecidableEq, Repr

namespace ServiceHealth

/-- The JSON form, with the time of the last check written by the caller's clock. -/
def toJsonWith (clock : Instant → Json) (h : ServiceHealth) : Json :=
  .object ([("status", .str h.status.name), ("last_check", clock h.lastCheck)] ++
    Json.optionalField "last_error" .str h.lastError ++
    [("consecutive_failures", .nat h.consecutiveFailures.toNat)])

def toJson (h : ServiceHealth) : Json := h.toJsonWith fun t => .str t.render

open Json.Tree in
def ofTree? (t : Json.Tree) : Option ServiceHealth := do
  match ← slots? ["status", "last_check", "last_error", "consecutive_failures"] t with
  | [status, check, error, failures] =>
    some {
      status := ← status.required (choice? HealthStatus.names)
      lastCheck := ← check.required fun t => t.string?.bind Instant.ofRelaxed?
      lastError := ← error.optionalAnywhere string?
      consecutiveFailures := ← failures.required uint32? }
  | _ => none

end ServiceHealth

end StackDeck
