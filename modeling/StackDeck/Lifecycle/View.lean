import StackDeck.Service.Status

namespace StackDeck.Lifecycle

/-- Where a stack is between two rests. -/
inductive Phase where
  | idle
  | starting
  | stopping
  deriving DecidableEq, Repr

def Phase.name : Phase → String
  | .idle => "idle"
  | .starting => "starting"
  | .stopping => "stopping"

def Phase.names : List (String × Phase) :=
  [("idle", .idle), ("starting", .starting), ("stopping", .stopping)]

/-- What a stack is reported to be. At rest it is running as soon as one service is. -/
inductive Standing where
  | starting
  | stopping
  | running
  | stopped
  deriving DecidableEq, Repr

def Standing.name : Standing → String
  | .starting => "starting"
  | .stopping => "stopping"
  | .running => "running"
  | .stopped => "stopped"

def Standing.names : List (String × Standing) :=
  [("starting", .starting), ("stopping", .stopping), ("running", .running), ("stopped", .stopped)]

def Phase.standing (running : Nat) : Phase → Standing
  | .starting => .starting
  | .stopping => .stopping
  | .idle => if 0 < running then .running else .stopped

/-- A stack as its clients see it. -/
structure View where
  status : Standing
  running : Nat
  total : Nat
  lastError : Option String
  progress : List Progress
  deriving DecidableEq, Repr

namespace View

open Json in
def toJson (v : View) : Json :=
  .object [("status", .str v.status.name), ("running", .nat v.running), ("total", .nat v.total),
    ("lastError", ofOption .str v.lastError), ("progress", .arr (v.progress.map Progress.toJson))]

open Json.Tree in
def ofTree? (t : Json.Tree) : Option View := do
  match ← slots? ["status", "running", "total", "lastError", "progress"] t with
  | [status, running, total, lastError, progress] =>
    some {
      status := ← status.required (choice? Standing.names)
      running := ← running.required (natBelow? UInt64.size)
      total := ← total.required (natBelow? UInt64.size)
      lastError := ← lastError.optional string?
      progress := ← progress.required (list? Progress.ofTree?) }
  | _ => none

end View

end StackDeck.Lifecycle
