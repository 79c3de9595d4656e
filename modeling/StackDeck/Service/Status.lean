import StackDeck.Json.Record

namespace StackDeck

/-- One service of a stack as its backend sees it. -/
structure Service where
  name : String
  running : Bool
  state : String
  port : Option UInt16
  healthUrl : Option String
  deriving DecidableEq, Repr

namespace Service

def stateName (running : Bool) : String := if running then "running" else "exited"

/-- A service with neither port nor health endpoint. -/
def plain (name : String) (running : Bool) : Service := ⟨name, running, stateName running, none, none⟩

def withRunning (running : Bool) (s : Service) : Service :=
  { s with running := running, state := stateName running }

def countRunning (services : List Service) : Nat := services.countP Service.running

open Json in
def toJson (s : Service) : Json :=
  .object ([("name", .str s.name), ("running", .bool s.running), ("state", .str s.state)] ++
    optionalField "port" (fun p => .nat p.toNat) s.port ++
    optionalField "health_url" .str s.healthUrl)

open Json.Tree in
def ofTree? (t : Json.Tree) : Option Service := do
  match ← slots? ["name", "running", "state", "port", "health_url"] t with
  | [name, running, state, port, url] =>
    some {
      name := ← name.required string?
      running := ← running.required boolean?
      state := ← state.withDefault "" string?
      port := ← port.optionalAnywhere uint16?
      healthUrl := ← url.optionalAnywhere string? }
  | _ => none

end Service

/-- What may be asked of a single service. -/
inductive ServiceAction where
  | start
  | stop
  | restart
  | rebuild
  deriving DecidableEq, Repr

namespace ServiceAction

def name : ServiceAction → String
  | .start => "start"
  | .stop => "stop"
  | .restart => "restart"
  | .rebuild => "rebuild"

def names : List (String × ServiceAction) :=
  [("start", .start), ("stop", .stop), ("restart", .restart), ("rebuild", .rebuild)]

def ofName? (s : String) : Option ServiceAction := (names.find? fun n => n.1 == s).map Prod.snd

end ServiceAction

/-- One step that a lifecycle operation reports on its way. -/
structure Progress where
  phase : String
  message : String
  deriving DecidableEq, Repr

namespace Progress

open Json in
def toJson (p : Progress) : Json := .object [("phase", .str p.phase), ("message", .str p.message)]

open Json.Tree in
def ofTree? (t : Json.Tree) : Option Progress := do
  match ← slots? ["phase", "message"] t with
  | [phase, message] => some ⟨← phase.required string?, ← message.required string?⟩
  | _ => none

end Progress

end StackDeck
