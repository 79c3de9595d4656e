import StackDeck.Json.Record
import StackDeck.Text.Blank
import StackDeck.Time.Reader

namespace StackDeck.Log

inductive Level where
  | debug
  | info
  | warn
  | error
  deriving DecidableEq, Repr

namespace Level

def name : Level → String
  | .debug => "DEBUG"
  | .info => "INFO"
  | .warn => "WARN"
  | .error => "ERROR"

def names : List (String × Level) :=
  [("DEBUG", .debug), ("INFO", .info), ("WARN", .warn), ("ERROR", .error)]

/-- What programs call their levels. -/
def aliases : List (String × Level) :=
  [("TRACE", .debug), ("DEBUG", .debug), ("DBG", .debug),
   ("INFO", .info), ("INF", .info), ("NOTICE", .info),
   ("WARN", .warn), ("WARNING", .warn), ("WRN", .warn),
   ("ERROR", .error), ("ERR", .error), ("FATAL", .error), ("CRITICAL", .error), ("CRIT", .error),
   ("PANIC", .error)]

/-- The level that a free-form name stands for; case and blanks around it do not matter. -/
def ofName? (s : String) : Option Level :=
  let key := String.ofList ((Text.trim s.toList).map Char.toUpper)
  (aliases.find? fun a => a.1 == key).map Prod.snd

end Level

/-- One line of a service's output. -/
structure Line where
  service : String
  timestamp : Instant
  level : Level
  message : String
  raw : String
  deriving DecidableEq, Repr

namespace Line

/-- The JSON form, with the timestamp written by the caller's clock. -/
def toJsonWith (clock : Instant → Json) (l : Line) : Json :=
  .object [("service", .str l.service), ("timestamp", clock l.timestamp),
    ("level", .str l.level.name), ("message", .str l.message), ("raw", .str l.raw)]

def toJson (l : Line) : Json := l.toJsonWith fun t => .str t.render

open Json.Tree in
def ofTree? (t : Json.Tree) : Option Line := do
  match ← slots? ["service", "timestamp", "level", "message", "raw"] t with
  | [service, timestamp, level, message, raw] =>
    some {
      service := ← service.required string?
      timestamp := ← timestamp.required fun t => t.string?.bind Instant.ofRelaxed?
      level := ← level.required (choice? Level.names)
      message := ← message.required string?
      raw := ← raw.required string? }
  | _ => none

end Line

/-- Where the output of a service can be followed. -/
inductive Source where
  | file (path : String)
  | container (id : String)
  deriving DecidableEq, Repr

namespace Source

open Json in
def toJson : Source → Json
  | .file path => .object [("type", .str "file"), ("path", .str path)]
  | .container id => .object [("type", .str "container"), ("id", .str id)]

open Json.Tree in
def ofTree? (t : Json.Tree) : Option Source := do
  if !t.isSound then none
  match ← t.tagged? with
  | ("file", rest) =>
    match ← slots? ["path"] rest with
    | [path] => (path.required string?).map .file
    | _ => none
  | ("container", rest) =>
    match ← slots? ["id"] rest with
    | [id] => (id.required string?).map .container
    | _ => none
  | _ => none

end Source

end StackDeck.Log
