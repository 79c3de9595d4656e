import StackDeck.Config.Basic
import StackDeck.Text.Blank
import StackDeck.Yaml.Record

/-!
Configurations as YAML documents. `Config.parse` accepts exactly the texts that decode to a configuration
which breaks no rule; every section and field may be left out.
-/

namespace StackDeck

open Yaml (Document Node)

def ServiceOverride.ofNode? (d : Document) (n : Node) : Option ServiceOverride := do
  let es ← d.entries? n
  let base : ServiceOverride := {}
  some {
    healthUrl := ← d.field? es "health_url" base.healthUrl (Document.option? Document.text?)
    port := ← d.field? es "port" base.port (Document.option? Document.uint16?)
    logFile := ← d.field? es "log_file" base.logFile (Document.option? Document.text?) }

def ServerConfig.ofNode? (d : Document) (n : Node) : Option ServerConfig := do
  let es ← d.entries? n
  let base : ServerConfig := {}
  some {
    host := ← d.field? es "host" base.host Document.text?
    port := ← d.field? es "port" base.port Document.uint16?
    staticDir := ← d.field? es "static_dir" base.staticDir (Document.option? Document.text?) }

namespace StackConfig

/-- The later entry of a service counts. -/
def insertOverride (name : String) (o : ServiceOverride) :
    List (String × ServiceOverride) → List (String × ServiceOverride)
  | [] => [(name, o)]
  | e :: r => if e.1 == name then (name, o) :: r else e :: insertOverride name o r

def overrides? (d : Document) (n : Node) : Option (List (String × ServiceOverride)) := do
  let es ← d.entries? n
  let given ← es.mapM fun e => do some (e.1, ← ServiceOverride.ofNode? d e.2)
  some (given.foldl (fun os e => insertOverride e.1 e.2 os) [])

def ofNode? (d : Document) (n : Node) : Option StackConfig := do
  let es ← d.entries? n
  let base : StackConfig := {}
  some {
    name := ← d.field? es "name" base.name Document.text?
    projectDir := ← d.field? es "project_dir" base.projectDir Document.text?
    composeFile := ← d.field? es "compose_file" base.composeFile (Document.option? Document.text?)
    runtime := ← d.field? es "runtime" base.runtime Document.text?
    services := ← d.field? es "services" base.services overrides? }

end StackConfig

def LogsConfig.ofNode? (d : Document) (n : Node) : Option LogsConfig := do
  let es ← d.entries? n
  let base : LogsConfig := {}
  some {
    historyCapacity := ← d.field? es "history_capacity" base.historyCapacity Document.uint64?
    tailBacklog := ← d.field? es "tail_backlog" base.tailBacklog Document.uint64?
    reconcileIntervalSecs :=
      ← d.field? es "reconcile_interval_secs" base.reconcileIntervalSecs Document.uint64? }

def HealthConfig.ofNode? (d : Document) (n : Node) : Option HealthConfig := do
  let es ← d.entries? n
  let base : HealthConfig := {}
  some {
    intervalSecs := ← d.field? es "interval_secs" base.intervalSecs Document.uint64?
    probeTimeoutSecs := ← d.field? es "probe_timeout_secs" base.probeTimeoutSecs Document.uint64? }

def LifecycleConfig.ofNode? (d : Document) (n : Node) : Option LifecycleConfig := do
  let es ← d.entries? n
  let base : LifecycleConfig := {}
  some {
    teardownTimeoutSecs := ← d.field? es "teardown_timeout_secs" base.teardownTimeoutSecs Document.uint64? }

def DiagnoseConfig.ofNode? (d : Document) (n : Node) : Option DiagnoseConfig := do
  let es ← d.entries? n
  let base : DiagnoseConfig := {}
  some {
    command := ← d.field? es "command" base.command Document.text?
    args := ← d.field? es "args" base.args (Document.list? Document.text?)
    turnTimeoutSecs := ← d.field? es "turn_timeout_secs" base.turnTimeoutSecs Document.uint64?
    startupTimeoutSecs := ← d.field? es "startup_timeout_secs" base.startupTimeoutSecs Document.uint64?
    promptLogLines := ← d.field? es "prompt_log_lines" base.promptLogLines Document.uint64? }

namespace Config

def ofNode? (d : Document) (n : Node) : Option Config := do
  let es ← d.entries? n
  let base : Config := {}
  some {
    server := ← d.field? es "server" base.server ServerConfig.ofNode?
    stackConfigs := ← d.field? es "stacks" base.stackConfigs (Document.list? StackConfig.ofNode?)
    logs := ← d.field? es "logs" base.logs LogsConfig.ofNode?
    health := ← d.field? es "health" base.health HealthConfig.ofNode?
    lifecycle := ← d.field? es "lifecycle" base.lifecycle LifecycleConfig.ofNode?
    diagnose := ← d.field? es "diagnose" base.diagnose DiagnoseConfig.ofNode? }

/-- Reads a document; one without content is the default configuration. -/
def decode? (text : String) : Option Config := do
  let d ← Document.ofText? text
  match d.root with
  | none => some {}
  | some n => ofNode? d n

/-! ### Rules -/

/-- Names are checked stack by stack, for being blank before being taken. -/
def nameFault? (seen : List String) : List StackConfig → Option ConfigError
  | [] => none
  | s :: r =>
    if Text.isBlank s.name then some .blankName
    else if seen.contains s.name then some (.duplicateName s.name)
    else nameFault? (s.name :: seen) r

/-- The numbers that may not be zero, in the order in which they are checked. -/
def positiveFields (c : Config) : List (String × UInt64) :=
  [("logs.history_capacity", c.logs.historyCapacity),
   ("logs.reconcile_interval_secs", c.logs.reconcileIntervalSecs),
   ("health.interval_secs", c.health.intervalSecs),
   ("health.probe_timeout_secs", c.health.probeTimeoutSecs),
   ("lifecycle.teardown_timeout_secs", c.lifecycle.teardownTimeoutSecs),
   ("diagnose.turn_timeout_secs", c.diagnose.turnTimeoutSecs),
   ("diagnose.startup_timeout_secs", c.diagnose.startupTimeoutSecs)]

/-- The first rule that a configuration breaks. -/
def fault? (c : Config) : Option ConfigError :=
  if c.stackConfigs.isEmpty then some .noStacks
  else
    match nameFault? [] c.stackConfigs with
    | some e => some e
    | none => ((c.positiveFields.find? fun f => f.2 == 0).map fun f => .zero f.1)

/-- Reads and checks a configuration. A blank text is the default one. -/
def parse (text : String) : Except ConfigError Config :=
  match if Text.isBlank text then some {} else decode? text with
  | none => .error .malformed
  | some c =>
    match c.fault? with
    | some e => .error e
    | none => .ok c

/-- A configuration from a file, given the file's content if it is there. -/
def load (path : String) (content : Option String) : Except ConfigError Config :=
  match content with
  | some text => parse text
  | none => .error (.unreadable path "No such file or directory (os error 2)")

end Config

end StackDeck
