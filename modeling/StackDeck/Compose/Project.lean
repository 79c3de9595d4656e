import StackDeck.Compose.Progress
import StackDeck.Compose.Ps
import StackDeck.Config.Basic
import StackDeck.Log.Line

/-!
A Compose project as a backend: each operation is one or two commands run in the project's directory.
-/

namespace StackDeck.Compose

structure Project where
  runtime : String
  directory : String
  file : Option String
  overrides : List (String × ServiceOverride)

/-- Work done with commands on a host, which may fail. -/
abbrev Job (α : Type) := ExceptT BackendError (StateM Shell.Host) α

namespace Project

def ofConfig (c : StackConfig) : Project := ⟨c.runtime, c.projectDir, c.composeFile, c.services⟩

def override? (name : String) (p : Project) : Option ServiceOverride :=
  (p.overrides.find? fun o => o.1 == name).map Prod.snd

def command (p : Project) (args : List String) : Shell.Command :=
  let file := match p.file with
    | some f => ["-f", f]
    | none => []
  ⟨p.runtime, "compose" :: (file ++ args), p.directory⟩

/-- A command as messages name it. -/
def describe (p : Project) (args : List String) : String :=
  p.runtime ++ " compose " ++ " ".intercalate args

def fail {α : Type} (e : Error) : Job α := throw e.toBackend

def spawn (p : Project) (args : List String) : Job Shell.Output := do
  match ← Shell.Host.start (p.command args) "" with
  | .ok output => pure output
  | .error cause => fail (.spawn (p.describe args) cause)

/-- Runs a short command to its end and gives what it printed. -/
def run (p : Project) (args : List String) : Job String := do
  let output ← p.spawn args
  if output.status.success then pure (Text.Utf8.decodeLossy output.stdout)
  else
    fail (.failed (p.describe args) output.status.render
      (Text.trimmed (Text.Utf8.decodeLossy output.stderr)))

/-- Runs a long command; the steps it reported come with its outcome. One that never ends is given up. -/
def runWithProgress (p : Project) (phase : String) (args : List String) (stopAfter : Option Nat) :
    StateM Shell.Host (Except BackendError Unit × List Progress) := do
  match ← (p.spawn args).run with
  | .error e => pure (.error e, [])
  | .ok output =>
    let start : Following := {}
    let (f, told) := start.run phase (start.moments phase stopAfter output.observations)
    let exit := if output.hangs then none else some output.status
    let outcome := (f.outcome? (p.describe args) exit told).getD (.error .cancelled)
    pure (outcome.mapError Error.toBackend, f.steps)

/-- The lines of a command's output that hold anything, without the blanks around them. -/
def filledLines (s : String) : List String :=
  ((Text.lines s.toList).map fun l => String.ofList (Text.trim l)).filter fun l => !l.isEmpty

/-- Every service that the project declares. -/
def declared (p : Project) : Job (List String) := do
  pure (filledLines (← p.run ["config", "--services"]))

def ensureDeclared (p : Project) (name : String) : Job Unit := do
  if !(← p.declared).contains name then throw (.serviceNotFound name)

/-- What a service list and the overrides say about a service. -/
def status (p : Project) (name : String) (entry : Option PsEntry) : Service :=
  let seen : Service := match entry with
    | none => .plain name false
    | some e => {
        name
        running := e.state.toList.map Char.toLower == "running".toList
        state := e.state
        port := e.ports.find? (0 < ·)
        healthUrl := none }
  match p.override? name with
  | none => seen
  | some o => { seen with port := o.port.orElse fun _ => seen.port, healthUrl := o.healthUrl }

/-- Stands for the reader's complaint about a service list that is no JSON. -/
def unreadable : String := "the service list cannot be read"

def services (p : Project) : Job (List Service) := do
  let names ← p.declared
  match PsEntry.listOfText? (← p.run ["ps", "--all", "--format", "json"]) with
  | none => fail (.unexpectedOutput unreadable)
  | some entries =>
    pure (names.map fun name => p.status name (entries.find? fun e => e.service == name))

def up (p : Project) (stopAfter : Option Nat) :=
  p.runWithProgress "up" ["up", "-d"] stopAfter

def down (p : Project) := p.runWithProgress "down" ["down"] none

def actionArgs (name : String) : ServiceAction → List String
  | .start => ["start", name]
  | .stop => ["stop", name]
  | .restart => ["restart", name]
  | .rebuild => ["up", "-d", "--build", "--no-deps", name]

def act (p : Project) (action : ServiceAction) (name : String) : Job Unit := do
  p.ensureDeclared name
  let _ ← p.run (actionArgs name action)

def isAbsolute (path : String) : Bool := path.toList.head? == some '/'

/-- A path taken from a directory; an absolute one stands for itself. -/
def joinPath (directory path : String) : String :=
  if isAbsolute path || directory.isEmpty then path
  else if directory.toList.getLast? == some '/' then directory ++ path
  else directory ++ "/" ++ path

/-- Where the output of a service is found: a log file that the configuration names, else its first
container. -/
def logSource (p : Project) (name : String) : Job Log.Source := do
  match (p.override? name).bind ServiceOverride.logFile with
  | some path => pure (.file (joinPath p.directory path))
  | none =>
    p.ensureDeclared name
    match filledLines (← p.run ["ps", "-q", name]) with
    | id :: _ => pure (.container id)
    | [] => throw (.other ("service " ++ name ++ " has no container"))

end Project

end StackDeck.Compose
