import StackDeck.Shell.Basic
import StackDeck.Text.Line
import StackDeck.Text.Utf8

/-!
A machine on which commands are rehearsed. `Host.spawn` answers a command from a script: the first rule
with exactly its arguments, else the next of the turns, else silence and success. Every command that
starts is kept in `calls`.
-/

namespace StackDeck.Shell

structure Rule where
  args : List String
  output : Output

/-- A command that was started. A turn reads its input to the end. -/
structure Call where
  program : String
  args : List String
  directory : String
  input : Option String

structure Host where
  rules : List Rule := []
  turns : List Output := []
  /-- How many commands no rule has answered. -/
  taken : Nat := 0
  /-- Paths below the working directory, as lists of their parts. -/
  directories : List (List String) := []
  files : List (List String × String) := []
  calls : List Call := []

namespace Host

def programs : List String := ["docker", "podman", "claude"]

/-- Splits a path at its slashes. -/
def pathParts (path : String) : List String :=
  (path.splitOn "/").filter fun p => p != "" && p != "."

def parents : List String → List (List String)
  | [] => [[]]
  | p :: r => [] :: (parents r).map (p :: ·)

def isDirectory (h : Host) (path : List String) : Bool :=
  path.isEmpty || h.directories.any (fun d => (parents d).contains path) ||
    h.files.any fun f => (parents f.1.dropLast).contains path

def isFile (h : Host) (path : List String) : Bool := h.files.any fun f => f.1 == path

def read? (h : Host) (path : String) : Option String :=
  (h.files.find? fun f => f.1 == pathParts path).map Prod.snd

/-- Follows a relative path from a directory, one part at a time. -/
def walk (h : Host) (place : List String) : List String → Except SpawnError (List String)
  | [] => .ok place
  | p :: r =>
    let next := if p == ".." then place.dropLast else place ++ [p]
    if h.isDirectory next then walk h next r
    else if h.isFile next then .error .notDirectory
    else .error .notFound

/-- The directory that a command would run in. -/
def enter (h : Host) (path : String) : Except SpawnError (List String) :=
  if path.isEmpty || path.toList.head? == some '/' then .error .notFound
  else h.walk [] (pathParts path)

def silence : Output := ⟨[], [], .code 0, false⟩

/-- What the script has for a command, whether its input is read as that of a turn, and the machine
afterwards. -/
def answer (h : Host) (args : List String) : Output × Bool × Host :=
  match h.rules.find? fun r => r.args == args with
  | some r => (r.output, false, h)
  | none => ((h.turns[h.taken]?).getD silence, !h.turns.isEmpty, { h with taken := h.taken + 1 })

/-- Starts a command with some text on its input. Its directory is entered before the program is looked
for. -/
def spawn (c : Command) (input : String) (h : Host) : Except SpawnError Output × Host :=
  match h.enter c.directory with
  | .error e => (.error e, h)
  | .ok place =>
    if !programs.contains c.program then (.error .notFound, h)
    else
      let (output, isTurn, h) := h.answer c.args
      let call : Call :=
        ⟨c.program, c.args, "/".intercalate place, if isTurn then some input else none⟩
      (.ok output, { h with calls := h.calls ++ [call] })

/-- Starting a command, as a step of a longer job. -/
def start (c : Command) (input : String) : StateM Host (Except SpawnError Output) := spawn c input

end Host

/-! ### What a reader of a running command sees -/

inductive Observation where
  | line (isError : Bool) (text : String)
  | closed (isError : Bool)
  deriving DecidableEq, Repr

/-- What may happen next to the reader of a command: it sees something, or it is told to stop. -/
inductive Moment where
  | seen (o : Observation)
  | told
  deriving DecidableEq, Repr

/-- The lines of one stream up to the first that is not well-formed UTF-8, which closes it. A carriage
return goes with the line feed behind it. A command that hangs keeps its streams open and its unended last
line to itself. -/
def streamObservations (isError hangs : Bool) : List (List UInt8) → List UInt8 → List Observation
  | [], rest =>
    if hangs then []
    else if rest.isEmpty then [.closed isError]
    else
      match Text.Utf8.decode? rest with
      | some s => [.line isError s, .closed isError]
      | none => [.closed isError]
  | l :: more, rest =>
    match Text.Utf8.decode? l with
    | some s =>
      .line isError (String.ofList (Text.dropReturn s.toList)) :: streamObservations isError hangs more rest
    | none => [.closed isError]

/-- Everything seen of a command that nobody stops. -/
def Output.observations (o : Output) : List Observation :=
  let out := splitOctets o.stdout
  let err := splitOctets o.stderr
  streamObservations false o.hangs out.1 out.2 ++ streamObservations true o.hangs err.1 err.2

end StackDeck.Shell
