import StackDeck.Log.Parser
import StackDeck.Shell.Follow

/-!
A tail follows the output of one service through an external command and forwards it line by line. Every
line of the standard output is forwarded; the lines of the error output are so for a container only.
-/

namespace StackDeck.Log

namespace Source

def forwardsErrors : Source → Bool
  | .file _ => false
  | .container _ => true

/-- The command that shows the last lines of a source and then follows it. -/
def command (runtime : String) (backlog : Nat) : Source → Shell.Command
  | .file path => ⟨"tail", ["-n", toString backlog, "-F", path], "."⟩
  | .container id => ⟨runtime, ["logs", "-f", "--tail", toString backlog, id], "."⟩

/-- The line to forward of what was seen of the command. -/
def forwarded? (s : Source) : Shell.Observation → Option String
  | .line isError text => if isError && !s.forwardsErrors then none else some text
  | .closed _ => none

end Source

/-- Which streams of a command may still bring something. -/
structure Streams where
  out : Bool := true
  err : Bool := true
  deriving DecidableEq, Repr

namespace Streams

def isOpen (s : Streams) : Bool := s.out || s.err

def after (s : Streams) : Shell.Observation → Streams
  | .line .. => s
  | .closed isError => if isError then { s with err := false } else { s with out := false }

end Streams

/-- Where a tail is. -/
inductive TailPlace where
  | waiting
  | following (s : Streams) (unread : List Shell.Observation)
  /-- Holds a line for which there was no room. -/
  | sending (l : Line) (s : Streams) (unread : List Shell.Observation)
  | over

structure Tail where
  id : Nat
  service : String
  source : Source
  /-- Was told to stop. -/
  cancelled : Bool := false
  place : TailPlace := .waiting

/-- Everything that a tail forwards of what it sees, as long as a stream is open. -/
def Source.relayed (s : Source) : Streams → List Shell.Observation → List String
  | _, [] => []
  | open_, o :: r =>
    if open_.isOpen then (s.forwarded? o).toList ++ s.relayed (open_.after o) r else []

end StackDeck.Log
