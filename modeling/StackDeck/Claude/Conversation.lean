import StackDeck.Claude.Message
import StackDeck.Config.Basic
import StackDeck.Diagnosis.Normalizer
import StackDeck.Shell.Host

/-!
Conversations held through the Claude command. Each turn is one invocation that reads the prompt from its
input; once a turn has shown that the conversation exists, later turns resume it.
-/

namespace StackDeck.Claude

open StackDeck.Diagnosis

structure Settings where
  command : String := "claude"
  args : List String := []
  turnTimeoutMs : Nat := 600000
  workingDir : Option String := none

def Settings.ofConfig (c : DiagnoseConfig) (workingDir : Option String) : Settings :=
  ⟨c.command, c.args, c.turnTimeoutSecs.toNat * 1000, workingDir⟩

/-- The name under which sessions may ask for this provider. -/
def providerId : String := "claude"

structure Conversation where
  settings : Settings
  id : String
  resumable : Bool := false

namespace Conversation

def streamArgs : List String :=
  ["-p", "--output-format", "stream-json", "--verbose", "--include-partial-messages"]

def args (c : Conversation) : List String :=
  streamArgs ++ [if c.resumable then "--resume" else "--session-id", c.id] ++ c.settings.args

def command (c : Conversation) : Shell.Command :=
  ⟨c.settings.command, c.args, c.settings.workingDir.getD "."⟩

end Conversation

/-- A turn in progress: what was gathered, what was shown, and whether the conversation is known to
exist. -/
structure Turn where
  normalizer : Normalizer
  shown : List Chunk := []
  resumable : Bool

namespace Turn

/-- A line on the standard output: a message, or else a diagnostic unless it is blank. -/
def hear (line : String) (t : Turn) : Turn :=
  match Message.ofLine? line with
  | some m =>
    let (n, chunks) := t.normalizer.applyAll m.events
    { normalizer := n, shown := t.shown ++ chunks, resumable := t.resumable || m.sessionId?.isSome }
  | none =>
    if Text.isBlank line then t
    else { t with normalizer := t.normalizer.recordDiagnostic line }

def observe (t : Turn) : Shell.Observation → Turn
  | .line true text => { t with normalizer := t.normalizer.recordDiagnostic text }
  | .line false text => t.hear text
  | .closed _ => t

/-- Listens until the streams end, or until `interruptAfter` chunks were shown; the flag says whether the
turn was interrupted. -/
def listen (interruptAfter : Option Nat) (t : Turn) : List Shell.Observation → Turn × Bool
  | [] => (t, false)
  | o :: r =>
    if interruptAfter.any (· ≤ t.shown.length) then (t, true)
    else listen interruptAfter (t.observe o) r

/-- Notes how the command ended, unless all is well. -/
def noteExit (command : String) (status : Shell.ExitStatus) (t : Turn) : Turn :=
  if status.success then t
  else { t with normalizer := t.normalizer.recordDiagnostic (command ++ " exited with " ++ status.render) }

end Turn

namespace Conversation

/-- Asks one question: the answer, the chunks shown on the way, and the conversation afterwards. A command
that hangs is given up at its deadline unless it is interrupted. -/
def ask (prompt : String) (interruptAfter : Option Nat) (c : Conversation) :
    StateM Shell.Host (Except TurnError String × List Chunk × Conversation) := do
  let secs := c.settings.turnTimeoutMs / 1000
  match ← Shell.Host.start c.command prompt with
  | .error e =>
    pure (.error (.provider ("failed to spawn " ++ c.settings.command ++ ": " ++ e.message)), [], c)
  | .ok output =>
    let start : Turn := { normalizer := .start secs, resumable := c.resumable }
    let (t, interrupted) := start.listen interruptAfter output.observations
    let interrupted := interrupted || (output.hangs && interruptAfter.any (· ≤ t.shown.length))
    let result :=
      if interrupted then t.normalizer.finish (.error .streamClosed)
      else if output.hangs then .error (.deadlineExceeded secs)
      else (t.noteExit c.settings.command output.status).normalizer.finish (.ok ())
    pure (result, t.shown, { c with resumable := t.resumable })

end Conversation

/-- Whether the command can be used: it answers the question for its version. -/
def isAvailable (s : Settings) : StateM Shell.Host Bool := do
  match ← Shell.Host.start ⟨s.command, ["--version"], "."⟩ "" with
  | .ok output => pure (output.status.success && !output.hangs)
  | .error _ => pure false

end StackDeck.Claude
