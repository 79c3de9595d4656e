import StackDeck.Compose.Error
import StackDeck.Shell.Host
import StackDeck.Service.Status
import StackDeck.Text.Blank

/-!
Following a long Compose command line by line. Every line that is not blank is a progress step; the last
few are kept for the error message should the command fail.
-/

namespace StackDeck.Compose

/-- Lines kept for the error message of a failed command. -/
def errorTailLines : Nat := 5

structure Following where
  outOpen : Bool := true
  errOpen : Bool := true
  steps : List Progress := []
  /-- The texts of the last steps. -/
  recent : List String := []

namespace Following

def closed (f : Following) : Bool := !f.outOpen && !f.errOpen

/-- Keeps a text as the last of a few. -/
def keepRecent (text : String) (recent : List String) : List String :=
  (if recent.length == errorTailLines then recent.drop 1 else recent) ++ [text]

/-- Takes one observation, unless its stream was closed before. -/
def observe (phase : String) (f : Following) : Shell.Observation → Following
  | .line isError text =>
    let shown := Text.trimmed text
    if (if isError then f.errOpen else f.outOpen) && !shown.isEmpty then
      { f with steps := f.steps ++ [⟨phase, shown⟩], recent := keepRecent shown f.recent }
    else f
  | .closed true => { f with errOpen := false }
  | .closed false => { f with outOpen := false }

/-- Follows a command, whatever comes first, until the follower is told to stop. The flag says whether it was. -/
def run (phase : String) (f : Following) : List Shell.Moment → Following × Bool
  | [] => (f, false)
  | .told :: _ => (f, true)
  | .seen o :: r => run phase (f.observe phase o) r

/-- What comes to a follower that is told to stop once it has reported `stopAfter` steps. -/
def moments (phase : String) (stopAfter : Option Nat) (f : Following) : List Shell.Observation → List Shell.Moment
  | [] => if stopAfter.any (· ≤ f.steps.length) then [.told] else []
  | o :: r =>
    if stopAfter.any (· ≤ f.steps.length) then .told :: (o :: r).map .seen
    else .seen o :: moments phase stopAfter (f.observe phase o) r

/-- How the command ended for its caller, who waits for both streams to close and then for the command to exit, unless he is told
to stop. -/
def outcome? (command : String) (exit : Option Shell.ExitStatus) (told : Bool) (f : Following) : Option (Except Error Unit) :=
  if told then some (.error .cancelled)
  else if f.closed then
    exit.map fun status =>
      if status.success then .ok () else .error (.failed command status.render ("\n".intercalate f.recent))
  else none

end Following

end StackDeck.Compose
