import StackDeck.Backend.Error
import StackDeck.Shell.Basic

namespace StackDeck.Compose

/-- Why a Compose command did not do its work. -/
inductive Error where
  | spawn (command : String) (cause : Shell.SpawnError)
  | failed (command : String) (status : String) (stderr : String)
  | unexpectedOutput (detail : String)
  | cancelled
  deriving DecidableEq, Repr

namespace Error

def message : Error → String
  | .spawn command cause => "failed to spawn " ++ command ++ ": " ++ cause.message
  | .failed command status stderr => command ++ " exited with " ++ status ++ ": " ++ stderr
  | .unexpectedOutput detail => "unexpected compose output: " ++ detail
  | .cancelled => "cancelled"

/-- The error as a backend reports it. -/
def toBackend (e : Error) : BackendError :=
  match e with
  | .spawn command _ => .command command e.message
  | .failed command _ _ => .command command e.message
  | .unexpectedOutput detail => .other detail
  | .cancelled => .cancelled

end Error

end StackDeck.Compose
