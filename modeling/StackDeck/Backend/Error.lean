namespace StackDeck

/-- Why a backend did not do what it was asked. -/
inductive BackendError where
  | cancelled
  | timeout (secs : Nat)
  | serviceNotFound (name : String)
  | command (name : String) (detail : String)
  | other (message : String)
  deriving DecidableEq, Repr

def BackendError.message : BackendError → String
  | .cancelled => "operation cancelled"
  | .timeout secs => s!"operation timed out after {secs}s"
  | .serviceNotFound name => "service not found: " ++ name
  | .command name detail => name ++ " failed: " ++ detail
  | .other message => message

end StackDeck
