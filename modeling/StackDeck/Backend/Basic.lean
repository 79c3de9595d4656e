import StackDeck.Backend.Script
import StackDeck.Log.Line

namespace StackDeck

/-- What a stack is run by: its services at a moment, the scripts that boot it, tear it down and act on one
service, and where a service's output is found. -/
structure Backend (β : Type) where
  services : β → Except BackendError (List Service)
  boot : Script β
  teardown : Script β
  act : ServiceAction → String → Script β
  logSource : String → β → Except BackendError Log.Source

end StackDeck
