import StackDeck.Web.Message

/-!
What the paths of the interface name. A path is matched as it was written, part by part, and no part that
stands for a name may be empty.
-/

namespace StackDeck.Web

/-- What belongs to one stack. -/
inductive Resource where
  | status
  | up
  | down
  | restart
  | cancel
  | services
  | serviceAction (service action : String)
  | health
  | logs
  | diagnoses
  | message (session : String)
  | interrupt (session : String)
  | diagnosis (session : String)
  | events
  deriving DecidableEq, Repr

inductive Route where
  | health
  | stackNames
  | stack (name : String) (r : Resource)
  deriving DecidableEq, Repr

namespace Resource

def ofParts? : List String → Option Resource
  | ["status"] => some .status
  | ["up"] => some .up
  | ["down"] => some .down
  | ["restart"] => some .restart
  | ["cancel"] => some .cancel
  | ["services"] => some .services
  | ["services", service, action] =>
    if service.isEmpty || action.isEmpty then none else some (.serviceAction service action)
  | ["health"] => some .health
  | ["logs"] => some .logs
  | ["diagnose"] => some .diagnoses
  | ["diagnose", session] => if session.isEmpty then none else some (.diagnosis session)
  | ["diagnose", session, "message"] => if session.isEmpty then none else some (.message session)
  | ["diagnose", session, "interrupt"] => if session.isEmpty then none else some (.interrupt session)
  | ["events"] => some .events
  | _ => none

/-- The methods besides HEAD that a resource takes. -/
def methods : Resource → List Method
  | .status => [.get]
  | .up => [.post]
  | .down => [.post]
  | .restart => [.post]
  | .cancel => [.post]
  | .services => [.get]
  | .serviceAction .. => [.post]
  | .health => [.get]
  | .logs => [.get]
  | .diagnoses => [.get, .post]
  | .message _ => [.post]
  | .interrupt _ => [.post]
  | .diagnosis _ => [.delete]
  | .events => [.get]

def decode? : Resource → Option Resource
  | .serviceAction service action => do
    some (.serviceAction (← decodePart? service.toList) (← decodePart? action.toList))
  | .message session => (decodePart? session.toList).map .message
  | .interrupt session => (decodePart? session.toList).map .interrupt
  | .diagnosis session => (decodePart? session.toList).map .diagnosis
  | r => some r

end Resource

namespace Route

def ofParts? : List String → Option Route
  | ["", "api", "health"] => some .health
  | ["", "api", "stacks"] => some .stackNames
  | "" :: "api" :: "stacks" :: name :: r =>
    if name.isEmpty then none else (Resource.ofParts? r).map (.stack name)
  | _ => none

/-- The route of a path, its names still as they were written. -/
def ofPath? (path : List Char) : Option Route := ofParts? ((splitAt '/' path).map String.ofList)

def methods : Route → List Method
  | .health => [.get]
  | .stackNames => [.get]
  | .stack _ r => r.methods

/-- The route with its names as they are meant; none if one of them stands for no text. -/
def decode? : Route → Option Route
  | .stack name r => do some (.stack (← decodePart? name.toList) (← r.decode?))
  | r => some r

end Route

end StackDeck.Web
