import StackDeck.Hub.Subscription
import StackDeck.Json.Render

/-!
A subscription as the text of an event stream: each event is a line with its name, a line with its payload
and an empty line; a sign of life is a comment.
-/

namespace StackDeck

/-- One line of an event stream. -/
def streamField (name value : String) : String := name ++ ": " ++ value ++ "\n"

def Frame.text : Frame → String
  | .connected id =>
    streamField "event" "connected" ++ streamField "data" (Json.object [("clientId", .nat id)]).render ++ "\n"
  | .event e => streamField "event" e.name ++ streamField "data" e.data.render ++ "\n"
  | .keepAlive => streamField "" "keepalive" ++ "\n"

end StackDeck
