import StackDeck.Json.Render
import StackDeck.Stack.Clock
import StackDeck.Web.Body
import StackDeck.Web.EventStream
import StackDeck.Web.Route

/-!
The interface to all stacks. A request is answered at its arrival, or it waits: for an engine to come up, or
for a backend to act. Sessions, requests and event streams are numbered across all stacks.
-/

namespace StackDeck.Web

/-- What a request waits for. -/
inductive Wait (β : Type) where
  | engine (stack : String) (s : Diagnosis.Startup)
  | action (stack : String) (v : Lifecycle.Visit β)

inductive Reply (β : Type) where
  | answered (r : Response)
  | waiting (w : Wait β)

structure Server (β : Type) where
  contexts : Registry (Stack.Context β) := {}
  /-- The page that is shown for every path besides the interface. -/
  page : Option String := none
  naming : Diagnosis.Naming := {}
  streams : Nat := 0

def version : String := "0.4.0"

namespace Reply

variable {α β : Type}

def ofLifecycle (status : String) : Except Lifecycle.Fault Unit → Response
  | .ok _ => .ok (.object [("status", .str status)])
  | .error e => .refused e.httpStatus e.message

def ofDiagnosis (good : α → Response) : Except Diagnosis.Fault α → Response
  | .ok a => good a
  | .error e => .refused e.httpStatus e.message

def ofAttended (stack : String) : Lifecycle.Attended β → Reply β
  | .answered r => .answered (ofLifecycle "ok" r)
  | .waiting v => .waiting (.action stack v)

end Reply

/-- The fields of a request to start a diagnosis. -/
def startFields : List Field := [⟨["service"], false, true⟩, ⟨["provider"], true, false⟩]

/-- The fields of a request to send a prompt. -/
def messageFields : List Field := [⟨["message", "prompt"], false, true⟩]

/-- A call on one stack, read from a request. -/
inductive Call where
  | status
  | up
  | down
  | restart
  | cancel
  | services
  | serviceAction (service action : String)
  | health
  | logs (q : LogQuery)
  | diagnoses
  | start (service : String) (provider : Option String)
  | message (session prompt : String)
  | interrupt (session : String)
  | close (session : String)
  | events
  deriving DecidableEq, Repr

/-- Reads the call that a request makes on a resource. -/
def Call.read (r : Resource) (q : Request) : Except Rejection Call :=
  match r with
  | .status => .ok .status
  | .up => .ok .up
  | .down => .ok .down
  | .restart => .ok .restart
  | .cancel => .ok .cancel
  | .services => .ok .services
  | .serviceAction service action => .ok (.serviceAction service action)
  | .health => .ok .health
  | .logs =>
    match LogQuery.ofFields (formFields ((Target.ofString q.target).query.getD [])) with
    | .ok query => .ok (.logs query)
    | .error e => .error e
  | .diagnoses =>
    if q.method = .post then
      match q.record startFields with
      | .ok [service, provider] => .ok (.start (service.getD "") provider)
      | .ok _ => .error .unsuitable
      | .error e => .error e
    else .ok .diagnoses
  | .message session =>
    match q.record messageFields with
    | .ok [prompt] => .ok (.message session (prompt.getD ""))
    | .ok _ => .error .unsuitable
    | .error e => .error e
  | .interrupt session => .ok (.interrupt session)
  | .diagnosis session => .ok (.close session)
  | .events => .ok .events

namespace Call

variable {β : Type}

def answer (r : Response × Stack.Context β) : Reply β × Stack.Context β := (.answered r.1, r.2)

/-- Makes a call on a stack. -/
def perform (call : Call) (c : Stack.Context β) : Reply β × Stack.Context β :=
  match call with
  | .status => answer (.ok c.status.toJson, c)
  | .up => let (r, c) := c.up; answer (Reply.ofLifecycle "starting" r, c)
  | .down => let (r, c) := c.down; answer (Reply.ofLifecycle "stopping" r, c)
  | .restart => let (r, c) := c.restart; answer (Reply.ofLifecycle "stopping" r, c)
  | .cancel => let (r, c) := c.cancel; answer (Reply.ofLifecycle "stopping" r, c)
  | .services =>
    match c.services with
    | .ok known => answer (.ok (.arr (known.map Service.toJson)), c)
    | .error e => answer (.refused 500 e.message, c)
  | .serviceAction service action =>
    match Lifecycle.actionOfName action with
    | .error e => answer (.refused e.httpStatus e.message, c)
    | .ok a => let (r, c) := c.serviceAction service a; (Reply.ofAttended c.name r, c)
  | .health => answer (.ok (c.health.latest.toJsonWith ServiceHealth.toJson), c)
  | .logs q => answer (.ok (.arr ((c.logHistory q.service q.limit).map Log.Line.toJson)), c)
  | .diagnoses => answer (.ok (.arr (c.manager.list.map Diagnosis.SessionInfo.toJson)), c)
  | .start service provider =>
    match c.admitDiagnosis service provider with
    | .error e => answer (.refused e.httpStatus e.message, c)
    | .ok s => (.waiting (.engine c.name s), c)
  | .message session prompt =>
    let (r, c) := c.message session prompt
    answer (Reply.ofDiagnosis (fun s => .accepted s.toJson) r, c)
  | .interrupt session =>
    let (r, c) := c.interrupt session
    answer (Reply.ofDiagnosis (fun _ => .accepted (.object [("status", .str "interrupted")])) r, c)
  | .close session =>
    let (r, c) := c.close session
    answer (Reply.ofDiagnosis (fun _ =>
      .ok (.object [("status", .str "closed"), ("sessionId", .str session)])) r, c)
  | .events => let (s, hub) := c.hub.serve c.now; answer (⟨200, .events c.name s⟩, { c with hub })

end Call

namespace Server

variable {α β : Type}

/-- Does something to one stack, with the numbers that all stacks share. -/
def onStack (name : String) (f : Stack.Context β → α × Stack.Context β) (s : Server β) :
    Option (α × Server β) :=
  (s.contexts.get? name).map fun c =>
    let (a, c) := f { c with
      manager := { c.manager with naming := s.naming }
      hub := { c.hub with issued := s.streams } }
    (a, { s with contexts := s.contexts.insert name c, naming := c.manager.naming, streams := c.hub.issued })

/-- Makes the call of a request on a stack. -/
def callStack (name : String) (r : Resource) (q : Request) (s : Server β) : Reply β × Server β :=
  match Call.read r q with
  | .error e => (.answered (.rejected e), s)
  | .ok call =>
    (s.onStack name call.perform).getD (.answered (.refused 404 ("Stack not found: " ++ name)), s)

/-- Answers a request whose method its route takes. -/
def callRoute (r : Route) (q : Request) (s : Server β) : Reply β × Server β :=
  match r.decode? with
  | none => (.answered (.rejected .path), s)
  | some .health => (.answered (.ok (.object [("status", .str "ok"), ("version", .str version)])), s)
  | some .stackNames => (.answered (.ok (.arr (s.contexts.names.map .str))), s)
  | some (.stack name r) => s.callStack name r q

/-- Gives up an event stream. -/
def leave (name : String) (sub : Subscription) (s : Server β) : Server β :=
  { s with contexts := s.contexts.modify name fun c => { c with hub := c.hub.leave sub } }

/-- An answer whose body is not wanted. A stream in it is given up. -/
def dropBody : Reply β × Server β → Reply β × Server β
  | (.answered r, s) =>
    (.answered r.headOnly, match r.content with
      | .events stack sub => s.leave stack sub
      | _ => s)
  | r => r

/-- Where a path leads among the files of the page. -/
inductive Spot where
  | page
  | redirect
  | nowhere

/-- The page stands at the root and under its own name. The root is reached with a slash at its end. -/
def spot (path : List Char) : Spot :=
  match decodePart? (path.dropWhile (· == '/')) with
  | none => .nowhere
  | some text =>
    let parts := (splitAt '/' text.toList).map String.ofList
    if text.toList.head? == some '/' || parts.contains ".." then .nowhere
    else
      match parts.filter fun p => p != "" && p != "." with
      | [] => if path.getLast? == some '/' then .page else .redirect
      | ["index.html"] => .page
      | _ => .nowhere

/-- The response for a path outside the interface. -/
def fallback (method : Method) (path : List Char) (page : Option String) : Response :=
  match page with
  | none => .blank (if method = .options then 200 else 404)
  | some html =>
    let found : Response := match spot path with
      | .page => ⟨200, .html html⟩
      | .redirect => .blank 307
      | .nowhere => ⟨404, .html html⟩
    if method = .get then found
    else if method = .head then found.headOnly
    else .blank 405

/-- Takes a request as far as it goes at once. -/
def arrive (q : Request) (s : Server β) : Reply β × Server β :=
  let path := (Target.ofString q.target).path
  match Route.ofPath? path with
  | none => (.answered (fallback q.method path s.page), s)
  | some r =>
    if q.method = .options then (.answered (.blank 200), s)
    else if r.methods.contains q.method then s.callRoute r q
    else if q.method = .head && r.methods.contains .get then
      dropBody (s.callRoute r { q with method := .get })
    else (.answered (.blank 405), s)

/-- How long a request waits; none if nobody knows. -/
def waitTime? (w : Wait β) (s : Server β) : Option Nat :=
  match w with
  | .engine stack startup => (s.contexts.get? stack).map fun c => c.manager.startupWait startup
  | .action stack v =>
    match v, s.contexts.get? stack with
    | .acting _ _ op, some c => op.due?.map (· - c.now)
    | _, _ => some 0

/-- Goes on with a request whose wait is over. -/
def resume (w : Wait β) (s : Server β) : Reply β × Server β :=
  let (stack, f) : String × (Stack.Context β → Reply β × Stack.Context β) := match w with
    | .engine stack startup => (stack, fun c =>
        let (r, c) := c.completeDiagnosis startup
        (.answered (Reply.ofDiagnosis (fun t => .accepted t.toJson) r), c))
    | .action stack v => (stack, fun c =>
        let (r, c) := c.onMachine fun m => m.attend v
        (Reply.ofAttended stack r, c))
  (s.onStack stack f).getD (.answered (.refused 404 ("Stack not found: " ++ stack)), s)

/-! ### Time -/

def settle (s : Server β) : Server β := { s with contexts := s.contexts.map Stack.Context.settle }

/-- Lets some time pass for all stacks. -/
def advance (ms : Nat) (s : Server β) : Server β :=
  { s with contexts := s.contexts.map fun c => c.advance ms }

/-- Answers a request, letting the time pass that it waits for; work that was left before it is done in the
meantime. A request that waits again, or for nobody knows how long, is left waiting. -/
def handle (q : Request) (s : Server β) : Reply β × Server β :=
  match s.arrive q with
  | (.answered r, s) => (.answered r, s)
  | (.waiting w, s) =>
    match s.waitTime? w with
    | none => (.waiting w, s)
    | some ms => (s.advance ms).resume w

/-! ### Event streams -/

/-- One look at an event stream of a stack. -/
def look (name : String) (sub : Subscription) (s : Server β) : Polled × Subscription × Server β :=
  match s.contexts.get? name with
  | none => (.ended, sub, s)
  | some c =>
    let (p, sub, hub) := c.hub.next c.now sub
    (p, sub, { s with contexts := s.contexts.insert name { c with hub } })

end Server

end StackDeck.Web
