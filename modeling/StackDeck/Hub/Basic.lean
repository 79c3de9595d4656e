import StackDeck.Json.Basic

/-!
A hub hands named events to many clients. Every client has a bounded queue of its own and misses what
arrives while the queue is full, so that none of them holds up another.
-/

namespace StackDeck

/-- A named event with its payload. -/
structure Event where
  name : String
  data : Json

/-- A client: what is queued for it, whether it was told to stop, and whether anybody still listens. -/
structure Client where
  id : Nat
  queue : List Event := []
  done : Bool := false
  listening : Bool := true

structure Hub where
  capacity : Nat := 64
  /-- Milliseconds without an event after which a subscription shows that it is alive. -/
  keepalive : Nat := 15000
  /-- The number of clients that were ever named. -/
  issued : Nat := 0
  stopped : Bool := false
  registered : List Nat := []
  clients : List Client := []

/-- What one look at a client's queue gives. -/
inductive Reception where
  | event (e : Event)
  | pending
  | closed

namespace Hub

/-- A queue holds one event at least. -/
def limit (h : Hub) : Nat := max h.capacity 1

def clientCount (h : Hub) : Nat := h.registered.length

def client? (id : Nat) (h : Hub) : Option Client := h.clients.find? fun c => c.id == id

def modify (id : Nat) (f : Client → Client) (h : Hub) : Hub :=
  { h with clients := h.clients.map fun c => if c.id == id then f c else c }

/-- Adds a client under a number. On a stopped hub it is closed from the start and does not count. -/
def enroll (id : Nat) (h : Hub) : Hub :=
  { h with
    registered := if h.stopped then h.registered else h.registered ++ [id]
    clients := h.clients ++ [{ id, done := h.stopped }] }

/-- Adds a client under a new number. -/
def register (h : Hub) : Nat × Hub :=
  let id := h.issued + 1
  (id, { h with issued := id }.enroll id)

/-- Removes a client and tells it so. Unknown numbers change nothing. -/
def unregister (id : Nat) (h : Hub) : Hub :=
  if h.registered.contains id then
    { h with registered := h.registered.filter (· != id) }.modify id fun c => { c with done := true }
  else h

/-- A client takes an event if somebody listens and there is room for it. -/
def Client.offer (limit : Nat) (e : Event) (c : Client) : Client :=
  if c.listening && c.queue.length < limit then { c with queue := c.queue ++ [e] } else c

/-- Hands an event to every registered client. A payload that cannot be written reaches nobody. -/
def broadcast (name : String) (data : Option Json) (h : Hub) : Hub :=
  match data with
  | none => h
  | some data =>
    { h with clients := h.clients.map fun c =>
        if h.registered.contains c.id then Client.offer h.limit ⟨name, data⟩ c else c }

/-- Publishes events in their order. -/
def publish (es : List Event) (h : Hub) : Hub := es.foldl (fun h e => h.broadcast e.name (some e.data)) h

/-- An event without a payload. -/
def notify (name : String) (h : Hub) : Hub := h.broadcast name (some .null)

/-- Takes the oldest queued event, also from a client that was closed. -/
def take (id : Nat) (h : Hub) : Option Event × Hub :=
  match h.client? id with
  | some { queue := e :: r, .. } => (some e, h.modify id fun c => { c with queue := r })
  | _ => (none, h)

/-- Takes everything that is queued. -/
def drain (id : Nat) (h : Hub) : List Event × Hub :=
  match h.client? id with
  | some c => (c.queue, h.modify id fun c => { c with queue := [] })
  | none => ([], h)

/-- Takes the oldest queued event unless the client was closed. -/
def receive (id : Nat) (h : Hub) : Reception × Hub :=
  match h.client? id with
  | none => (.closed, h)
  | some c =>
    if c.done then (.closed, h)
    else
      match h.take id with
      | (some e, h) => (.event e, h)
      | (none, h) => (.pending, h)

def isClosed (id : Nat) (h : Hub) : Bool := (h.client? id).all Client.done

/-- Nobody listens to the client any more. It stays registered. -/
def abandon (id : Nat) (h : Hub) : Hub := h.modify id fun c => { c with listening := false, queue := [] }

/-- Closes every registered client, for good. -/
def stop (h : Hub) : Hub :=
  { h with
    stopped := true
    registered := []
    clients := h.clients.map fun c => if h.registered.contains c.id then { c with done := true } else c }

end Hub

end StackDeck
