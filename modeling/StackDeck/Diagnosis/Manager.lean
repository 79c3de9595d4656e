import StackDeck.Diagnosis.Prompt
import StackDeck.Diagnosis.Session
import StackDeck.Log.History

/-!
The diagnosis sessions of one stack. Calls take effect at once and leave each turn to a task of its own;
`poll` lets the task that has waited longest go on until it has to wait again.
-/

namespace StackDeck.Diagnosis

/-- How many sessions and requests were named. -/
structure Naming where
  sessions : Nat := 0
  requests : Nat := 0
  deriving DecidableEq, Repr

/-- A start of a session that waits for its engine, which takes `delay` milliseconds to come up. -/
structure Startup where
  service : String
  engine : Nat
  delay : Nat
  deriving DecidableEq, Repr

structure Manager where
  engines : List Engine := []
  history : Log.History := .empty Log.History.defaultCapacity
  startupTimeout : Nat := 30000
  promptLines : Nat := 50
  /-- Every session that was ever opened, oldest first. -/
  sessions : List Session := []
  /-- The sessions that can be reached. -/
  registry : List String := []
  turns : List Turn := []
  /-- The turns that have a reason to go on, in the order in which they got it. -/
  ready : List Nat := []
  /-- The turns that sleep, in the order in which they fell asleep. -/
  sleepers : List Nat := []
  /-- The turns whose prompts an engine was sent, in that order. -/
  asked : List Nat := []
  /-- The sessions that an engine was told to close, in that order. -/
  closings : List String := []
  /-- Everything that was published, oldest first. -/
  notices : List Notice := []
  naming : Naming := {}
  now : Nat := 0

namespace Manager

def publish (n : Notice) (m : Manager) : Manager := { m with notices := m.notices ++ [n] }

def session? (id : String) (m : Manager) : Option Session := m.sessions.find? fun s => s.id == id

def turn? (id : Nat) (m : Manager) : Option Turn := m.turns.find? fun t => t.id == id

def modifySession (id : String) (f : Session → Session) (m : Manager) : Manager :=
  { m with sessions := m.sessions.map fun s => if s.id == id then f s else s }

def modifyTurn (id : Nat) (f : Turn → Turn) (m : Manager) : Manager :=
  { m with turns := m.turns.map fun t => if t.id == id then f t else t }

def place (id : Nat) (p : TurnPlace) (m : Manager) : Manager := m.modifyTurn id fun t => { t with place := p }

/-- Puts a turn to sleep. -/
def sleep (id due : Nat) (n : Normalizer) (rest : TurnScript) (m : Manager) : Manager :=
  { m.place id (.sleeping due n rest) with sleepers := m.sleepers ++ [id] }

def wake (id : Nat) (m : Manager) : Manager := { m with ready := m.ready ++ [id] }

def sessionCount (m : Manager) : Nat := m.registry.length

def providers (m : Manager) : List String := m.engines.map Engine.id

/-- The reachable sessions, oldest first. -/
def list (m : Manager) : List SessionInfo :=
  (m.sessions.filter fun s => m.registry.contains s.id).map Session.info

/-! ### Calls -/

/-- The engine of a name; no name or a blank one means the first. -/
def engine? (provider : Option String) (m : Manager) : Except Fault (Nat × Engine) :=
  let named := provider.filter fun p => !Text.isBlank p
  let at? := match named with
    | some id => m.engines.findIdx? fun (e : Engine) => e.id == id
    | none => some 0
  match at?.bind fun k => m.engines[k]?.map fun e => (k, e) with
  | some found => .ok found
  | none => .error (.unknownProvider (provider.getD "default"))

def availableEngine? (provider : Option String) (m : Manager) : Except Fault (Nat × Engine) := do
  let (k, e) ← m.engine? provider
  if e.available then .ok (k, e) else .error (.unavailable e.id)

def setEngine (k : Nat) (e : Engine) (m : Manager) : Manager := { m with engines := m.engines.set k e }

/-- Launches a turn and gives its names before it has begun. -/
def launch (s : Session) (prompt : String) (m : Manager) : StartedTurn × Manager :=
  let id := m.turns.length
  let naming := { m.naming with requests := m.naming.requests + 1 }
  let requestId := s!"r{naming.requests}"
  let t : Turn := { id, session := s.id, requestId, prompt }
  let m := m.modifySession s.id fun s => { s with pending := s.pending + 1 }
  (⟨s.id, requestId, s.provider⟩, { m with turns := m.turns ++ [t], naming }.wake id)

/-- The checks of a new session: the service is named and the engine can be used. -/
def admitStart (service : String) (provider : Option String) (m : Manager) : Except Fault Startup :=
  if Text.isBlank service then .error .serviceRequired
  else
    match m.availableEngine? provider with
    | .error e => .error e
    | .ok (k, e) => .ok ⟨service, k, e.startDelay.getD 0⟩

/-- Registers a new session and launches its first turn, which asks about the recent log of the service. -/
def register (service : String) (k : Nat) (e : Engine) (m : Manager) : StartedTurn × Manager :=
  let createdAt := (⟨0, 0⟩ : Instant).addMillis m.now
  let naming := { m.naming with sessions := m.naming.sessions + 1 }
  let s : Session := { id := s!"s{naming.sessions}", service, provider := e.id, engine := k, createdAt }
  let m := { m with sessions := m.sessions ++ [s], registry := m.registry ++ [s.id], naming }
  m.launch s (initialPrompt service (m.history.forService service (some m.promptLines)))

/-- How long a start waits for its engine. -/
def startupWait (s : Startup) (m : Manager) : Nat := min s.delay m.startupTimeout

/-- Completes a start whose wait is over. An engine that needs longer has not come up in time. -/
def completeStart (s : Startup) (m : Manager) : Except Fault StartedTurn × Manager :=
  if m.startupTimeout < s.delay then (.error (.startTimeout (m.startupTimeout / 1000)), m)
  else
    match m.engines[s.engine]? with
    | none => (.error (.unknownProvider "default"), m)
    | some e =>
      match e.openSession with
      | (.error fault, e) => (.error (.provider fault), m.setEngine s.engine e)
      | (.ok _, e) =>
        let (started, m) := (m.setEngine s.engine e).register s.service s.engine e
        (.ok started, m)

/-- The session of a name, if it can be reached. -/
def reach (id : String) (m : Manager) : Except Fault Session :=
  if Text.isBlank id then .error .sessionRequired
  else
    match if m.registry.contains id then m.session? id else none with
    | some s => .ok s
    | none => .error (.sessionNotFound id)

/-- Sends a prompt, which queues behind the turns in flight. -/
def message (id prompt : String) (m : Manager) : Except Fault StartedTurn × Manager :=
  if Text.isBlank prompt then (.error .messageRequired, m)
  else
    match m.reach id with
    | .error e => (.error e, m)
    | .ok s =>
      let (started, m) := m.launch s prompt
      (.ok started, m)

/-- Uses the interrupt token of a turn. A turn that waits for it goes on. -/
def cut (id : Nat) (m : Manager) : Manager :=
  match m.turn? id with
  | none => m
  | some t =>
    let m := m.modifyTurn id fun t => { t with cut := true }
    match t.place, t.cut with
    | .listening .., false => m.wake id
    | _, _ => m

def cutCurrent (s : Session) (m : Manager) : Manager :=
  match s.current with
  | some id => m.cut id
  | none => m

/-- Interrupts the oldest turn that has not ended. Without one nothing happens. -/
def interrupt (id : String) (m : Manager) : Except Fault Unit × Manager :=
  match m.reach id with
  | .error e => (.error e, m)
  | .ok s =>
    if s.pending = 0 then (.ok (), m)
    else (.ok (), (m.modifySession id fun s => { s with interrupted := true }).cutCurrent s)

/-- Notes that an engine is told to close a session. -/
def noteClosing (id : String) (m : Manager) : Manager := { m with closings := m.closings ++ [id] }

/-- Releases a session that is no longer registered. -/
def release (s : Session) (m : Manager) : Except TurnError Unit × Manager :=
  let m := (m.modifySession s.id fun s => { s with closed := true }).cutCurrent s
  let (result, m) := match m.engines[s.engine]? with
    | some e =>
      let (result, e) := e.closeSession
      (result, (m.setEngine s.engine e).noteClosing s.id)
    | none => (.ok (), m)
  (result, m.publish (.closed s.id s.service s.provider))

/-- Closes a session. It is gone even if its engine fails at it. -/
def close (id : String) (m : Manager) : Except Fault Unit × Manager :=
  match m.reach id with
  | .error e => (.error e, m)
  | .ok s =>
    match { m with registry := m.registry.filter (· != id) }.release s with
    | (.ok _, m) => (.ok (), m)
    | (.error e, m) => (.error (.provider e), m)

/-- Closes every session. -/
def closeAll (m : Manager) : Manager :=
  (m.sessions.filter fun s => m.registry.contains s.id).foldl (fun m s => (m.release s).2)
    { m with registry := [] }

/-! ### Steps of a turn -/

def names (s : Session) (t : Turn) : TurnNames := ⟨s.id, t.requestId, s.service, s.provider⟩

/-- Gives the lock to the turn that has waited longest. -/
def unlock (s : Session) (m : Manager) : Manager :=
  match s.waiters with
  | [] => m.modifySession s.id fun s => { s with holder := none }
  | w :: r =>
    ((m.modifySession s.id fun s => { s with holder := some w, waiters := r }).place w .granted).wake w

/-- Ends a turn and tells its outcome. -/
def conclude (s : Session) (t : Turn) (result : Except TurnError String) (m : Manager) : Manager :=
  let interrupted := (m.session? s.id).any Session.interrupted
  let m := m.modifySession s.id Session.endTurn
  let m := m.publish (.turn (names s t) (Outcome.ofResult result interrupted).news)
  ((m.place t.id .over).unlock ((m.session? s.id).getD s))

/-- Plays a script until it has to wait. -/
def play (s : Session) (t : Turn) (ending : Except TurnError Unit) (n : Normalizer) (m : Manager) :
    List TurnStep → Manager
  | [] => m.conclude s t (n.finish ending)
  | .event e :: r =>
    let (n, chunks) := n.apply e
    play s t ending n (chunks.foldl (fun m c => m.publish (.turn (names s t) (.chunk c))) m) r
  | .pause ms :: r =>
    if ms = 0 then play s t ending n m r else m.sleep t.id (m.now + ms) n ⟨r, ending⟩
  | .untilInterrupted :: r =>
    if t.cut then play s t ending n m r else m.place t.id (.listening n ⟨r, ending⟩)

/-- Notes that an engine is sent the prompt of a turn. -/
def noteAsked (id : Nat) (m : Manager) : Manager := { m with asked := m.asked ++ [id] }

/-- Sends the prompt of a turn to the engine. From here on an interrupt reaches this turn. -/
def prompt (s : Session) (t : Turn) (m : Manager) : Manager :=
  let m := m.modifySession s.id fun s => { s with current := some t.id }
  match m.engines[s.engine]? with
  | none => m.conclude s t (.error .streamClosed)
  | some e =>
    let (script, e) := e.hear t.prompt
    ((m.setEngine s.engine e).noteAsked t.id).play s t script.ending (.start Engine.turnTimeoutSecs) script.steps

/-- What a turn does once it has the lock. A turn of a closed session ends silently, an interrupted one
without a word to the engine. -/
def begin (s : Session) (t : Turn) (m : Manager) : Manager :=
  if s.closed then
    let m := m.modifySession s.id Session.endTurn
    (m.place t.id .over).unlock s
  else
    let m := m.modifySession s.id fun s => { s with turns := s.turns + 1 }
    let m := m.publish (.turn (names s t) .started)
    if s.interrupted then m.conclude s t (.error .cancelled) else m.prompt s t

/-- Lets one turn go on. -/
def step (id : Nat) (m : Manager) : Manager :=
  match m.turn? id with
  | none => m
  | some t =>
    match m.session? t.session with
    | none => m
    | some s =>
      match t.place with
      | .launched =>
        if s.holder.isNone then
          (m.modifySession s.id fun s => { s with holder := some id }).begin s t
        else
          (m.modifySession s.id fun s => { s with waiters := s.waiters ++ [id] }).place id .waiting
      | .granted => m.begin s t
      | .sleeping due n rest => if due ≤ m.now then m.play s t rest.ending n rest.steps else m
      | .listening n rest => if t.cut then m.play s t rest.ending n rest.steps else m
      | .waiting => m
      | .over => m

/-- Lets the turn go on that has been ready for longest. -/
def poll (m : Manager) : Manager :=
  match m.ready with
  | [] => m
  | id :: r => { m with ready := r }.step id

end Manager

end StackDeck.Diagnosis
