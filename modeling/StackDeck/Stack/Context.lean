import StackDeck.Diagnosis.Clock
import StackDeck.Health.Monitor
import StackDeck.Lifecycle.Clock
import StackDeck.Lifecycle.Visit
import StackDeck.Log.Pipeline

/-!
Everything that is run for one stack: its controller, its diagnosis sessions, its log tails and its health
monitor, which tell what happens through one hub. A call takes effect at once; the work that it leaves waits
in `jobs`, oldest first.
-/

namespace StackDeck.Stack

/-- Work that waits. -/
inductive Job where
  /-- A boot or a teardown that can go on. -/
  | lifecycle
  /-- A turn of a diagnosis session that can go on. -/
  | turn
  | reconcile
  | probe
  deriving DecidableEq, Repr

structure Context (β : Type) where
  name : String
  machine : Lifecycle.Machine β
  manager : Diagnosis.Manager := {}
  hub : Hub := {}
  tails : Log.Pipeline := {}
  health : Health.Monitor := {}
  /-- The machine on which the log tails run, and the network of the probes. -/
  host : Shell.Host := {}
  network : Health.Network := .unreachable
  /-- The time of day at a moment. -/
  clock : Nat → Instant := fun ms => (⟨0, 0⟩ : Instant).addMillis ms
  reconcileInterval : Nat := 2000
  /-- When the next reconcile is due, while the background work runs. -/
  reconcileDue : Option Nat := none
  started : Bool := false
  stopped : Bool := false
  jobs : List Job := []

namespace Context

variable {α β : Type}

def now (c : Context β) : Nat := c.machine.now

def leave (js : List Job) (c : Context β) : Context β := { c with jobs := c.jobs ++ js }

/-- Does something to the controller and tells what came of it. -/
def onMachine (f : Lifecycle.Machine β → α × Lifecycle.Machine β) (c : Context β) : α × Context β :=
  let (a, m) := f c.machine
  let news := m.notices.drop c.machine.notices.length
  let left := if c.machine.tasks.length < m.tasks.length then [Job.lifecycle] else []
  (a, { c with machine := m, hub := c.hub.publish (news.map Lifecycle.Notice.event) }.leave left)

/-- Does something to the sessions and tells what came of it. Turns that were ready before are `known`. -/
def onManager (known : Nat) (f : Diagnosis.Manager → α × Diagnosis.Manager) (c : Context β) :
    α × Context β :=
  let (a, m) := f c.manager
  let news := m.notices.drop c.manager.notices.length
  (a, { c with manager := m, hub := c.hub.publish (news.map Diagnosis.Notice.event) }.leave
    (List.replicate (m.ready.length - known) Job.turn))

/-- A call about the sessions. -/
def callManager (f : Diagnosis.Manager → α × Diagnosis.Manager) (c : Context β) : α × Context β :=
  c.onManager c.manager.ready.length f

/-! ### The life of the stack -/

def up (c : Context β) : Except Lifecycle.Fault Unit × Context β := c.onMachine Lifecycle.Machine.up

def down (c : Context β) : Except Lifecycle.Fault Unit × Context β := c.onMachine Lifecycle.Machine.down

def restart (c : Context β) : Except Lifecycle.Fault Unit × Context β :=
  c.onMachine Lifecycle.Machine.restart

def cancel (c : Context β) : Except Lifecycle.Fault Unit × Context β :=
  c.onMachine Lifecycle.Machine.cancel

def serviceAction (service : String) (a : ServiceAction) (c : Context β) :
    Lifecycle.Attended β × Context β :=
  c.onMachine fun m => m.serviceAction service a

def services (c : Context β) : Except BackendError (List Service) :=
  c.machine.backend.services c.machine.world

def status (c : Context β) : Lifecycle.View := c.machine.status

/-! ### Logs and diagnosis -/

/-- The recent lines of one service, or of all without a name or with a blank one. -/
def logHistory (service : Option String) (limit : Option Nat) (c : Context β) : List Log.Line :=
  match service.filter fun s => !Text.isBlank s with
  | some service => c.manager.history.forService service limit
  | none => c.manager.history.snapshot limit

/-- The checks of a diagnosis: the service is named and, as far as can be told, one of the stack's. -/
def admitDiagnosis (service : String) (provider : Option String) (c : Context β) :
    Except Diagnosis.Fault Diagnosis.Startup :=
  if Text.isBlank service then .error .serviceRequired
  else
    match c.services with
    | .ok known =>
      if known.any fun s => s.name == service then c.manager.admitStart service provider
      else .error (.serviceNotFound service)
    | .error _ => c.manager.admitStart service provider

/-- Completes a diagnosis whose engine was waited for. -/
def completeDiagnosis (s : Diagnosis.Startup) (c : Context β) :
    Except Diagnosis.Fault Diagnosis.StartedTurn × Context β :=
  c.callManager fun m => m.completeStart s

def message (session prompt : String) (c : Context β) :
    Except Diagnosis.Fault Diagnosis.StartedTurn × Context β :=
  c.callManager fun m => m.message session prompt

def interrupt (session : String) (c : Context β) : Except Diagnosis.Fault Unit × Context β :=
  c.callManager fun m => m.interrupt session

def close (session : String) (c : Context β) : Except Diagnosis.Fault Unit × Context β :=
  c.callManager fun m => m.close session

def pushLog (l : Log.Line) (c : Context β) : Context β :=
  { c with manager := { c.manager with history := c.manager.history.push l } }

/-! ### Background work -/

/-- Aligns the log tails with the services and tells how they and the stack are. Without a list of
services nothing happens. -/
def reconcile (c : Context β) : Context β :=
  match c.services with
  | .error _ => c
  | .ok services =>
    let view := c.machine.controller.view services
    { c with
      tails := c.tails.reconcile (fun name => c.machine.backend.logSource name c.machine.world) services
      hub := c.hub.publish
        [⟨"services", .arr (services.map Service.toJson)⟩, ⟨"stack_status", view.toJson⟩] }

/-- Begins the background work, once. A stack that was shut down only watches its health. -/
def start (c : Context β) : Bool × Context β :=
  if c.started then (false, c)
  else
    let (_, health) := c.health.start c.now
    let c := { c with started := true, health }
    (true,
      if c.stopped then c.leave [.probe]
      else { c with reconcileDue := some c.now }.leave [.reconcile, .probe])

/-- Ends the background work, the sessions and the hub. -/
def shutdown (c : Context β) : Context β :=
  let (_, c) := { c with
    stopped := true
    reconcileDue := none
    tails := c.tails.stopAll
    health := c.health.stop }.callManager fun m => ((), m.closeAll)
  { c with hub := c.hub.stop }

end Context

end StackDeck.Stack
