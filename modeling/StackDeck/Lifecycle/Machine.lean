import StackDeck.Backend.Basic
import StackDeck.Lifecycle.Controller

/-!
A stack with its controller and the tasks that boot it and tear it down in the background. A call changes
the controller at once and leaves the work to a task; a poll lets one task go on until it has to wait.
-/

namespace StackDeck.Lifecycle

/-- What is left for a task to do. A deadline is fixed when the wait for it begins. -/
inductive Place (β : Type) where
  | boot (token : Nat) (op : Operation β)
  | teardown (deadline : Option Nat) (op : Operation β) (thenBoot : Bool)
  /-- Waits for another task before it tears the stack down. -/
  | await (task : Nat) (deadline : Option Nat)
  | over

/-- What a backend may be asked to do with a whole stack. -/
inductive Duty where
  | boot
  | teardown
  deriving DecidableEq, Repr

structure Task (β : Type) where
  id : Nat
  epoch : Nat
  place : Place β

structure Machine (β : Type) where
  backend : Backend β
  world : β
  teardownTimeout : Nat := 120000
  controller : Controller := {}
  tasks : List (Task β) := []
  /-- The cancel tokens that were used. -/
  cancelled : List Nat := []
  /-- What the backend was asked to do and by which task, oldest first. -/
  asked : List (Nat × Duty) := []
  /-- Everything that was published, oldest first. -/
  notices : List Notice := []
  now : Nat := 0

/-- How long a cancelled boot may take to wind down, in milliseconds. -/
def cancelGrace : Nat := 10000

def Task.isOver {β : Type} (t : Task β) : Bool :=
  match t.place with
  | .over => true
  | _ => false

namespace Machine

variable {β : Type}

def publish (n : Notice) (m : Machine β) : Machine β := { m with notices := m.notices ++ [n] }

def place (id epoch : Nat) (p : Place β) (m : Machine β) : Machine β :=
  { m with tasks := m.tasks.map fun t => if t.id == id then { t with epoch, place := p } else t }

def task? (id : Nat) (m : Machine β) : Option (Task β) := m.tasks.find? fun t => t.id == id

/-- A task that is not known has nothing left to do. -/
def isOver (id : Nat) (m : Machine β) : Bool := (m.task? id).all Task.isOver

def nextTask (m : Machine β) : Nat := m.tasks.length

/-- Leaves work to a new task. -/
def spawn (epoch : Nat) (p : Place β) (m : Machine β) : Machine β :=
  { m with tasks := m.tasks ++ [⟨m.nextTask, epoch, p⟩] }

/-! ### Calls -/

/-- The number of services that run, as far as the backend can tell. -/
def runningCount (m : Machine β) : Nat :=
  match m.backend.services m.world with
  | .ok services => Service.countRunning services
  | .error _ => 0

/-- The second half of a call to boot the stack, after its services were counted. -/
def beginBoot (running : Nat) (m : Machine β) : Except Fault Unit × Machine β :=
  match m.controller.ensureIdle with
  | .error e => (.error e, m)
  | .ok _ =>
    if 0 < running then (.error (.alreadyRunning running), m)
    else
      let c := m.controller.start .starting
      let m := m.publish .starting
      (.ok (), { m with controller := { c with cancel := some c.epoch, bootTask := some m.nextTask } }.spawn
        c.epoch (.boot c.epoch (.fresh m.backend.boot)))

/-- Boots the stack in the background unless a service already runs. -/
def up (m : Machine β) : Except Fault Unit × Machine β :=
  match m.controller.ensureIdle with
  | .error e => (.error e, m)
  | .ok _ => m.beginBoot m.runningCount

/-- Tears the stack down in the background. -/
def down (m : Machine β) : Except Fault Unit × Machine β :=
  match m.controller.ensureIdle with
  | .error e => (.error e, m)
  | .ok _ =>
    let c := m.controller.start .stopping
    let m := m.publish .stopping
    (.ok (), { m with controller := c }.spawn c.epoch (.teardown none (.fresh m.backend.teardown) false))

/-- Tears the stack down and boots it again in one task. -/
def restart (m : Machine β) : Except Fault Unit × Machine β :=
  match m.controller.ensureIdle with
  | .error e => (.error e, m)
  | .ok _ =>
    let c := m.controller.start .stopping
    let m := m.publish .stopping
    (.ok (), { m with controller := { c with bootTask := some m.nextTask } }.spawn
      c.epoch (.teardown none (.fresh m.backend.teardown) true))

/-- Cancels a boot and tears down what it has started. -/
def cancel (m : Machine β) : Except Fault Unit × Machine β :=
  match m.controller.phase with
  | .starting =>
    let c := m.controller.abandonBoot
    let place := match m.controller.bootTask with
      | some id => Place.await id none
      | none => Place.teardown none (.fresh m.backend.teardown) false
    let m := m.publish .stopping
    (.ok (), { m with
      controller := c
      cancelled := m.controller.cancel.toList ++ m.cancelled }.spawn c.epoch place)
  | _ => (.error .notStarting, m)

/-- Tells how an action on a service ended. -/
def noteAction (name : String) (a : ServiceAction) (result : Except BackendError Unit) (m : Machine β) :
    Machine β :=
  m.publish (.service name a (match result with
    | .ok _ => none
    | .error e => some e.message))

/-! ### Steps of a task -/

/-- A step that the backend reports counts only for the current operation. -/
def reportProgress (epoch : Nat) (p : Progress) (m : Machine β) : Machine β :=
  if m.controller.epoch = epoch then
    { m with controller := { m.controller with progress := m.controller.progress ++ [p] } }.publish (.progress p)
  else m

/-- Notes that a task begins an operation. -/
def ask (id : Nat) (d : Duty) (op : Operation β) (m : Machine β) : Machine β :=
  match op with
  | .fresh _ => { m with asked := m.asked ++ [(id, d)] }
  | _ => m

/-- Lets an operation go on and passes on what it reports. -/
def drive (epoch : Nat) (cancelled : Bool) (op : Operation β) (m : Machine β) : Operation β × Machine β :=
  let (steps, world, op) := op.poll m.now cancelled m.world
  (op, steps.foldl (fun m p => m.reportProgress epoch p) { m with world })

/-- Brings the stack to rest and tells how, unless the operation was superseded. -/
def finish (epoch : Nat) (result : Except BackendError Unit) (success : Notice) (m : Machine β) :
    Machine β :=
  if m.controller.epoch = epoch then
    { m with controller := m.controller.rest result }.publish (match result with
      | .ok _ => success
      | .error e => .failed e.message)
  else m

def pollBoot (id epoch token : Nat) (op : Operation β) (m : Machine β) : Machine β :=
  match (m.ask id .boot op).drive epoch (m.cancelled.contains token) op with
  | (.ended result, m) => (m.finish epoch result .started).place id epoch .over
  | (op, m) => m.place id epoch (.boot token op)

/-- What follows a teardown: the end of the operation, or a restart's boot if nothing has come between. -/
def afterTeardown (id epoch : Nat) (result : Except BackendError Unit) (thenBoot : Bool)
    (m : Machine β) : Machine β :=
  if thenBoot && result.isOk then
    if m.controller.epoch = epoch then
      let c := m.controller.startBoot
      ({ m with controller := c }.publish .starting).pollBoot id c.epoch c.epoch (.fresh m.backend.boot)
    else m.place id epoch .over
  else (m.finish epoch result .stopped).place id epoch .over

/-- A teardown that takes too long is dropped. -/
def pollTeardown (id epoch : Nat) (deadline : Option Nat) (op : Operation β) (thenBoot : Bool)
    (m : Machine β) : Machine β :=
  let deadline := deadline.getD (m.now + m.teardownTimeout)
  match (m.ask id .teardown op).drive epoch false op with
  | (.ended result, m) => m.afterTeardown id epoch result thenBoot
  | (op, m) =>
    if deadline ≤ m.now then
      m.afterTeardown id epoch (.error (.timeout (m.teardownTimeout / 1000))) thenBoot
    else m.place id epoch (.teardown (some deadline) op thenBoot)

/-- Drops a task, which takes no further step. -/
def abort (id : Nat) (m : Machine β) : Machine β :=
  { m with tasks := m.tasks.map fun t => if t.id == id then { t with place := .over } else t }

/-- Waits for a cancelled boot. When the grace is over the boot is dropped. -/
def pollAwait (id epoch target : Nat) (deadline : Option Nat) (m : Machine β) : Machine β :=
  let deadline := deadline.getD (m.now + cancelGrace)
  if m.isOver target then m.pollTeardown id epoch none (.fresh m.backend.teardown) false
  else if deadline ≤ m.now then
    (m.abort target).pollTeardown id epoch none (.fresh m.backend.teardown) false
  else m.place id epoch (.await target (some deadline))

/-- Lets one task go on. -/
def poll (id : Nat) (m : Machine β) : Machine β :=
  match m.task? id with
  | none => m
  | some t =>
    match t.place with
    | .boot token op => m.pollBoot id t.epoch token op
    | .teardown deadline op thenBoot => m.pollTeardown id t.epoch deadline op thenBoot
    | .await target deadline => m.pollAwait id t.epoch target deadline
    | .over => m

/-- The stack as its clients see it. Services that cannot be listed are none. -/
def status (m : Machine β) : View :=
  m.controller.view (match m.backend.services m.world with
    | .ok services => services
    | .error _ => [])

end Machine

end StackDeck.Lifecycle
