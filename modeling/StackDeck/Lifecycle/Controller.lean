import StackDeck.Backend.Error
import StackDeck.Hub.Basic
import StackDeck.Lifecycle.View

/-!
The state of a stack between its operations. Every transition raises the epoch, and only the task that
holds the current epoch may report steps or bring the stack to rest.
-/

namespace StackDeck.Lifecycle

/-- Why a call was refused, or how the backend failed at it. -/
inductive Fault where
  | starting
  | stopping
  | alreadyRunning (count : Nat)
  | notStarting
  | unknownAction (name : String)
  | backend (e : BackendError)
  deriving DecidableEq, Repr

namespace Fault

def message : Fault → String
  | .starting => "stack is starting"
  | .stopping => "stack is stopping"
  | .alreadyRunning count => s!"stack is already running ({count} services up)"
  | .notStarting => "stack is not starting"
  | .unknownAction name => "unknown service action: " ++ name
  | .backend e => e.message

/-- The call does not fit what the stack is doing. -/
def isConflict : Fault → Bool
  | .unknownAction _ => false
  | .backend _ => false
  | _ => true

end Fault

def actionOfName (name : String) : Except Fault ServiceAction :=
  match ServiceAction.ofName? name with
  | some a => .ok a
  | none => .error (.unknownAction name)

/-- What a stack tells its clients. -/
inductive Notice where
  | starting
  | stopping
  | started
  | stopped
  | failed (error : String)
  | progress (p : Progress)
  | service (name : String) (action : ServiceAction) (error : Option String)
  deriving DecidableEq, Repr

def Notice.event : Notice → Event
  | .starting => ⟨"stack_starting", .null⟩
  | .stopping => ⟨"stack_stopping", .null⟩
  | .started => ⟨"stack_started", .null⟩
  | .stopped => ⟨"stack_stopped", .null⟩
  | .failed error => ⟨"stack_error", .object [("error", .str error)]⟩
  | .progress p => ⟨"stack_progress", p.toJson⟩
  | .service name action error =>
    ⟨"service_action", .object [("service", .str name), ("action", .str action.name),
      ("error", Json.ofOption .str error)]⟩

/-- A cancel token is named by the epoch for which it was made, a task by its number. -/
structure Controller where
  phase : Phase := .idle
  lastError : Option String := none
  progress : List Progress := []
  cancel : Option Nat := none
  bootTask : Option Nat := none
  epoch : Nat := 0
  deriving DecidableEq, Repr

namespace Controller

def ensureIdle (c : Controller) : Except Fault Unit :=
  match c.phase with
  | .idle => .ok ()
  | .starting => .error .starting
  | .stopping => .error .stopping

/-- Leaves rest for a new operation. -/
def start (phase : Phase) (c : Controller) : Controller :=
  { phase, epoch := c.epoch + 1 }

/-- Begins the boot that follows a restart's teardown. -/
def startBoot (c : Controller) : Controller :=
  { c with phase := .starting, epoch := c.epoch + 1, cancel := some (c.epoch + 1) }

/-- Gives up a boot. -/
def abandonBoot (c : Controller) : Controller :=
  { c with phase := .stopping, epoch := c.epoch + 1, cancel := none, bootTask := none }

/-- Comes to rest. An error stays until the next operation. -/
def rest (result : Except BackendError Unit) (c : Controller) : Controller :=
  { c with
    phase := .idle
    cancel := none
    bootTask := none
    lastError := match result with
      | .ok _ => c.lastError
      | .error e => some e.message }

/-- The stack as its clients see it, given its services. -/
def view (services : List Service) (c : Controller) : View :=
  let running := Service.countRunning services
  ⟨c.phase.standing running, running, services.length, c.lastError, c.progress⟩

end Controller

end StackDeck.Lifecycle
