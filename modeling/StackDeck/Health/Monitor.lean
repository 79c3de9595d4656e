import StackDeck.Backend.Error
import StackDeck.Health.Probe
import StackDeck.Registry
import StackDeck.Service.Health

/-!
Keeps track of the health of a stack's services. Every cycle probes all services and replaces the snapshot;
what is published waits for its reader one snapshot at a time.
-/

namespace StackDeck.Health

/-- The health of every service, by name. -/
abbrev Snapshot := Registry ServiceHealth

def Snapshot.toJsonWith (item : ServiceHealth → Json) (s : Snapshot) : Json :=
  .object (s.entries.map fun e => (e.1, item e.2))

structure Monitor where
  /-- Milliseconds between two cycles. -/
  interval : Nat := 5000
  probeTimeout : Nat := 2000
  latest : Snapshot := {}
  /-- The snapshot that waits for its reader. -/
  published : Option Snapshot := none
  /-- When the next cycle is due, while the monitor runs. -/
  due : Option Nat := none

namespace Monitor

/-- Failures are counted up to the largest number of 32 bits. -/
def countFailure (n : UInt32) : UInt32 := if n.toNat + 1 < UInt32.size then n + 1 else n

/-- The health of a service after an outcome, given its failures so far. -/
def judge (now : Instant) (failures : UInt32) : Outcome → ServiceHealth
  | .healthy => ⟨.healthy, now, none, 0⟩
  | .unhealthy error => ⟨.unhealthy, now, some error, countFailure failures⟩
  | .unknown => ⟨.unknown, now, none, failures⟩

/-- How often in a row a service has failed. -/
def failures (name : String) (s : Snapshot) : UInt32 :=
  match s.get? name with
  | some h => h.consecutiveFailures
  | none => 0

/-- The snapshot of some services with the outcomes of their probes. -/
def nextSnapshot (now : Instant) (services : List Service) (outcomes : List Outcome) (previous : Snapshot) :
    Snapshot :=
  .ofList ((services.zip outcomes).map fun (s, o) => (s.name, judge now (failures s.name previous) o))

/-- A snapshot is published unless one still waits. -/
def publish (s : Snapshot) (m : Monitor) : Monitor :=
  { m with published := some (m.published.getD s) }

/-- The end of a cycle: its outcomes count from the snapshot of this moment. -/
def record (now : Instant) (services : List Service) (outcomes : List Outcome) (m : Monitor) :
    Snapshot × Monitor :=
  let s := nextSnapshot now services outcomes m.latest
  (s, { m with latest := s }.publish s)

/-- One cycle. Without a list of services nothing changes. -/
def check (now : Instant) (n : Network) (services : Except BackendError (List Service)) (m : Monitor) :
    Snapshot × Monitor :=
  match services with
  | .error _ => (m.latest, m)
  | .ok services => m.record now services (services.map (n.probe m.probeTimeout))

/-- Takes the published snapshot. -/
def receive (m : Monitor) : Option Snapshot × Monitor := (m.published, { m with published := none })

/-- Begins to run cycles, the first at once. -/
def start (now : Nat) (m : Monitor) : Bool × Monitor :=
  match m.due with
  | some _ => (false, m)
  | none => (true, { m with due := some now })

/-- Runs the cycle that is due next. -/
def cycle (now : Instant) (n : Network) (services : Except BackendError (List Service)) (m : Monitor) :
    Monitor :=
  match m.due with
  | none => m
  | some due => { (m.check now n services).2 with due := some (due + m.interval) }

def stop (m : Monitor) : Monitor := { m with due := none }

def isRunning (m : Monitor) : Bool := m.due.isSome

end Monitor

end StackDeck.Health
