import StackDeck.Stack.Context

/-!
The passing of time for one stack. Jobs are done in the order in which they were left; then the time moves
to the next moment at which something is due.
-/

namespace StackDeck.Stack.Context

variable {β : Type}

def runReconcile (c : Context β) : Context β :=
  match c.reconcileDue with
  | none => c
  | some due =>
    if c.now < due then c else { c.reconcile with reconcileDue := some (c.now + c.reconcileInterval) }

def runProbe (c : Context β) : Context β :=
  match c.health.due with
  | none => c
  | some due =>
    if c.now < due then c
    else { c with health := c.health.cycle (c.clock c.now) c.network c.services }

def run (j : Job) (c : Context β) : Context β :=
  match j with
  | .lifecycle => (c.onMachine fun m => ((), m.settle)).2
  | .turn => (c.onManager (c.manager.ready.length - 1) fun m => ((), m.poll)).2
  | .reconcile => c.runReconcile
  | .probe => c.runProbe

/-- Does jobs until none is left. A turn that goes on leaves one other to do at most, so that the fuel is
the number of jobs and turns. -/
def runJobs : Nat → Context β → Context β
  | 0, c => c
  | fuel + 1, c =>
    match c.jobs with
    | [] => c
    | j :: r => runJobs fuel ({ c with jobs := r }.run j)

/-- Lets the log tails go on. -/
def runTails (c : Context β) : Context β :=
  let (host, tails) := { c.tails with now := c.clock c.now }.settle c.host
  { c with host, tails }

/-- Passes lines and snapshots on to the hub, while somebody does. -/
def forward (c : Context β) : Context β :=
  if !c.started || c.stopped then c
  else
    let (ls, tails) := c.tails.drain
    let lines := ls.map fun (l : Log.Line) => (⟨"log", l.toJson⟩ : Event)
    let c := ls.foldl (fun c l => c.pushLog l) { c with tails, hub := c.hub.publish lines }
    let (s, health) := c.health.receive
    let snapshots := s.toList.map fun (s : Health.Snapshot) =>
      (⟨"health", s.toJsonWith ServiceHealth.toJson⟩ : Event)
    { c with health, hub := c.hub.publish snapshots }

def settle (c : Context β) : Context β :=
  ((c.runJobs (c.jobs.length + c.manager.turns.length)).runTails).forward

/-- The first moment after now and not after a target at which something is due. -/
def nextDue? (target : Nat) (c : Context β) : Option Nat :=
  let loops := (c.reconcileDue.toList ++ c.health.due.toList).filter fun d => c.now < d && d ≤ target
  ((c.machine.nextDue? target).toList ++ (c.manager.nextDue? target).toList ++ loops).min?

/-- The jobs that are due when the time moves on to a moment. -/
def dueJobs (now : Nat) (c : Context β) : List Job :=
  (if (c.machine.nextDue? now).isSome then [Job.lifecycle] else []) ++
    (if c.reconcileDue.any (· ≤ now) then [.reconcile] else []) ++
    (if c.health.due.any (· ≤ now) then [.probe] else [])

/-- Moves the time on and does what is due. -/
def tick (now : Nat) (c : Context β) : Context β :=
  let c := { c with machine := { c.machine with now } }.leave (c.dueJobs now)
  (c.callManager fun m => ((), m.wakeAt now)).2.settle

/-- Moves the time to a target, from one due moment to the next. The fuel is the number of moments. -/
def tickTo (target : Nat) : Nat → Context β → Context β
  | 0, c => c.tick target
  | fuel + 1, c =>
    match c.nextDue? target with
    | some due => tickTo target fuel (c.tick due)
    | none => c.tick target

/-- Lets some time pass. -/
def advance (ms : Nat) (c : Context β) : Context β := tickTo (c.now + ms) ms c.settle

/-- Opens a diagnosis session, waiting for its engine as long as allowed. Work that was left before is done
in the meantime. -/
def startDiagnosis (service : String) (provider : Option String) (c : Context β) :
    Except Diagnosis.Fault Diagnosis.StartedTurn × Context β :=
  match c.admitDiagnosis service provider with
  | .error e => (.error e, c)
  | .ok s => (c.advance (c.manager.startupWait s)).completeDiagnosis s

end StackDeck.Stack.Context
