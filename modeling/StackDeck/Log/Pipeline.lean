import StackDeck.Backend.Basic
import StackDeck.Log.Tail
import StackDeck.Registry

/-!
The log tails of one stack and the queue in which their lines arrive. The registry holds at most one tail
for a service; a tail that ends by itself leaves the registry only if it is still the one registered.
-/

namespace StackDeck.Log

structure Pipeline where
  runtime : String := "docker"
  /-- The number of lines that a tail shows of the past. -/
  backlog : Nat := 100
  /-- The number of lines that may wait for their reader. -/
  capacity : Nat := 1024
  /-- The time given to lines that tell none. -/
  now : Instant := ⟨0, 0⟩
  issued : Nat := 0
  registry : Registry Nat := {}
  /-- Every tail that was ever started, oldest first. -/
  tails : List Tail := []
  queue : List Line := []
  /-- Somebody reads the queue. -/
  listening : Bool := true

namespace Pipeline

def isTailing (service : String) (p : Pipeline) : Bool := p.registry.contains service

/-- The number of the tail of a service. -/
def tailId? (service : String) (p : Pipeline) : Option Nat := p.registry.get? service

/-- The services that are tailed, in the order of their names. -/
def active (p : Pipeline) : List String := p.registry.names

def tail? (id : Nat) (p : Pipeline) : Option Tail := p.tails.find? fun t => t.id == id

def modify (id : Nat) (f : Tail → Tail) (p : Pipeline) : Pipeline :=
  { p with tails := p.tails.map fun t => if t.id == id then f t else t }

def place (id : Nat) (q : TailPlace) (p : Pipeline) : Pipeline := p.modify id fun t => { t with place := q }

/-! ### Calls -/

/-- Starts a tail for a service that has none. A call uses up a number either way. -/
def start (service : String) (source : Source) (p : Pipeline) : Bool × Pipeline :=
  let id := p.issued + 1
  let p := { p with issued := id }
  if p.isTailing service then (false, p)
  else
    (true, { p with
      registry := p.registry.insert service id
      tails := p.tails ++ [{ id := id, service := service, source := source }] })

def cancel (id : Nat) (p : Pipeline) : Pipeline := p.modify id fun t => { t with cancelled := true }

/-- Stops the tail of a service. -/
def stop (service : String) (p : Pipeline) : Bool × Pipeline :=
  match p.tailId? service with
  | none => (false, p)
  | some id => (true, { p with registry := p.registry.erase service }.cancel id)

def stopAll (p : Pipeline) : Pipeline :=
  (p.registry.entries.map Prod.snd).foldl (fun p id => p.cancel id) { p with registry := {} }

/-- The names under which something runs. -/
def runningNames (services : List Service) : List String :=
  ((services.filter Service.running).map Service.name).eraseDups

/-- Stops the tails of services that do not run. -/
def dropStopped (running : List String) (p : Pipeline) : Pipeline :=
  (p.active.filter fun name => !running.contains name).foldl (fun p name => (p.stop name).2) p

/-- Starts a tail for a service that has none if its output can be found. -/
def adopt (sourceOf : String → Except BackendError Source) (service : String) (p : Pipeline) : Pipeline :=
  if p.isTailing service then p
  else
    match sourceOf service with
    | .ok source => (p.start service source).2
    | .error _ => p

/-- Makes the tailed services those that run. -/
def reconcile (sourceOf : String → Except BackendError Source) (services : List Service)
    (p : Pipeline) : Pipeline :=
  let running := runningNames services
  running.foldl (fun p name => p.adopt sourceOf name) (p.dropStopped running)

/-- Nobody reads the queue any more. -/
def abandon (p : Pipeline) : Pipeline := { p with listening := false, queue := [] }

/-- Takes the line that has waited longest. -/
def receive (p : Pipeline) : Option Line × Pipeline :=
  match p.queue with
  | [] => (none, p)
  | l :: r => (some l, { p with queue := r })

/-- Takes every line that waits. -/
def drain (p : Pipeline) : List Line × Pipeline := (p.queue, { p with queue := [] })

/-! ### Steps of a tail -/

/-- Forgets the tail of a service if it is this one. -/
def removeIfCurrent (service : String) (id : Nat) (p : Pipeline) : Pipeline :=
  if p.tailId? service = some id then { p with registry := p.registry.erase service } else p

/-- Ends a tail. -/
def exit (t : Tail) (p : Pipeline) : Pipeline := (p.place t.id .over).removeIfCurrent t.service t.id

def hasRoom (p : Pipeline) : Bool := p.queue.length < p.capacity

/-- Lets a tail forward what it sees until it has to wait or ends. A tail that nobody hears ends at its
first line. -/
def relay (t : Tail) (s : Streams) (p : Pipeline) : List Shell.Observation → Pipeline
  | [] => if s.isOpen then p.place t.id (.following s []) else p.exit t
  | o :: r =>
    if t.cancelled || !s.isOpen then p.exit t
    else
      match t.source.forwarded? o with
      | none => relay t (s.after o) p r
      | some raw =>
        let l := parseLine p.now t.service raw
        if !p.listening then p.exit t
        else if p.hasRoom then relay t (s.after o) { p with queue := p.queue ++ [l] } r
        else p.place t.id (.sending l (s.after o) r)

/-- Lets a tail go on that has begun. -/
def resume (t : Tail) (p : Pipeline) : Pipeline :=
  match t.place with
  | .following s unread => if t.cancelled then p.exit t else p.relay t s unread
  | .sending l s unread =>
    if !p.listening then p.exit t
    else if p.hasRoom then { p with queue := p.queue ++ [l] }.relay t s unread
    else p
  | .waiting => p
  | .over => p

/-- Lets one tail go on. At its first step it starts its command. -/
def poll (id : Nat) (h : Shell.Host) (p : Pipeline) : Shell.Host × Pipeline :=
  match p.tail? id with
  | none => (h, p)
  | some t =>
    match t.place with
    | .waiting =>
      match h.follow (t.source.command p.runtime p.backlog) with
      | (.error _, h) => (h, p.exit t)
      | (.ok output, h) => (h, p.resume { t with place := .following {} output.observations })
    | _ => (h, p.resume t)

/-- Lets every tail go on until it has to wait. -/
def settle (h : Shell.Host) (p : Pipeline) : Shell.Host × Pipeline :=
  (p.tails.map Tail.id).foldl (fun (h, p) id => p.poll id h) (h, p)

/-- Waits for some lines. -/
def await : Nat → Shell.Host → Pipeline → List Line × Shell.Host × Pipeline
  | 0, h, p => ([], h, p)
  | n + 1, h, p =>
    let (h, p) := p.settle h
    let (l, p) := p.receive
    let (ls, h, p) := await n h p
    (l.toList ++ ls, h, p)

end Pipeline

end StackDeck.Log
