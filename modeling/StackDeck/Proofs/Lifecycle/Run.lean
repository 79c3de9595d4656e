import StackDeck.Lifecycle.Visit

/-!
Runs of a stack. A run is a list of moves in any order: calls that arrive, wait and go on, steps of the
background tasks, the passing of time, and changes of the world that the stack has no part in. A scene keeps,
beside the machine, the calls in flight and a chronicle of what was accepted and told.
-/

namespace StackDeck.Lifecycle

/-- The calls that change what a stack does. -/
inductive Call where
  | up
  | down
  | restart
  | cancel
  deriving DecidableEq, Repr

/-- The notices that tell of a transition or of an outcome. -/
inductive Signal where
  | starting
  | stopping
  | started
  | stopped
  | failed
  deriving DecidableEq, Repr

def Notice.signal? : Notice → Option Signal
  | .starting => some .starting
  | .stopping => some .stopping
  | .started => some .started
  | .stopped => some .stopped
  | .failed _ => some .failed
  | .progress _ => none
  | .service .. => none

def signals (ns : List Notice) : List Signal := ns.filterMap Notice.signal?

inductive Entry where
  | call (c : Call)
  | told (s : Signal)
  deriving DecidableEq, Repr

/-- The entry of a call, if it was accepted. -/
def accepted (c : Call) : Except Fault Unit → List Entry
  | .ok _ => [.call c]
  | .error _ => []

def Visit.accepted {β : Type} (v : Visit β) (r : Except Fault Unit) : List Entry :=
  match v with
  | .counted _ => Lifecycle.accepted .up r
  | _ => []

structure Scene (β : Type) where
  machine : Machine β
  /-- The calls that wait for the backend. -/
  visits : List (Visit β) := []
  /-- The accepted calls and the signals, oldest first. -/
  chronicle : List Entry := []

inductive Move (β : Type) where
  /-- A call that has to wait for the backend arrives, goes on, or is given up by its caller. -/
  | arrive (r : Request)
  | attend (k : Nat)
  | leave (k : Nat)
  | down
  | restart
  | cancel
  | poll (task : Nat)
  | pass (ms : Nat)
  /-- The world changes by itself. -/
  | touch (f : β → β)

namespace Scene

variable {β : Type}

def start (backend : Backend β) (world : β) (teardownTimeout : Nat) : Scene β :=
  { machine := { backend, world, teardownTimeout } }

/-- Goes on with a later machine and writes down which calls were accepted and what was told. -/
def become (calls : List Entry) (m : Machine β) (s : Scene β) : Scene β :=
  { s with
    machine := m
    chronicle := s.chronicle ++ (calls ++ (signals (m.notices.drop s.machine.notices.length)).map .told) }

def attend (k : Nat) (s : Scene β) : Scene β :=
  match s.visits[k]? with
  | none => s
  | some v =>
    match s.machine.attend v with
    | (.waiting v, m) => { s with visits := s.visits.set k v }.become [] m
    | (.answered r, m) => { s with visits := s.visits.eraseIdx k }.become (v.accepted r) m

def move (s : Scene β) : Move β → Scene β
  | .arrive r =>
    match s.machine.arrive r with
    | .ok v => { s with visits := s.visits ++ [v] }
    | .error _ => s
  | .attend k => s.attend k
  | .leave k => { s with visits := s.visits.eraseIdx k }
  | .down => s.become (accepted .down s.machine.down.1) s.machine.down.2
  | .restart => s.become (accepted .restart s.machine.restart.1) s.machine.restart.2
  | .cancel => s.become (accepted .cancel s.machine.cancel.1) s.machine.cancel.2
  | .poll id => s.become [] (s.machine.poll id)
  | .pass ms => { s with machine := { s.machine with now := s.machine.now + ms } }
  | .touch f => { s with machine := { s.machine with world := f s.machine.world } }

def run (moves : List (Move β)) (s : Scene β) : Scene β := moves.foldl move s

theorem run_append (ms ns : List (Move β)) (s : Scene β) : s.run (ms ++ ns) = (s.run ms).run ns :=
  List.foldl_append

/-- What every move keeps holds in every run. -/
theorem run_keeps {P : Scene β → Prop} (step : ∀ s mv, P s → P (s.move mv)) {s : Scene β} (h : P s)
    (moves : List (Move β)) : P (s.run moves) := by
  induction moves generalizing s with
  | nil => exact h
  | cons mv r ih => exact ih (step s mv h)

end Scene

end StackDeck.Lifecycle
