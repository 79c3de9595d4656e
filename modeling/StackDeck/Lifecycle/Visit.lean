import StackDeck.Lifecycle.Machine

/-!
Calls that wait for the backend. Between the steps of such a call other calls and tasks may go on;
`Machine.up` and `Machine.serviceAction` are the calls whose steps follow one another at once.
-/

namespace StackDeck.Lifecycle

/-- A call that has found the stack at rest and waits for its backend. -/
inductive Visit (β : Type) where
  /-- A boot that has not asked for the services yet. -/
  | asking
  /-- A boot that was told how many services run. -/
  | counted (running : Nat)
  | acting (service : String) (action : ServiceAction) (op : Operation β)

inductive Request where
  | up
  | service (name : String) (action : ServiceAction)

/-- A call that waits on, or its result. -/
inductive Attended (β : Type) where
  | waiting (v : Visit β)
  | answered (result : Except Fault Unit)

namespace Machine

variable {β : Type}

/-- A call at its arrival is refused unless the stack is at rest. -/
def arrive (r : Request) (m : Machine β) : Except Fault (Visit β) :=
  match m.controller.ensureIdle with
  | .error e => .error e
  | .ok _ =>
    match r with
    | .up => .ok .asking
    | .service name a => .ok (.acting name a (.fresh (m.backend.act a name)))

/-- Lets a waiting call go on. -/
def attend (v : Visit β) (m : Machine β) : Attended β × Machine β :=
  match v with
  | .asking => (.waiting (.counted m.runningCount), m)
  | .counted running =>
    let (result, m) := m.beginBoot running
    (.answered result, m)
  | .acting name a op =>
    let (_, world, op) := op.poll m.now false m.world
    let m := { m with world }
    match op with
    | .ended result =>
      (.answered (match result with
        | .ok _ => .ok ()
        | .error e => .error (.backend e)), m.noteAction name a result)
    | op => (.waiting (.acting name a op), m)

/-- Acts on one service. An action that its backend does not end at once is left waiting. -/
def serviceAction (name : String) (a : ServiceAction) (m : Machine β) : Attended β × Machine β :=
  match m.arrive (.service name a) with
  | .error e => (.answered (.error e), m)
  | .ok v => m.attend v

end Machine

end StackDeck.Lifecycle
