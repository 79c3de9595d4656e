import StackDeck.Diagnosis.Manager

/-!
The passing of time for diagnosis sessions: turns that sleep, and engines that take time to come up.
-/

namespace StackDeck.Diagnosis.Manager

/-- Polls until nothing is ready. A turn that goes on hands the lock to one other at most, so that the
fuel is the number of turns that may still become ready. -/
def pollFor : Nat → Manager → Manager
  | 0, m => m
  | fuel + 1, m => if m.ready.isEmpty then m else pollFor fuel m.poll

def settle (m : Manager) : Manager := pollFor (m.ready.length + m.turns.length) m

/-- When a sleeping turn wakes. -/
def due? (id : Nat) (m : Manager) : Option Nat := do
  match (← m.turn? id).place with
  | .sleeping due _ _ => some due
  | _ => none

/-- The first moment after now and not after a target at which a turn wakes. -/
def nextDue? (target : Nat) (m : Manager) : Option Nat :=
  ((m.sleepers.filterMap fun id => m.due? id).filter fun d => m.now < d && d ≤ target).min?

/-- Moves the time on and wakes the turns that slept until then. -/
def wakeAt (now : Nat) (m : Manager) : Manager :=
  let (woken, asleep) := m.sleepers.partition fun id => (m.due? id).any (· ≤ now)
  { m with now, ready := m.ready ++ woken, sleepers := asleep }

def tick (now : Nat) (m : Manager) : Manager := (m.wakeAt now).settle

def tickTo (target : Nat) : Nat → Manager → Manager
  | 0, m => m.tick target
  | fuel + 1, m =>
    match m.nextDue? target with
    | some due => tickTo target fuel (m.tick due)
    | none => m.tick target

/-- Lets some time pass. -/
def advance (ms : Nat) (m : Manager) : Manager := tickTo (m.now + ms) ms m.settle

/-- Opens a session about a service, waiting for its engine as long as allowed. Whatever was ready before
goes on in the meantime, also while an engine comes up at once. -/
def start (service : String) (provider : Option String) (m : Manager) :
    Except Fault StartedTurn × Manager :=
  match m.admitStart service provider with
  | .error e => (.error e, m)
  | .ok s => (m.advance (m.startupWait s)).completeStart s

/-- Asks a question outside any session and waits for the answer. -/
def ask (provider : Option String) (prompt : String) (m : Manager) : Except Fault String × Manager :=
  if Text.isBlank prompt then (.error .promptRequired, m)
  else
    match m.availableEngine? provider with
    | .error e => (.error e, m)
    | .ok (k, e) =>
      let (script, e) := e.hear prompt
      let m := m.setEngine k e
      let m := if script.duration = 0 then m else m.advance script.duration
      (match Engine.reply script with
        | .ok text => .ok text
        | .error e => .error (.provider e), m)

end StackDeck.Diagnosis.Manager
