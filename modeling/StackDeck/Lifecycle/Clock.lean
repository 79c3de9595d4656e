import StackDeck.Lifecycle.Visit

/-!
The passing of time. Tasks go on in the order in which they were left to run, and time moves from one due
moment to the next.
-/

namespace StackDeck.Lifecycle

/-- The next moment at which a task has a reason to go on by itself. -/
def Task.due? {β : Type} (t : Task β) : Option Nat :=
  match t.place with
  | .boot _ op => op.due?
  | .teardown deadline op _ => earlier deadline op.due?
  | .await _ deadline => deadline
  | .over => none
where
  earlier : Option Nat → Option Nat → Option Nat
  | some a, some b => some (min a b)
  | some a, none => some a
  | none, b => b

namespace Machine

variable {β : Type}

/-- Lets every task go on until it has to wait. -/
def settle (m : Machine β) : Machine β := (m.tasks.map Task.id).foldl (fun m id => m.poll id) m

/-- The first due moment after now and not after a target. -/
def nextDue? (target : Nat) (m : Machine β) : Option Nat :=
  ((m.tasks.filterMap Task.due?).filter fun d => m.now < d && d ≤ target).min?

/-- Moves the time on and lets every task go on that is due. -/
def tick (now : Nat) (m : Machine β) : Machine β := settle { m with now }

/-- Moves the time to a target, from one due moment to the next. The fuel is the number of moments. -/
def tickTo (target : Nat) : Nat → Machine β → Machine β
  | 0, m => m.tick target
  | fuel + 1, m =>
    match m.nextDue? target with
    | some due => tickTo target fuel (m.tick due)
    | none => m.tick target

/-- Lets some time pass. -/
def advance (ms : Nat) (m : Machine β) : Machine β := tickTo (m.now + ms) ms m.settle

end Machine

end StackDeck.Lifecycle
