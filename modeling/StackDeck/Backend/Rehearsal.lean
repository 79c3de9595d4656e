import StackDeck.Backend.Basic

/-!
A stack that is only played. Booting makes all its services run and tearing down stops them, unless it was
told to do otherwise.
-/

namespace StackDeck

structure Rehearsal where
  roster : List Service
  steps : List Progress := []
  bootDelay : Option Nat := none
  /-- Booting starts the first service and then waits to be cancelled. -/
  blocksBoot : Bool := false
  bootFault : Option String := none
  teardownFault : Option String := none
  servicesFault : Option String := none
  sources : List (String × Log.Source) := []
  /-- The operations that were reached, oldest first. -/
  calls : List String := []
  /-- Times that pass before an operation is reached, which no cancellation shortens. -/
  bootLag : Option Nat := none
  teardownLag : Option Nat := none
  actionFault : Option String := none

namespace Rehearsal

def record (call : String) (w : Rehearsal) : Rehearsal := { w with calls := w.calls ++ [call] }

def mark (name : String) (running : Bool) : List Service → List Service
  | [] => []
  | s :: r => if s.name == name then s.withRunning running :: r else s :: mark name running r

/-- Starts or stops the first service of a name. -/
def setRunning (name : String) (running : Bool) (w : Rehearsal) : Rehearsal :=
  { w with roster := mark name running w.roster }

/-- Starts or stops every name on the roster. -/
def setAll (running : Bool) (w : Rehearsal) : Rehearsal :=
  (w.roster.map Service.name).foldl (fun w name => w.setRunning name running) w

def startFirst (w : Rehearsal) : Rehearsal :=
  { w with roster := match w.roster with
      | s :: r => s.withRunning true :: r
      | [] => [] }

def runningCount (w : Rehearsal) : Nat := Service.countRunning w.roster

def knows (name : String) (w : Rehearsal) : Bool := w.roster.any fun s => s.name == name

def conclude (command : String) (fault : Option String) (change : Rehearsal → Rehearsal) :
    Script Rehearsal :=
  match fault with
  | some detail => .done (.error (.command command detail))
  | none => .change change (.done (.ok ()))

/-- What is to be played is settled when the operation is reached. -/
def boot : Script Rehearsal :=
  .look fun w => .pauseFor w.bootLag false <| .change (record "up") <| .look fun w =>
    .reports w.steps <|
      if w.blocksBoot then .change startFirst .hold
      else .pauseFor w.bootDelay true (conclude "up" w.bootFault (setAll true))

def teardown : Script Rehearsal :=
  .look fun w => .pauseFor w.teardownLag false <| .change (record "down") <|
    .report ⟨"down", "stopping services"⟩ <| .look fun w =>
      conclude "down" w.teardownFault (setAll false)

def act (a : ServiceAction) (name : String) : Script Rehearsal :=
  .look fun w =>
    match w.actionFault with
    | some detail => .done (.error (.command a.name detail))
    | none =>
      .change (record (a.name ++ ":" ++ name)) <| .look fun w =>
        if w.knows name then .change (setRunning name (a != .stop)) (.done (.ok ()))
        else .done (.error (.serviceNotFound name))

def services (w : Rehearsal) : Except BackendError (List Service) :=
  match w.servicesFault with
  | some message => .error (.other message)
  | none => .ok w.roster

def logSource (name : String) (w : Rehearsal) : Except BackendError Log.Source :=
  if w.knows name then .ok ((w.sources.lookup name).getD (.file s!"/tmp/lab-mock/{name}.log"))
  else .error (.serviceNotFound name)

def backend : Backend Rehearsal where
  services := services
  boot := boot
  teardown := teardown
  act := act
  logSource := logSource

end Rehearsal

end StackDeck
