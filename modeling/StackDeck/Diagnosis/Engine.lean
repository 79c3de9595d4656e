import StackDeck.Diagnosis.Normalizer

/-!
Engines that hold diagnosis sessions. What an engine says in a turn follows a script, and one script
serves one prompt, whichever session it comes from.
-/

namespace StackDeck.Diagnosis

inductive TurnStep where
  | event (e : ProviderEvent)
  | pause (ms : Nat)
  /-- Says nothing more until the turn is interrupted. -/
  | untilInterrupted
  deriving DecidableEq, Repr

structure TurnScript where
  steps : List TurnStep := []
  ending : Except TurnError Unit := .ok ()

/-- A turn that streams a text and confirms it. -/
def TurnScript.answer (text : String) : TurnScript :=
  { steps := [.event (.answer text), .event (.result "success" text false none)] }

/-- How long a script takes that nobody interrupts. -/
def TurnScript.duration (s : TurnScript) : Nat :=
  (s.steps.map fun step => match step with
    | .pause ms => ms
    | _ => 0).foldr (· + ·) 0

structure Engine where
  id : String
  available : Bool := true
  startDelay : Option Nat := none
  startFault : Option TurnError := none
  closeFault : Option TurnError := none
  scripts : List TurnScript := []
  /-- The prompts received, oldest first. -/
  prompts : List String := []
  started : Nat := 0
  closed : Nat := 0

namespace Engine

/-- Seconds that an engine gives a turn. -/
def turnTimeoutSecs : Nat := 60

/-- Takes a prompt and the script that answers it. An engine without scripts says nothing. -/
def hear (prompt : String) (e : Engine) : TurnScript × Engine :=
  match e.scripts with
  | [] => ({}, { e with prompts := e.prompts ++ [prompt] })
  | s :: r => (s, { e with prompts := e.prompts ++ [prompt], scripts := r })

/-- Opens a session, which counts as opened even if it then fails. -/
def openSession (e : Engine) : Except TurnError Unit × Engine :=
  (match e.startFault with
    | some fault => .error fault
    | none => .ok (), { e with started := e.started + 1 })

def closeSession (e : Engine) : Except TurnError Unit × Engine :=
  (match e.closeFault with
    | some fault => .error fault
    | none => .ok (), { e with closed := e.closed + 1 })

/-- Answers a question outside any session: everything that the script says, put into one answer. -/
def reply (s : TurnScript) : Except TurnError String :=
  let events := s.steps.filterMap fun step => match step with
    | .event e => some e
    | _ => none
  ((Normalizer.start turnTimeoutSecs).applyAll events).1.finish s.ending

end Engine

end StackDeck.Diagnosis
