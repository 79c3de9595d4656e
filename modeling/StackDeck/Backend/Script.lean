import StackDeck.Backend.Error
import StackDeck.Service.Status

/-!
What a backend does when it is asked to boot or to tear down a stack, as a script over its world. A script
goes on by itself until it sleeps or waits to be cancelled; nothing else happens in between.
-/

namespace StackDeck

inductive Script (β : Type) where
  | done (result : Except BackendError Unit)
  | report (p : Progress) (next : Script β)
  /-- Sleeps. A sleep that heeds cancellation ends the script when it is cancelled. -/
  | pause (ms : Nat) (heeds : Bool) (next : Script β)
  /-- Waits until it is cancelled. -/
  | hold
  | look (f : β → Script β)
  | change (f : β → β) (next : Script β)

/-- A script that was begun or not. -/
inductive Operation (β : Type) where
  | fresh (s : Script β)
  | asleep (due : Nat) (heeds : Bool) (next : Script β)
  | held
  | ended (result : Except BackendError Unit)

namespace Script

variable {β : Type}

/-- A sleep that may be left out. -/
def pauseFor (ms : Option Nat) (heeds : Bool) (next : Script β) : Script β :=
  match ms with
  | some n => .pause n heeds next
  | none => next

def reports (ps : List Progress) (next : Script β) : Script β := ps.foldr .report next

/-- Goes on until the script sleeps, waits or ends. -/
def run (now : Nat) (cancelled : Bool) : Script β → β → List Progress × β × Operation β
  | .done r, w => ([], w, .ended r)
  | .report p next, w =>
    let (ps, w, op) := run now cancelled next w
    (p :: ps, w, op)
  | .pause ms heeds next, w =>
    if heeds && cancelled then ([], w, .ended (.error .cancelled))
    else if ms = 0 then run now cancelled next w
    else ([], w, .asleep (now + ms) heeds next)
  | .hold, w => ([], w, if cancelled then .ended (.error .cancelled) else .held)
  | .look f, w => run now cancelled (f w) w
  | .change f next, w => run now cancelled next (f w)

end Script

namespace Operation

variable {β : Type}

def isEnded : Operation β → Bool
  | .ended _ => true
  | _ => false

/-- When a sleep ends. -/
def due? : Operation β → Option Nat
  | .asleep due _ _ => some due
  | _ => none

/-- Goes on if there is a reason to: the steps reported, the world and the operation afterwards. -/
def poll (now : Nat) (cancelled : Bool) (op : Operation β) (w : β) : List Progress × β × Operation β :=
  match op with
  | .fresh s => s.run now cancelled w
  | .asleep due heeds next =>
    if heeds && cancelled then ([], w, .ended (.error .cancelled))
    else if due ≤ now then next.run now cancelled w
    else ([], w, op)
  | .held => ([], w, if cancelled then .ended (.error .cancelled) else .held)
  | .ended _ => ([], w, op)

end Operation

end StackDeck
