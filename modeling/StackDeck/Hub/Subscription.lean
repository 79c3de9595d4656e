import StackDeck.Hub.Basic

/-!
A subscription is a client read as a stream: a greeting, then its events in the order of their publication,
and a sign of life after every interval without one.
-/

namespace StackDeck

inductive Frame where
  | connected (clientId : Nat)
  | event (e : Event)
  | keepAlive

/-- What one look at a subscription gives. -/
inductive Polled where
  | frame (f : Frame)
  | pending
  | ended

structure Subscription where
  clientId : Nat
  greeted : Bool := false
  ended : Bool := false
  /-- When the next sign of life is due. -/
  due : Nat

namespace Subscription

/-- How late a sign of life may be before the next one is counted from it. -/
def tolerance : Nat := 5

/-- After a late sign of life the next one is due one interval from now. -/
def nextDue (interval now due : Nat) : Nat :=
  if due + tolerance < now then now + interval else due + interval

end Subscription

namespace Hub

/-- Opens a subscription at a time. -/
def serve (now : Nat) (h : Hub) : Subscription × Hub :=
  let (id, h) := h.register
  ({ clientId := id, due := now + h.keepalive }, h)

/-- Gives up a subscription. -/
def leave (s : Subscription) (h : Hub) : Hub := (h.unregister s.clientId).abandon s.clientId

/-- One look at a subscription: the greeting first, then the end if the client was closed, else the oldest
event, else a sign of life if one is due. -/
def next (now : Nat) (s : Subscription) (h : Hub) : Polled × Subscription × Hub :=
  if s.ended then (.ended, s, h)
  else if !s.greeted then (.frame (.connected s.clientId), { s with greeted := true }, h)
  else
    match h.receive s.clientId with
    | (.closed, h) => (.ended, { s with ended := true }, h.leave s)
    | (.event e, h) => (.frame (.event e), { s with due := now + h.keepalive }, h)
    | (.pending, h) =>
      if s.due ≤ now then (.frame .keepAlive, { s with due := Subscription.nextDue h.keepalive now s.due }, h)
      else (.pending, s, h)

end Hub

end StackDeck
