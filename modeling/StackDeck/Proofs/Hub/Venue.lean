import StackDeck.Hub.Subscription
import StackDeck.Proofs.Hub.Delivery

/-!
A hub with its clock and its subscriptions. A subscription keeps the receiver of its client to itself.
-/

namespace StackDeck

/-- What is noted along a run, step by step. -/
def trace {σ α β : Type} (step : σ → α → σ) (note : σ → α → List β) (s : σ) : List α → List β
  | [] => []
  | a :: r => note s a ++ trace step note (step s a) r

namespace Hub

/-- The client whose receiver a move needs. -/
def Move.reader : Move → Option Nat
  | .take k | .receive k | .abandon k => some k
  | _ => none

variable {h : Hub} {s : Subscription} {id : Nat}

theorem keepalive_take (id : Nat) (h : Hub) : (h.take id).2.keepalive = h.keepalive := by
  rcases take_cases id h with ⟨-, ht⟩ | ⟨c, e, r, -, -, ht⟩
  · rw [ht]
  · rw [ht]
    rfl

theorem keepalive_receive (id : Nat) (h : Hub) : (h.receive id).2.keepalive = h.keepalive := by
  rcases receive_cases id h with ⟨hr, -⟩ | ⟨-, hr⟩
  · rw [hr]
  · rw [hr]
    exact keepalive_take id h

theorem keepalive_move (mv : Move) (h : Hub) : (h.move mv).keepalive = h.keepalive := by
  cases mv with
  | unregister k =>
    simp only [move, unregister]
    split <;> rfl
  | broadcast name data => cases data <;> rfl
  | take k => exact keepalive_take k h
  | receive k => exact keepalive_receive k h
  | _ => rfl

theorem keepalive_run (ms : List Move) (h : Hub) : (h.run ms).keepalive = h.keepalive := by
  induction ms generalizing h with
  | nil => rfl
  | cons mv r ih => exact (ih (h.move mv)).trans (keepalive_move mv h)

theorem receive_closed (hc : h.isClosed id = true) : h.receive id = (.closed, h) := by
  rcases receive_cases id h with ⟨hr, -⟩ | ⟨⟨c, hcl, hd⟩, -⟩
  · exact hr
  · rw [isClosed, hcl, Option.all_some, hd] at hc
    cases hc

/-! ### One look at a subscription -/

theorem next_ended (now : Nat) (he : s.ended = true) : h.next now s = (.ended, s, h) := by
  rw [next, if_pos he]

theorem next_first (now : Nat) (he : s.ended = false) (hg : s.greeted = false) :
    h.next now s = (.frame (.connected s.clientId), { s with greeted := true }, h) := by
  simp [next, he, hg]

section

variable (now : Nat) (he : s.ended = false) (hg : s.greeted = true)
include he hg

theorem next_closed (hc : h.isClosed s.clientId = true) :
    h.next now s = (.ended, { s with ended := true }, h.leave s) := by
  simp [next, he, hg, receive_closed hc]

theorem next_event {e : Event} (hc : h.isClosed s.clientId = false) (hq : (h.queued s.clientId).head? = some e) :
    h.next now s =
      (.frame (.event e), { s with due := now + h.keepalive }, (h.receive s.clientId).2) := by
  have hfst : (h.receive s.clientId).1 = .event e := by
    rw [receive_fst, hc, if_neg Bool.false_ne_true, hq]
    rfl
  have hkeep := keepalive_receive s.clientId h
  cases hr : h.receive s.clientId with
  | mk found h' =>
    rw [hr] at hfst hkeep
    have hfound : found = .event e := hfst
    have hkeep : h'.keepalive = h.keepalive := hkeep
    simp [next, he, hg, hr, hfound, hkeep]

theorem next_quiet (hc : h.isClosed s.clientId = false) (hq : (h.queued s.clientId).head? = none) :
    h.next now s =
      if s.due ≤ now then
        (.frame .keepAlive, { s with due := Subscription.nextDue h.keepalive now s.due }, (h.receive s.clientId).2)
      else (.pending, s, (h.receive s.clientId).2) := by
  have hfst : (h.receive s.clientId).1 = .pending := by
    rw [receive_fst, hc, if_neg Bool.false_ne_true, hq]
    rfl
  have hkeep := keepalive_receive s.clientId h
  cases hr : h.receive s.clientId with
  | mk found h' =>
    rw [hr] at hfst hkeep
    have hfound : found = .pending := hfst
    have hkeep : h'.keepalive = h.keepalive := hkeep
    simp [next, he, hg, hr, hfound, hkeep]

end

end Hub

structure Venue where
  hub : Hub
  now : Nat := 0
  /-- The subscriptions that were opened, and the clients of those that were dropped. -/
  streams : List Subscription := []
  dropped : List Nat := []

namespace Venue

inductive Act where
  /-- Somebody else moves. The receiver of a subscription is not theirs to use. -/
  | move (mv : Hub.Move)
  | serve
  | look (id : Nat)
  | drop (id : Nat)
  | pass (ms : Nat)

def start (capacity keepalive : Nat) : Venue := { hub := .start capacity keepalive }

/-- The subscription of a client, unless it was dropped. -/
def stream? (id : Nat) (v : Venue) : Option Subscription :=
  if id ∈ v.dropped then none else v.streams.find? fun s => s.clientId == id

def owns (v : Venue) (id : Nat) : Bool := v.streams.any fun s => s.clientId == id

def act (v : Venue) : Act → Venue
  | .move mv => if mv.reader.any v.owns then v else { v with hub := v.hub.move mv }
  | .serve =>
    let (s, hub) := v.hub.serve v.now
    { v with hub, streams := v.streams ++ [s] }
  | .look id =>
    match v.stream? id with
    | none => v
    | some s =>
      let (_, s', hub) := v.hub.next v.now s
      { v with hub, streams := v.streams.map fun t => if t.clientId == id then s' else t }
  | .drop id =>
    match v.stream? id with
    | none => v
    | some s => { v with hub := v.hub.leave s, dropped := id :: v.dropped }
  | .pass ms => { v with now := v.now + ms }

def run (acts : List Act) (v : Venue) : Venue := acts.foldl act v

/-- What an act is to the hub. -/
def moves (v : Venue) : Act → List Hub.Move
  | .move mv => if mv.reader.any v.owns then [] else [mv]
  | .serve => [.register]
  | .look id =>
    match v.stream? id with
    | none => []
    | some s =>
      if s.ended || !s.greeted then []
      else if v.hub.isClosed id then [.unregister id, .abandon id]
      else [.receive id]
  | .drop id => if (v.stream? id).isSome then [.unregister id, .abandon id] else []
  | .pass _ => []

/-- The moves of the hub in a run. -/
def script (v : Venue) (acts : List Act) : List Hub.Move := trace act moves v acts

variable {v : Venue} {id : Nat} {s : Subscription}

theorem find?_of_stream? (hs : v.stream? id = some s) :
    id ∉ v.dropped ∧ v.streams.find? (fun s => s.clientId == id) = some s := by
  unfold stream? at hs
  split at hs
  next => cases hs
  next hd => exact ⟨hd, hs⟩

theorem clientId_of_stream? (hs : v.stream? id = some s) : s.clientId = id :=
  (mem_of_find?_key (find?_of_stream? hs).2).2

theorem leave_eq (hs : s.clientId = id) (h : Hub) : h.leave s = h.run [.unregister id, .abandon id] := by
  rw [Hub.leave, hs]
  rfl

/-- What a look does to the hub. -/
theorem next_hub (now : Nat) (h : Hub) (hs : s.clientId = id) : (h.next now s).2.2 = h.run
    (if s.ended || !s.greeted then []
      else if h.isClosed id then [.unregister id, .abandon id]
      else [.receive id]) := by
  subst hs
  cases he : s.ended with
  | true =>
    rw [Hub.next_ended now he]
    rfl
  | false =>
    cases hg : s.greeted with
    | false =>
      rw [Hub.next_first now he hg]
      rfl
    | true =>
      cases hc : h.isClosed s.clientId with
      | true =>
        rw [Hub.next_closed now he hg hc]
        exact leave_eq rfl h
      | false =>
        cases hq : (h.queued s.clientId).head? with
        | some e =>
          rw [Hub.next_event now he hg hc hq]
          rfl
        | none =>
          rw [Hub.next_quiet now he hg hc hq]
          split <;> rfl

theorem act_hub (a : Act) (v : Venue) : (v.act a).hub = v.hub.run (v.moves a) := by
  cases a with
  | move mv =>
    simp only [act, moves]
    split <;> rfl
  | serve => rfl
  | look id =>
    simp only [act, moves]
    cases hs : v.stream? id with
    | none => rfl
    | some s => exact next_hub v.now v.hub (clientId_of_stream? hs)
  | drop id =>
    cases hs : v.stream? id with
    | none =>
      simp only [act, moves, hs]
      rfl
    | some s =>
      simp only [act, moves, hs]
      exact leave_eq (clientId_of_stream? hs) v.hub
  | pass ms => rfl

/-- In a run the hub goes through a run of its own. -/
theorem run_hub (acts : List Act) (v : Venue) : (v.run acts).hub = v.hub.run (v.script acts) := by
  induction acts generalizing v with
  | nil => rfl
  | cons a r ih =>
    have hrest := ih (v.act a)
    rw [act_hub] at hrest
    exact hrest.trans (Hub.run_append (v.moves a) _ v.hub).symm

end Venue

end StackDeck
