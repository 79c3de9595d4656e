import StackDeck.Proofs.Hub.Delivery

/-!
What a client finds depends on what is published and on what it does itself, and on no other client.
-/

namespace StackDeck.Hub

/-- What is left of a move if there is only this client, which is then the first one. -/
def own (id : Nat) (h : Hub) : Move → List Move
  | .register => if id = h.issued + 1 then [.register] else []
  | .unregister k => if k = id then [.unregister 1] else []
  | .take k => if k = id then [.take 1] else []
  | .receive k => if k = id then [.receive 1] else []
  | .abandon k => if k = id then [.abandon 1] else []
  | mv => [mv]

/-- A client under the first number. -/
def Client.alone (c : Client) : Client := { c with id := 1 }

/-- The first client of one hub is what a client of another hub is. -/
structure Mirrors (id : Nat) (h h₁ : Hub) : Prop where
  sound : h.Sound
  sound₁ : h₁.Sound
  limit : h₁.limit = h.limit
  stopped : h₁.stopped = h.stopped
  issued : h₁.issued = if 1 ≤ id ∧ id ≤ h.issued then 1 else 0
  registered : 1 ∈ h₁.registered ↔ id ∈ h.registered
  client : h₁.client? 1 = (h.client? id).map Client.alone

variable {h h₁ : Hub} {id k : Nat} {c : Client} {mv mv₁ : Move}

theorem Mirrors.queued (hm : Mirrors id h h₁) : h₁.queued 1 = h.queued id := by
  rw [Hub.queued, hm.client, Hub.queued]
  cases h.client? id <;> rfl

theorem Mirrors.isClosed (hm : Mirrors id h h₁) : h₁.isClosed 1 = h.isClosed id := by
  rw [Hub.isClosed, hm.client, Hub.isClosed]
  cases h.client? id <;> rfl

theorem Mirrors.hears (hm : Mirrors id h h₁) : h₁.hears 1 = h.hears id := by
  have hany : (h₁.client? 1).any Client.listening = (h.client? id).any Client.listening := by
    rw [hm.client]
    cases h.client? id <;> rfl
  rw [Hub.hears, Hub.hears, hany, List.contains_eq_mem, List.contains_eq_mem, decide_eq_decide.mpr hm.registered]

/-! ### One move -/

theorem own_other (hk : mv.caller = some k) (hne : k ≠ id) : h.own id mv = [] := by
  cases mv with
  | unregister j => cases hk; exact if_neg hne
  | take j => cases hk; exact if_neg hne
  | receive j => cases hk; exact if_neg hne
  | abandon j => cases hk; exact if_neg hne
  | _ => cases hk

theorem Mirrors.replies (hm : Mirrors id h h₁) (mv : Move) :
    h.replies id mv = h₁.observe (Hub.replies 1) (h.own id mv) := by
  cases mv with
  | take k =>
    by_cases he : k = id
    · subst he
      simp only [Hub.replies, own, if_true, observe, take_fst, hm.queued, List.append_nil]
    · rw [replies_other rfl he, own_other rfl he, observe]
  | receive k =>
    by_cases he : k = id
    · subst he
      simp only [Hub.replies, own, if_true, observe, receive_fst, hm.queued, hm.isClosed, List.append_nil]
    · rw [replies_other rfl he, own_other rfl he, observe]
  | register =>
    simp only [own]
    split <;> rfl
  | unregister k =>
    simp only [own]
    split <;> rfl
  | abandon k =>
    simp only [own]
    split <;> rfl
  | _ => rfl

theorem Mirrors.accepted (hm : Mirrors id h h₁) (mv : Move) :
    h.accepted id mv = h₁.observe (Hub.accepted 1) (h.own id mv) := by
  have hsame (mv : Move) : h₁.accepted 1 mv = h.accepted id mv := by
    rw [Hub.accepted, Hub.accepted, hm.hears, hm.queued, hm.limit]
  cases mv with
  | broadcast name data => simp only [own, observe, hsame, List.append_nil]
  | notify name => simp only [own, observe, hsame, List.append_nil]
  | stop => simp only [own, observe, hsame, List.append_nil]
  | register =>
    rw [accepted_of_silent rfl, own]
    split
    · rw [observe, accepted_of_silent rfl, observe, List.append_nil]
    · rfl
  | _ =>
    rw [accepted_of_silent rfl, own]
    split
    · rw [observe, accepted_of_silent rfl, observe, List.append_nil]
    · rfl

/-- What another client does is not seen in the mirror. -/
theorem Mirrors.other (hm : Mirrors id h h₁) (hk : mv.caller = some k) (hne : k ≠ id) : Mirrors id (h.move mv) h₁ := by
  have hmv : mv ≠ .register := Move.ne_register hk
  refine ⟨hm.sound.move mv, hm.sound₁, ?_, ?_, ?_, ?_, ?_⟩
  · rw [hm.limit, limit_move]
  · rw [hm.stopped, stopped_move]
    cases mv with
    | stop => cases hk
    | _ => rfl
  · rw [hm.issued, issued_of_ne_register hmv]
  · rw [hm.registered, mem_registered_move]
    cases mv with
    | unregister j =>
      cases hk
      exact (and_iff_left hne).symm
    | register => cases hk
    | stop => cases hk
    | _ => rfl
  · rw [hm.client, client?_other hk hne]

/-- Moves that change the client alike and register nobody. -/
theorem Mirrors.both (hm : Mirrors id h h₁) (mv mv₁ : Move) (hmv : mv.registers = false) (hmv₁ : mv₁.registers = false)
    (hstop : (h₁.move mv₁).stopped = (h.move mv).stopped)
    (hreg : 1 ∈ (h₁.move mv₁).registered ↔ id ∈ (h.move mv).registered)
    (hch : ∀ c, h₁.change 1 mv₁ (Client.alone c) = Client.alone (h.change id mv c)) :
    Mirrors id (h.move mv) (h₁.move mv₁) := by
  have hmv := Move.ne_of_registers hmv
  have hmv₁ := Move.ne_of_registers hmv₁
  refine ⟨hm.sound.move mv, hm.sound₁.move mv₁, ?_, hstop, ?_, hreg, ?_⟩
  · rw [limit_move, limit_move, hm.limit]
  · rw [issued_of_ne_register hmv, issued_of_ne_register hmv₁, hm.issued]
  · rw [client?_move hmv, client?_move hmv₁, hm.client, Option.map_map, Option.map_map]
    exact Option.map_congr fun c _ => hch c

/-- Moves that change the client alike and otherwise nothing that counts. -/
theorem Mirrors.look (hm : Mirrors id h h₁) (mv mv₁ : Move) (hmv : mv.registers = false) (hmv₁ : mv₁.registers = false)
    (hsame : Same h (h.move mv)) (hsame₁ : Same h₁ (h₁.move mv₁))
    (hch : ∀ c, h₁.change 1 mv₁ (Client.alone c) = Client.alone (h.change id mv c)) :
    Mirrors id (h.move mv) (h₁.move mv₁) := by
  have hstop : (h₁.move mv₁).stopped = (h.move mv).stopped := by
    rw [hsame.stopped, hsame₁.stopped, hm.stopped]
  have hreg : 1 ∈ (h₁.move mv₁).registered ↔ id ∈ (h.move mv).registered := by
    rw [hsame.registered, hsame₁.registered, hm.registered]
  exact hm.both mv mv₁ hmv hmv₁ hstop hreg hch

/-- A registration of the client itself is the first one in the mirror. -/
theorem Mirrors.register (hm : Mirrors id h h₁) (he : id = h.issued + 1) :
    Mirrors id (h.move .register) (h₁.move .register) := by
  have hfirst : h₁.issued = 0 := by
    rw [hm.issued]
    exact if_neg fun hh => by omega
  refine ⟨hm.sound.move _, hm.sound₁.move _, ?_, ?_, ?_, ?_, ?_⟩
  · rw [limit_move, limit_move, hm.limit]
  · rw [stopped_move, stopped_move, hm.stopped]
  · rw [issued_move, issued_move, hfirst, ← he]
    exact (if_pos ⟨by omega, Nat.le_refl id⟩).symm
  · rw [mem_registered_move, mem_registered_move, hm.registered, hm.stopped, hfirst, ← he]
    simp
  · have hreg : (h.move .register).client? id = _ := client?_register id h hm.sound.new
    have hreg₁ : (h₁.move .register).client? 1 = _ := client?_register 1 h₁ hm.sound₁.new
    rw [hreg, hreg₁, if_pos he, hfirst, if_pos rfl, hm.stopped]
    rfl

/-- A registration of another client is not seen in the mirror. -/
theorem Mirrors.register_other (hm : Mirrors id h h₁) (hne : id ≠ h.issued + 1) :
    Mirrors id (h.move .register) h₁ := by
  have hreg : (h.move .register).client? id = _ := client?_register id h hm.sound.new
  refine ⟨hm.sound.move _, hm.sound₁, ?_, ?_, ?_, ?_, ?_⟩
  · rw [hm.limit, limit_move]
  · rw [hm.stopped, stopped_move]
  · have hknown : 1 ≤ id ∧ id ≤ h.issued ↔ 1 ≤ id ∧ id ≤ h.issued + 1 := by omega
    rw [hm.issued, issued_move]
    exact if_congr hknown rfl rfl
  · rw [hm.registered, mem_registered_move]
    exact ⟨.inl, fun hh => hh.resolve_right fun hh => hne hh.1⟩
  · rw [hreg, if_neg hne, hm.client]

theorem offer_alone (limit : Nat) (e : Event) (c : Client) :
    Client.offer limit e (Client.alone c) = Client.alone (Client.offer limit e c) := by
  rw [Client.offer, Client.offer, apply_ite Client.alone]
  rfl

theorem Mirrors.move (hm : Mirrors id h h₁) (mv : Move) : Mirrors id (h.move mv) (h₁.run (h.own id mv)) := by
  cases mv with
  | register =>
    by_cases he : id = h.issued + 1
    · rw [own, if_pos he]
      exact hm.register he
    · rw [own, if_neg he]
      exact hm.register_other he
  | broadcast name data =>
    have hsame (h : Hub) : Same h (h.move (.broadcast name data)) := broadcast_same name data h
    refine hm.look (.broadcast name data) (.broadcast name data) rfl rfl (hsame h) (hsame h₁) fun c => ?_
    cases data with
    | none => rfl
    | some data =>
      simp only [change, hm.registered, hm.limit, offer_alone]
      exact (apply_ite Client.alone _ _ _).symm
  | notify name =>
    have hsame (h : Hub) : Same h (h.move (.notify name)) := broadcast_same name (some .null) h
    refine hm.look (.notify name) (.notify name) rfl rfl (hsame h) (hsame h₁) fun c => ?_
    simp only [change, hm.registered, hm.limit, offer_alone]
    exact (apply_ite Client.alone _ _ _).symm
  | stop =>
    refine hm.both .stop .stop rfl rfl rfl ?_ fun c => ?_
    · rw [mem_registered_move, mem_registered_move]
    · simp only [change, hm.registered]
      split <;> rfl
  | unregister k =>
    by_cases he : k = id
    · subst he
      rw [own, if_pos rfl]
      refine hm.both (.unregister k) (.unregister 1) rfl rfl ?_ ?_ fun c => ?_
      · rw [stopped_move, stopped_move, hm.stopped]
      · simp only [mem_registered_move, ne_eq, not_true_eq_false, and_false]
      · simp only [change, hm.registered, true_and]
        split <;> rfl
    · rw [own_other rfl he]
      exact hm.other rfl he
  | take k =>
    by_cases he : k = id
    · subst he
      rw [own, if_pos rfl]
      refine hm.look (.take k) (.take 1) rfl rfl (take_same k h) (take_same 1 h₁) fun c => ?_
      rw [change, change, if_pos rfl, if_pos rfl, Client.alone, Client.alone]
    · rw [own_other rfl he]
      exact hm.other rfl he
  | receive k =>
    by_cases he : k = id
    · subst he
      rw [own, if_pos rfl]
      refine hm.look (.receive k) (.receive 1) rfl rfl (receive_same k h) (receive_same 1 h₁) fun c => ?_
      simp only [change, true_and, Client.alone]
      split <;> rfl
    · rw [own_other rfl he]
      exact hm.other rfl he
  | abandon k =>
    by_cases he : k = id
    · subst he
      rw [own, if_pos rfl]
      refine hm.look (.abandon k) (.abandon 1) rfl rfl (abandon_same k h) (abandon_same 1 h₁) fun c => ?_
      rw [change, change, if_pos rfl, if_pos rfl, Client.alone, Client.alone]
    · rw [own_other rfl he]
      exact hm.other rfl he

/-! ### A whole run -/

theorem start_mirrors (capacity keepalive id : Nat) :
    Mirrors id (start capacity keepalive) (start capacity keepalive) := by
  have hs : (start capacity keepalive).Sound := start_sound capacity keepalive
  have hunknown : ¬ (1 ≤ id ∧ id ≤ (start capacity keepalive).issued) := by
    have hissued : (start capacity keepalive).issued = 0 := rfl
    omega
  exact ⟨hs, hs, rfl, rfl, (if_neg hunknown).symm, iff_of_false nofun nofun, rfl⟩

theorem Mirrors.run (hm : Mirrors id h h₁) (moves : List Move) :
    Mirrors id (h.run moves) (h₁.run (h.observe (own id) moves)) := by
  induction moves generalizing h h₁ with
  | nil => exact hm
  | cons mv r ih =>
    rw [observe, run_append]
    exact ih (hm.move mv)

/-- What is told of a client by one move at a time is told alike of all moves. -/
theorem Mirrors.observe {α : Type} {note : Nat → Hub → Move → List α}
    (hnote : ∀ {h h₁ : Hub}, Mirrors id h h₁ → ∀ mv, note id h mv = h₁.observe (note 1) (h.own id mv))
    (hm : Mirrors id h h₁) (moves : List Move) :
    h.observe (note id) moves = h₁.observe (note 1) (h.observe (own id) moves) := by
  induction moves generalizing h h₁ with
  | nil => rfl
  | cons mv r ih =>
    rw [Hub.observe, Hub.observe, observe_append, hnote hm mv, ih (hm.move mv)]

/-- What a client takes, what is lost with its receiver and what is queued for it are the events that are
published while it is there, in this order and once each, apart from those that find its queue full. All
this, and whatever it finds on the way, is the same if there is no other client. A payload that cannot be
written changes nothing, and a closed client finds what was queued when it was closed and nothing more. -/
theorem delivery_is_own (capacity keepalive : Nat) (moves : List Move) (id : Nat) :
    let h := start capacity keepalive
    let last := h.run moves
    let ownMoves := h.observe (own id) moves
    let ownLast := h.run ownMoves
    (last.hears id = true ↔ Stays [.stop, .unregister id, .abandon id] id moves) ∧
    last.limit = max capacity 1 ∧ (last.queued id).length ≤ max capacity 1 ∧
    (last.take id).1 = (last.queued id).head? ∧
    (last.receive id).1 = (if last.isClosed id then .closed else .found (last.queued id).head?) ∧
    h.observe (taken id) moves ++ (h.observe (dropped id) moves ++ last.queued id) = h.observe (accepted id) moves ∧
    (.abandon id ∈ moves ∨ h.observe (dropped id) moves = []) ∧
    -- Without the other clients it is the first one, and finds the same at every look.
    h.observe (replies id) moves = h.observe (replies 1) ownMoves ∧
    h.observe (accepted id) moves = h.observe (accepted 1) ownMoves ∧
    last.queued id = ownLast.queued 1 ∧ last.isClosed id = ownLast.isClosed 1 ∧
    (∀ name, last.move (.broadcast name none) = last) ∧
    -- A client is closed when it has left or the hub has stopped. It finds this out for ever, or takes what is left.
    ∀ c ∈ last.client? id, (c.done = true ↔ ¬ Stays [.stop, .unregister id] id moves) ∧
      (c.done = true → ∀ more,
        let later := last.run more
        (later.receive id).1 = .closed ∧
        last.observe (taken id) more ++ (last.observe (dropped id) more ++ later.queued id) = last.queued id ∧
        later.observe (taken id) (List.replicate (later.queued id).length (.take id)) = later.queued id) := by
  intro h last ownMoves ownLast
  have hs : h.Sound := start_sound capacity keepalive
  have hlast : last.Sound := hs.run moves
  have hm : Mirrors id h h := start_mirrors capacity keepalive id
  have hend : Mirrors id last ownLast := hm.run moves
  have hlimit : last.limit = max capacity 1 := limit_run moves h
  have hroom : (last.queued id).length ≤ max capacity 1 := hlimit ▸ hlast.queued_length_le id
  have hlost : .abandon id ∈ moves ∨ h.observe (Hub.dropped id) moves = [] :=
    or_iff_not_imp_left.mpr fun ha => dropped_of_listening ha h
  refine ⟨hears_run capacity keepalive moves id, hlimit, hroom, take_fst id last, receive_fst id last,
    (hs.account id moves).symm, hlost, hm.observe Mirrors.replies moves, hm.observe Mirrors.accepted moves,
    hend.queued.symm, hend.isClosed.symm, fun name => rfl, fun c hc => ⟨?_, fun hd more => ?_⟩⟩
  · rw [← registered_run capacity keepalive, (hlast.2 id c hc).opened, Bool.not_eq_false]
  · obtain ⟨hnone, hclosed⟩ := hlast.closed_for_ever hc hd more
    have haccount := hlast.account id more
    rw [hnone, List.append_nil] at haccount
    refine ⟨?_, haccount.symm, drains id (last.run more)⟩
    rw [receive_fst, hclosed, if_pos rfl]

/-- A slow client misses what finds its queue full, and a fast one beside it misses nothing. -/
example :
    let moves := [.register, .register, .notify "a", .take 2, .notify "b", .take 2, .notify "c", .take 2, .stop]
    let names := List.map Event.name
    let h := start 2 15000
    names ((h.run moves).queued 1) = ["a", "b"] ∧ names (h.observe (taken 2) moves) = ["a", "b", "c"] := by
  decide

end StackDeck.Hub
