import StackDeck.Proofs.Hub.Registration

/-!
What a subscription yields, look by look, in any run of its hub.
-/

namespace StackDeck

namespace Hub

variable {h : Hub} {id k : Nat}

theorem Enrolled.closed_iff (h₁ : h.Enrolled) (hpos : 1 ≤ id) (hle : id ≤ h.issued) :
    h.isClosed id = true ↔ id ∉ h.registered := by
  rw [h₁.opened hpos hle, Bool.not_eq_false]

/-- A client is closed by whoever removes it, and by the stop of the hub. -/
theorem Enrolled.closed_move (h₁ : h.Enrolled) (hpos : 1 ≤ id) (hle : id ≤ h.issued) (mv : Move) :
    (h.move mv).isClosed id = true ↔ h.isClosed id = true ∨ mv = .stop ∨ mv = .unregister id := by
  have hle' : id ≤ (h.move mv).issued := Nat.le_trans hle (issued_le_run [mv] h)
  rw [(h₁.move mv).closed_iff hpos hle', h₁.closed_iff hpos hle, mem_registered_move]
  cases mv with
  | register =>
    have hold : id ≠ h.issued + 1 := by omega
    simp [hold]
  | unregister k => simp [imp_iff_not_or]
  | stop => simp
  | _ => simp

theorem Enrolled.closed_run (h₁ : h.Enrolled) (hpos : 1 ≤ id) (hle : id ≤ h.issued) (ms : List Move) :
    (h.run ms).isClosed id = true ↔ h.isClosed id = true ∨ .stop ∈ ms ∨ .unregister id ∈ ms := by
  induction ms generalizing h with
  | nil => simp [Hub.run]
  | cons mv r ih =>
    have hle' : id ≤ (h.move mv).issued := Nat.le_trans hle (issued_le_run [mv] h)
    have hrest := ih (h₁.move mv) hle'
    rw [h₁.closed_move hpos hle] at hrest
    refine hrest.trans ?_
    simp only [List.mem_cons, eq_comm (b := mv)]
    tauto

/-- What one client does is not seen by another. -/
theorem client?_run_other {ms : List Move} (hms : ∀ mv ∈ ms, mv.caller = some k) (hne : k ≠ id) (h : Hub) :
    (h.run ms).client? id = h.client? id ∧ (id ∈ (h.run ms).registered ↔ id ∈ h.registered) := by
  induction ms generalizing h with
  | nil => exact ⟨rfl, Iff.rfl⟩
  | cons mv r ih =>
    have hk : mv.caller = some k := hms mv (by simp)
    obtain ⟨hclient, hreg⟩ := ih (fun mv' hm => hms mv' (by simp [hm])) (h.move mv)
    have hsame : id ∈ (h.move mv).registered ↔ id ∈ h.registered := by
      rw [mem_registered_move]
      cases mv with
      | unregister j =>
        cases hk
        exact and_iff_left hne
      | register | stop => cases hk
      | _ => rfl
    exact ⟨hclient.trans (client?_other hk hne), hreg.trans hsame⟩

end Hub

/-- What a look finds once the greeting is over. -/
def Polled.answer (closed : Bool) (queue : List Event) (due now : Nat) : Polled :=
  if closed then .ended
  else
    match queue.head? with
    | some e => .frame (.event e)
    | none => if due ≤ now then .frame .keepAlive else .pending

def Polled.event? : Polled → Option Event
  | .frame (.event e) => some e
  | _ => none

/-- When the next sign of life is due after a look: an interval after an event or after the sign before. -/
def Subscription.retime (interval due : Nat) : Nat × Polled → Nat
  | (now, .frame (.event _)) => now + interval
  | (now, .frame .keepAlive) => nextDue interval now due
  | _ => due

namespace Subscription

/-- When the next sign of life is due after some looks. -/
def timer (interval due : Nat) (looks : List (Nat × Polled)) : Nat := looks.foldl (retime interval) due

theorem timer_concat (interval due : Nat) (looks : List (Nat × Polled)) (x : Nat × Polled) :
    timer interval due (looks ++ [x]) = retime interval (timer interval due looks) x := List.foldl_append

theorem le_nextDue (interval now due : Nat) : due ≤ nextDue interval now due := by
  unfold nextDue
  split <;> omega

/-- A subscription after some looks at it. -/
structure Reads (interval due : Nat) (looks : List (Nat × Polled)) (closed : Bool) (s : Subscription) : Prop where
  greeted : s.greeted = !looks.isEmpty
  due_eq : s.due = timer interval due looks
  ended : s.ended = true → s.greeted = true ∧ closed = true

end Subscription

namespace Venue

open Subscription

variable {v : Venue} {id k : Nat} {s : Subscription} {L : List (Nat × Polled)} {interval due : Nat} {a : Act}

/-- The looks at the subscription of a client, with their times. -/
def looks (id : Nat) (v : Venue) : Act → List (Nat × Polled)
  | .look k => if k = id then (v.stream? id).toList.map fun s => (v.now, (v.hub.next v.now s).1) else []
  | _ => []

/-! ### One look -/

/-- The first look finds the greeting, and any other what the queue and the time say. -/
theorem next_found {h : Hub} (hr : s.Reads interval due L (h.isClosed s.clientId)) (now : Nat) :
    (h.next now s).1 = if L = [] then .frame (.connected s.clientId)
      else .answer (h.isClosed s.clientId) (h.queued s.clientId) (timer interval due L) now := by
  cases hg : s.greeted with
  | false =>
    have hnone : L = [] := by simpa [hg] using hr.greeted
    have he : s.ended = false := by
      by_contra hend
      have hgreeted := (hr.ended (by simpa using hend)).1
      rw [hg] at hgreeted
      cases hgreeted
    rw [Hub.next_first now he hg, if_pos hnone]
  | true =>
    have hsome : L ≠ [] := by
      rintro rfl
      have hgreeted := hr.greeted
      rw [hg] at hgreeted
      cases hgreeted
    rw [if_neg hsome, Polled.answer]
    cases he : s.ended with
    | true => rw [Hub.next_ended now he, (hr.ended he).2, if_pos rfl]
    | false =>
      cases hc : h.isClosed s.clientId with
      | true => rw [Hub.next_closed now he hg hc, if_pos rfl]
      | false =>
        rw [if_neg Bool.false_ne_true]
        cases hq : (h.queued s.clientId).head? with
        | some e => rw [Hub.next_event now he hg hc hq]
        | none =>
          rw [Hub.next_quiet now he hg hc hq, hr.due_eq]
          split <;> rfl

/-- A look counts as one look more. -/
theorem next_reads {h : Hub} (hr : s.Reads h.keepalive due L (h.isClosed s.clientId)) (now : Nat) :
    (h.next now s).2.1.clientId = s.clientId ∧
      (h.next now s).2.1.Reads h.keepalive due (L ++ [(now, (h.next now s).1)]) (h.isClosed s.clientId) := by
  have hmore (x : Nat × Polled) : (true : Bool) = !(L ++ [x]).isEmpty := by simp
  cases he : s.ended with
  | true =>
    obtain ⟨hg, hc⟩ := hr.ended he
    rw [Hub.next_ended now he]
    refine ⟨rfl, hg.trans (hmore _), ?_, hr.ended⟩
    rw [timer_concat]
    exact hr.due_eq
  | false =>
    cases hg : s.greeted with
    | false =>
      rw [Hub.next_first now he hg]
      refine ⟨rfl, hmore _, ?_, fun hend => ?_⟩
      · rw [timer_concat]
        exact hr.due_eq
      · have hend : s.ended = true := hend
        rw [he] at hend
        cases hend
    | true =>
      have hopen (closed : Bool) {due' : Nat} : ({ s with due := due' } : Subscription).ended = true →
          s.greeted = true ∧ closed = true := by
        intro hend
        have hend : s.ended = true := hend
        rw [he] at hend
        cases hend
      cases hc : h.isClosed s.clientId with
      | true =>
        rw [Hub.next_closed now he hg hc]
        refine ⟨rfl, hg.trans (hmore _), ?_, fun _ => ⟨hg, rfl⟩⟩
        rw [timer_concat]
        exact hr.due_eq
      | false =>
        cases hq : (h.queued s.clientId).head? with
        | some e =>
          rw [Hub.next_event now he hg hc hq]
          refine ⟨rfl, hg.trans (hmore _), ?_, hopen _⟩
          rw [timer_concat]
          rfl
        | none =>
          rw [Hub.next_quiet now he hg hc hq]
          split
          · refine ⟨rfl, hg.trans (hmore _), ?_, hopen _⟩
            rw [timer_concat, ← hr.due_eq]
            rfl
          · refine ⟨rfl, hg.trans (hmore _), ?_, hopen _⟩
            rw [timer_concat]
            exact hr.due_eq

/-! ### The subscriptions after an act -/

theorem unregister_mem_moves (ha : .unregister id ∈ v.moves a) :
    a = .move (.unregister id) ∨ a = .drop id ∨ (a = .look id ∧ v.hub.isClosed id = true) := by
  cases a with
  | move mv =>
    simp only [moves] at ha
    split at ha
    · cases ha
    · exact .inl (congrArg Act.move (List.mem_singleton.mp ha).symm)
  | serve => simp [moves] at ha
  | look k =>
    simp only [moves] at ha
    split at ha
    · cases ha
    · split at ha
      · cases ha
      · split at ha
        next hc =>
          obtain rfl : id = k := by simpa using ha
          exact .inr (.inr ⟨rfl, hc⟩)
        next => simp at ha
  | drop k =>
    simp only [moves] at ha
    split at ha
    · obtain rfl : id = k := by simpa using ha
      exact .inr (.inl rfl)
    · cases ha
  | pass ms => cases ha

/-- A subscription that was dropped has left its client closed. -/
theorem closed_act (h : v.hub.Enrolled) (hpos : 1 ≤ id) (hle : id ≤ v.hub.issued)
    (hgone : v.stream? id = none → v.hub.isClosed id = true) (a : Act) :
    (v.act a).hub.isClosed id = true ↔
      v.hub.isClosed id = true ∨ a = .move .stop ∨ a = .move (.unregister id) ∨ a = .drop id := by
  rw [act_hub, h.closed_run hpos hle, stop_mem_moves]
  constructor
  · rintro (hc | hstop | hm)
    · exact .inl hc
    · exact .inr (.inl hstop)
    · rcases unregister_mem_moves hm with ha | ha | ⟨-, hc⟩
      · exact .inr (.inr (.inl ha))
      · exact .inr (.inr (.inr ha))
      · exact .inl hc
  · rintro (hc | hstop | rfl | rfl)
    · exact .inl hc
    · exact .inr (.inl hstop)
    · exact .inr (.inr (List.mem_singleton_self _))
    · cases hs : v.stream? id with
      | none => exact .inl (hgone hs)
      | some s =>
        refine .inr (.inr ?_)
        simp [moves, hs]

theorem next_clientId (now : Nat) (s : Subscription) (h : Hub) : (h.next now s).2.1.clientId = s.clientId := by
  unfold Hub.next
  split
  · rfl
  · split
    · rfl
    · split
      · rfl
      · rfl
      · split <;> rfl

/-- A look puts a subscription in the place of the one it was at. -/
theorem look_streams (hk : v.stream? k = some s) : ∃ g : Subscription → Subscription,
    (∀ t, (g t).clientId = t.clientId) ∧ (∀ t, t.clientId = k → g t = (v.hub.next v.now s).2.1) ∧
    (∀ t, t.clientId ≠ k → g t = t) ∧ (v.act (.look k)).streams = v.streams.map g ∧
    (v.act (.look k)).dropped = v.dropped := by
  have hid := clientId_of_stream? hk
  refine ⟨fun t => if t.clientId == k then (v.hub.next v.now s).2.1 else t, fun t => ?_, fun t ht => ?_, fun t ht => ?_,
    ?_, ?_⟩
  · by_cases ht : t.clientId = k
    · simp only [ht, beq_self_eq_true, if_true]
      rw [next_clientId, hid]
    · simp [ht]
  · simp [ht]
  · simp [ht]
  · simp only [act, hk]
  · simp only [act, hk]

theorem stream?_look (hk : v.stream? k = some s) (id : Nat) :
    (v.act (.look k)).stream? id = if id = k then some (v.hub.next v.now s).2.1 else v.stream? id := by
  obtain ⟨hd, hf⟩ := find?_of_stream? hk
  obtain ⟨g, hg, hself, hother, hstreams, hdropped⟩ := look_streams hk
  rw [stream?, hstreams, hdropped, find?_map_key hg]
  by_cases he : id = k
  · subst he
    rw [if_neg hd, hf, if_pos rfl, Option.map_some, hself s (clientId_of_stream? hk)]
  · rw [if_neg he, stream?]
    split
    · rfl
    · refine (Option.map_congr fun t ht => ?_).trans Option.map_id'
      have htid : t.clientId = id := (mem_of_find?_key ht).2
      exact hother t (by rw [htid]; exact he)

theorem stream?_serve (hle : id ≤ v.hub.issued) : (v.act .serve).stream? id = v.stream? id := by
  have hnew : ((v.hub.serve v.now).1.clientId == id) = false := by
    have hid : (v.hub.serve v.now).1.clientId = v.hub.issued + 1 := rfl
    rw [hid, beq_eq_false_iff_ne]
    omega
  have hact : (v.act .serve).stream? id = if id ∈ v.dropped then none else
      (v.streams ++ [(v.hub.serve v.now).1]).find? fun t => t.clientId == id := rfl
  rw [hact, stream?, List.find?_append]
  split
  · rfl
  · simp [hnew]

/-- Only a look and a drop are told apart by a subscription. -/
theorem stream?_other (hle : id ≤ v.hub.issued) (hl : a ≠ .look id) (hd : a ≠ .drop id) :
    (v.act a).stream? id = v.stream? id := by
  cases a with
  | move mv =>
    simp only [act]
    split <;> rfl
  | serve => exact stream?_serve hle
  | look k =>
    have hne : id ≠ k := fun he => hl (he ▸ rfl)
    cases hs : v.stream? k with
    | none => simp only [act, hs]
    | some s => rw [stream?_look hs, if_neg hne]
  | drop k =>
    have hne : id ≠ k := fun he => hd (he ▸ rfl)
    cases hs : v.stream? k with
    | none => simp only [act, hs]
    | some s =>
      have hact : (v.act (.drop k)).stream? id = if id ∈ k :: v.dropped then none else
          v.streams.find? fun t => t.clientId == id := by
        simp only [act, hs]
        rfl
      rw [hact, stream?]
      simp only [List.mem_cons, hne, false_or]
  | pass ms => rfl

theorem stream?_drop (id : Nat) (v : Venue) : (v.act (.drop id)).stream? id = none := by
  cases hs : v.stream? id with
  | none => simp only [act, hs]
  | some s =>
    simp only [act, hs]
    rw [stream?, if_pos (by simp)]

/-- The receiver of a subscription is never given away. -/
theorem owns_act (ho : v.owns id = true) (a : Act) : (v.act a).owns id = true := by
  cases a with
  | move mv =>
    simp only [act]
    split <;> exact ho
  | serve =>
    have hact : (v.act .serve).owns id =
        (v.streams ++ [(v.hub.serve v.now).1]).any fun s => s.clientId == id := rfl
    rw [hact, List.any_append, ← owns, ho, Bool.true_or]
  | look k =>
    cases hs : v.stream? k with
    | none =>
      simp only [act, hs]
      exact ho
    | some s =>
      obtain ⟨g, hg, -, -, hstreams, -⟩ := look_streams hs
      rw [owns, hstreams, List.any_map]
      have hsame : (fun s => s.clientId == id) ∘ g = fun s => s.clientId == id := funext fun t => by
        rw [Function.comp_apply, hg]
      rw [hsame]
      exact ho
  | drop k =>
    simp only [act]
    split <;> exact ho
  | pass ms => exact ho

/-! ### A whole run -/

/-- What is known of a subscription at any time, given the looks at it so far. -/
structure Follows (interval due id : Nat) (L : List (Nat × Polled)) (v : Venue) : Prop where
  enrolled : v.hub.Enrolled
  keepalive : v.hub.keepalive = interval
  known : 1 ≤ id ∧ id ≤ v.hub.issued
  owned : v.owns id = true
  gone : v.stream? id = none → v.hub.isClosed id = true
  stream : ∀ s, v.stream? id = some s → s.Reads interval due L (v.hub.isClosed id)

theorem looks_of_stream (hs : v.stream? id = some s) :
    v.looks id (.look id) = [(v.now, (v.hub.next v.now s).1)] := by
  rw [looks, if_pos rfl, hs]
  rfl

theorem looks_of_gone (hs : v.stream? id = none) (a : Act) : v.looks id a = [] := by
  cases a with
  | look k =>
    rw [looks]
    split
    · rw [hs]
      rfl
    · rfl
  | _ => rfl

theorem looks_other (ha : a ≠ .look id) (v : Venue) : v.looks id a = [] := by
  cases a with
  | look k =>
    have hne : k ≠ id := fun he => ha (he ▸ rfl)
    exact if_neg hne
  | _ => rfl

theorem Follows.closed_act (f : v.Follows interval due id L) (a : Act) : (v.act a).hub.isClosed id = true ↔
    v.hub.isClosed id = true ∨ a = .move .stop ∨ a = .move (.unregister id) ∨ a = .drop id :=
  Venue.closed_act f.enrolled f.known.1 f.known.2 f.gone a

theorem Follows.act (f : v.Follows interval due id L) (a : Act) :
    (v.act a).Follows interval due id (L ++ v.looks id a) := by
  have hclosed := f.closed_act a
  have henrolled : (v.act a).hub.Enrolled := by
    rw [act_hub]
    exact f.enrolled.run _
  have hissued : v.hub.issued ≤ (v.act a).hub.issued := by
    rw [act_hub]
    exact Hub.issued_le_run _ _
  have hkeep : (v.act a).hub.keepalive = interval := by
    rw [act_hub, Hub.keepalive_run]
    exact f.keepalive
  refine ⟨henrolled, hkeep, ⟨f.known.1, Nat.le_trans f.known.2 hissued⟩, owns_act f.owned a, ?_, ?_⟩
  · intro hnone
    by_cases hd : a = .drop id
    · exact hclosed.mpr (.inr (.inr (.inr hd)))
    · refine hclosed.mpr (.inl (f.gone ?_))
      by_cases hl : a = .look id
      · subst hl
        cases hs : v.stream? id with
        | none => rfl
        | some s =>
          rw [stream?_look hs, if_pos rfl] at hnone
          cases hnone
      · rw [stream?_other f.known.2 hl hd] at hnone
        exact hnone
  · intro s' hs'
    by_cases hl : a = .look id
    · subst hl
      have hsame : (v.act (.look id)).hub.isClosed id = v.hub.isClosed id := by
        rw [Bool.eq_iff_iff, hclosed]
        simp
      cases hs : v.stream? id with
      | none =>
        simp only [Venue.act, hs] at hs'
        cases hs'
      | some s =>
        have hid := clientId_of_stream? hs
        have hr := f.stream s hs
        rw [stream?_look hs, if_pos rfl] at hs'
        rw [looks_of_stream hs, hsame, ← Option.some.inj hs', ← f.keepalive]
        rw [← f.keepalive, ← hid] at hr
        have hnext := (next_reads hr v.now).2
        rw [hid] at hnext
        exact hnext
    · have hd : a ≠ .drop id := by
        rintro rfl
        rw [stream?_drop] at hs'
        cases hs'
      rw [stream?_other f.known.2 hl hd] at hs'
      have hr := f.stream s' hs'
      rw [looks_other hl, List.append_nil]
      refine ⟨hr.greeted, hr.due_eq, fun he => ?_⟩
      obtain ⟨hg, hc⟩ := hr.ended he
      exact ⟨hg, hclosed.mpr (.inl hc)⟩

end Venue

end StackDeck
