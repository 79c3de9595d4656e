import StackDeck.Proofs.Hub.Stream

/-!
What a subscription has yielded by any time: its greeting, its events in their order, and signs of life at their time.
-/

namespace StackDeck

namespace Polled

variable {closed : Bool} {queue : List Event} {due now : Nat}

theorem answer_keepAlive (h : answer closed queue due now = .frame .keepAlive) : due ≤ now := by
  unfold answer at h
  split at h
  · cases h
  · split at h
    · cases h
    · split at h
      next hle => exact hle
      next => cases h

theorem answer_not_connected (k : Nat) : answer closed queue due now ≠ .frame (.connected k) := by
  intro h
  unfold answer at h
  split at h
  · cases h
  · split at h
    · cases h
    · split at h <;> cases h

theorem answer_ended : answer closed queue due now = .ended ↔ closed = true := by
  unfold answer
  cases closed with
  | true => simp
  | false =>
    rw [if_neg Bool.false_ne_true]
    split
    · simp
    · split <;> simp

/-- A look takes the oldest event from the queue of an open client. -/
theorem answer_event (closed : Bool) (queue : List Event) (due now : Nat) :
    [answer closed queue due now].filterMap event? = if closed then [] else queue.take 1 := by
  cases closed with
  | true => rfl
  | false =>
    cases queue with
    | nil =>
      simp only [answer, Bool.false_eq_true, if_false, List.head?_nil]
      split <;> rfl
    | cons e r => rfl

end Polled

namespace Subscription

variable {interval start id now : Nat} {L : List (Nat × Polled)} {closed : Bool}

/-- An event that was shown. -/
def shows (p : Polled) : Prop := p.event?.isSome = true

theorem le_retime {b due : Nat} (p : Polled) (hdue : b ≤ due) (hnow : b ≤ now + interval) :
    b ≤ retime interval due (now, p) := by
  unfold retime
  split
  next t e he =>
    cases he
    exact hnow
  next t he => exact Nat.le_trans hdue (le_nextDue interval t due)
  next => exact hdue

/-- The looks at a subscription, as they follow one another. -/
structure Orderly (interval start id now : Nat) (closed : Bool) (L : List (Nat × Polled)) : Prop where
  opened : start ≤ now
  times : ∀ x ∈ L, x.1 ≤ now
  first : ∀ x ∈ L.head?, x.2 = .frame (.connected id)
  once : ∀ x ∈ L.tail, ∀ k, x.2 ≠ .frame (.connected k)
  due : start + interval ≤ timer interval (start + interval) L
  due_after : ∀ x ∈ L, shows x.2 → x.1 + interval ≤ timer interval (start + interval) L
  calm : ∀ x ∈ L, x.2 = .frame .keepAlive → start + interval ≤ x.1
  calm_after : L.Pairwise fun x y => shows x.2 → y.2 = .frame .keepAlive → x.1 + interval ≤ y.1
  final : L.Pairwise fun x y => x.2 = .ended → y.2 = .ended
  ended : ∀ x ∈ L, x.2 = .ended → closed = true

theorem orderly_nil (interval id : Nat) (closed : Bool) : Orderly interval start id start closed [] := by
  refine ⟨Nat.le_refl _, ?_, ?_, ?_, Nat.le_refl _, ?_, ?_, .nil, .nil, ?_⟩ <;> simp

theorem Orderly.later (h : Orderly interval start id now closed L) {now' : Nat} {closed' : Bool} (hnow : now ≤ now')
    (hclosed : closed = true → closed' = true) : Orderly interval start id now' closed' L :=
  ⟨Nat.le_trans h.opened hnow, fun x hx => Nat.le_trans (h.times x hx) hnow, h.first, h.once, h.due, h.due_after,
    h.calm, h.calm_after, h.final, fun x hx he => hclosed (h.ended x hx he)⟩

/-- One look more, which finds what it should. -/
theorem Orderly.look (h : Orderly interval start id now closed L) (queue : List Event) :
    Orderly interval start id now closed (L ++ [(now, if L = [] then .frame (.connected id)
      else .answer closed queue (timer interval (start + interval) L) now)]) := by
  generalize hp : (if L = [] then .frame (.connected id)
      else .answer closed queue (timer interval (start + interval) L) now : Polled) = p
  -- what is to be known of a look that finds `p`
  have hconnected : L = [] → p = .frame (.connected id) := fun hnil => by rw [← hp, if_pos hnil]
  have hgreeted : L ≠ [] → ∀ k, p ≠ .frame (.connected k) := by
    intro hne k
    rw [← hp, if_neg hne]
    exact Polled.answer_not_connected k
  have hkeep : p = .frame .keepAlive → timer interval (start + interval) L ≤ now := by
    intro hk
    rw [← hp] at hk
    split at hk
    · cases hk
    · exact Polled.answer_keepAlive hk
  have hend : p = .ended → closed = true := by
    intro he
    rw [← hp] at he
    split at he
    · cases he
    · exact Polled.answer_ended.mp he
  have hstays : L ≠ [] → closed = true → p = .ended := by
    intro hne hc
    rw [← hp, if_neg hne]
    exact Polled.answer_ended.mpr hc
  have hmem {x : Nat × Polled} (hx : x ∈ L ++ [(now, p)]) : x ∈ L ∨ x = (now, p) := by simpa using hx
  exact {
    opened := h.opened
    times := by
      intro x hx
      rcases hmem hx with hx | rfl
      · exact h.times x hx
      · exact Nat.le_refl _
    first := by
      cases L with
      | nil =>
        intro x hx
        rw [← Option.some.inj hx]
        exact hconnected rfl
      | cons y r => exact h.first
    once := by
      cases L with
      | nil => simp
      | cons y r =>
        intro x hx k
        rcases List.mem_append.mp hx with hx | hx
        · exact h.once x hx k
        · rw [List.mem_singleton.mp hx]
          exact hgreeted (List.cons_ne_nil _ _) k
    due := by
      rw [timer_concat]
      exact le_retime p h.due (Nat.add_le_add_right h.opened interval)
    due_after := by
      intro x hx hs
      rw [timer_concat]
      rcases hmem hx with hx | rfl
      · exact le_retime p (h.due_after x hx hs) (Nat.add_le_add_right (h.times x hx) interval)
      · cases p with
        | frame f =>
          cases f with
          | event e => exact Nat.le_refl _
          | connected k | keepAlive => cases hs
        | pending | ended => cases hs
    calm := by
      intro x hx hk
      rcases hmem hx with hx | rfl
      · exact h.calm x hx hk
      · exact Nat.le_trans h.due (hkeep hk)
    calm_after := by
      refine List.pairwise_append.mpr ⟨h.calm_after, List.pairwise_singleton _ _, fun x hx y hy hs hk => ?_⟩
      rw [List.mem_singleton.mp hy] at hk ⊢
      exact Nat.le_trans (h.due_after x hx hs) (hkeep hk)
    final := by
      refine List.pairwise_append.mpr ⟨h.final, List.pairwise_singleton _ _, fun x hx y hy he => ?_⟩
      rw [List.mem_singleton.mp hy]
      exact hstays (List.ne_nil_of_mem hx) (h.ended x hx he)
    ended := by
      intro x hx he
      rcases hmem hx with hx | rfl
      · exact h.ended x hx he
      · exact hend he }

end Subscription

namespace Venue

open Subscription

variable {v : Venue} {interval due id k : Nat} {L : List (Nat × Polled)} {s : Subscription} {a : Act}

/-! ### The opening of a subscription -/

/-- Subscriptions are known to the hub. -/
def Housed (v : Venue) : Prop :=
  (∀ s ∈ v.streams, s.clientId ≤ v.hub.issued) ∧ ∀ id ∈ v.dropped, id ≤ v.hub.issued

theorem Housed.act (h : v.Housed) (a : Act) : (v.act a).Housed := by
  have hissued : v.hub.issued ≤ (v.act a).hub.issued := by
    rw [act_hub]
    exact Hub.issued_le_run _ _
  have hold : (∀ s ∈ v.streams, s.clientId ≤ (v.act a).hub.issued) ∧ ∀ id ∈ v.dropped, id ≤ (v.act a).hub.issued :=
    ⟨fun s hs => Nat.le_trans (h.1 s hs) hissued, fun id hid => Nat.le_trans (h.2 id hid) hissued⟩
  cases a with
  | move mv =>
    by_cases hb : mv.reader.any v.owns = true
    · have hact : v.act (.move mv) = v := if_pos hb
      rw [hact]
      exact h
    · have hact : v.act (.move mv) = { v with hub := v.hub.move mv } := if_neg hb
      rw [hact] at hold ⊢
      exact hold
  | serve =>
    refine ⟨fun s hs => ?_, hold.2⟩
    rcases List.mem_append.mp hs with hs | hs
    · exact hold.1 s hs
    · rw [List.mem_singleton.mp hs]
      exact Nat.le_refl _
  | look k =>
    cases hk : v.stream? k with
    | none =>
      simp only [Venue.act, hk]
      exact h
    | some t =>
      obtain ⟨g, hg, -, -, hstreams, hdropped⟩ := look_streams hk
      refine ⟨fun s hs => ?_, hdropped ▸ hold.2⟩
      rw [hstreams] at hs
      obtain ⟨u, hu, rfl⟩ := List.mem_map.mp hs
      rw [hg]
      exact hold.1 u hu
  | drop k =>
    cases hk : v.stream? k with
    | none =>
      simp only [Venue.act, hk]
      exact h
    | some t =>
      have hknown := hold.1 t (List.mem_of_find?_eq_some (find?_of_stream? hk).2)
      rw [clientId_of_stream? hk] at hknown
      simp only [Venue.act, hk] at hold hknown ⊢
      refine ⟨hold.1, fun id hid => ?_⟩
      rcases List.mem_cons.mp hid with rfl | hid
      · exact hknown
      · exact hold.2 id hid
  | pass ms => exact h

theorem Housed.run (h : v.Housed) (acts : List Act) : (v.run acts).Housed := by
  induction acts generalizing v with
  | nil => exact h
  | cons a r ih => exact ih (h.act a)

theorem stream?_new (hh : v.Housed) :
    (v.act .serve).stream? (v.hub.issued + 1) = some (v.hub.serve v.now).1 := by
  have hfresh : (v.streams.find? fun s => s.clientId == v.hub.issued + 1) = none := by
    refine List.find?_eq_none.mpr fun s hs hid => ?_
    have hold := hh.1 s hs
    have hnew : s.clientId = v.hub.issued + 1 := by simpa using hid
    omega
  have hkept : v.hub.issued + 1 ∉ v.dropped := by
    intro hd
    have hold := hh.2 _ hd
    omega
  have hact : (v.act .serve).stream? (v.hub.issued + 1) = if v.hub.issued + 1 ∈ v.dropped then none else
      (v.streams ++ [(v.hub.serve v.now).1]).find? fun t => t.clientId == v.hub.issued + 1 := rfl
  rw [hact, if_neg hkept, List.find?_append, hfresh, Option.none_or]
  exact List.find?_cons_of_pos (beq_self_eq_true _)

/-- The client of a new subscription has nothing in its queue, and is closed if the hub was stopped. -/
theorem client?_new (h : v.hub.Enrolled) : (v.act .serve).hub.client? (v.hub.issued + 1) =
    some { id := v.hub.issued + 1, done := v.hub.stopped } := by
  have hact : (v.act .serve).hub = v.hub.register.2 := rfl
  rw [hact, Hub.client?_register _ _ h.sound.new, if_pos rfl]

/-- A new subscription was never looked at. Its first sign of life is due an interval from now. -/
theorem serve_follows (h : v.hub.Enrolled) (hh : v.Housed) :
    (v.act .serve).Follows v.hub.keepalive (v.now + v.hub.keepalive) (v.hub.serve v.now).1.clientId [] := by
  have hissued : (v.act .serve).hub.issued = v.hub.issued + 1 := rfl
  have hid : (v.hub.serve v.now).1.clientId = v.hub.issued + 1 := rfl
  have hstream := stream?_new hh
  rw [hid]
  refine ⟨h.move .register, Hub.keepalive_move .register v.hub, ⟨by omega, by omega⟩, ?_, ?_, ?_⟩
  · have hact : (v.act .serve).owns (v.hub.issued + 1) =
        (v.streams ++ [(v.hub.serve v.now).1]).any fun s => s.clientId == v.hub.issued + 1 := rfl
    rw [hact, List.any_append]
    simp [hid]
  · intro hnone
    rw [hstream] at hnone
    cases hnone
  · intro s hs
    rw [hstream] at hs
    rw [← Option.some.inj hs]
    exact ⟨rfl, rfl, nofun⟩

/-! ### What was seen of it -/

theorem Follows.run (f : v.Follows interval due id L) (acts : List Act) :
    (v.run acts).Follows interval due id (L ++ trace Venue.act (Venue.looks id) v acts) := by
  induction acts generalizing v L with
  | nil =>
    rw [trace, List.append_nil]
    exact f
  | cons a r ih =>
    rw [trace, ← List.append_assoc]
    exact ih (f.act a)

/-- A subscription is there until it is dropped. -/
theorem Follows.stream?_run (f : v.Follows interval due id L) (acts : List Act) :
    (v.run acts).stream? id = none ↔ v.stream? id = none ∨ .drop id ∈ acts := by
  induction acts generalizing v L with
  | nil => simp [Venue.run]
  | cons a r ih =>
    have hstep : (v.act a).stream? id = none ↔ v.stream? id = none ∨ a = .drop id := by
      by_cases hd : a = .drop id
      · subst hd
        simp [stream?_drop]
      · by_cases hl : a = .look id
        · subst hl
          cases hs : v.stream? id with
          | none => simp only [Venue.act, hs, true_or]
          | some s => simp [stream?_look hs]
        · rw [stream?_other f.known.2 hl hd]
          simp [hd]
    have hrest := ih (f.act a)
    rw [hstep, or_assoc, eq_comm (a := a), ← List.mem_cons] at hrest
    exact hrest

theorem Follows.closed_run (f : v.Follows interval due id L) (acts : List Act) :
    (v.run acts).hub.isClosed id = true ↔ v.hub.isClosed id = true ∨
      .move .stop ∈ acts ∨ .move (.unregister id) ∈ acts ∨ .drop id ∈ acts := by
  induction acts generalizing v L with
  | nil => simp [Venue.run]
  | cons a r ih =>
    have hrest := ih (f.act a)
    rw [f.closed_act a] at hrest
    refine hrest.trans ?_
    simp only [List.mem_cons, eq_comm (b := a)]
    tauto

theorem Follows.orderly (f : v.Follows interval (due + interval) id L)
    (h : Orderly interval due id v.now (v.hub.isClosed id) L) (acts : List Act) :
    let v' := v.run acts
    Orderly interval due id v'.now (v'.hub.isClosed id) (L ++ trace Venue.act (Venue.looks id) v acts) := by
  induction acts generalizing v L with
  | nil =>
    rw [trace, List.append_nil]
    exact h
  | cons a r ih =>
    rw [trace, ← List.append_assoc]
    refine ih (f.act a) ?_
    have hnow : v.now ≤ (v.act a).now := by
      cases a with
      | pass ms => exact Nat.le_add_right _ _
      | move mv =>
        simp only [Venue.act]
        split <;> exact Nat.le_refl _
      | serve => exact Nat.le_refl _
      | look k | drop k =>
        simp only [Venue.act]
        split <;> exact Nat.le_refl _
    have hclosed (hc : v.hub.isClosed id = true) : (v.act a).hub.isClosed id = true :=
      (f.closed_act a).mpr (.inl hc)
    refine Orderly.later ?_ hnow hclosed
    by_cases ha : a = .look id
    · subst ha
      cases hs : v.stream? id with
      | none =>
        rw [looks_of_gone hs, List.append_nil]
        exact h
      | some s =>
        have hid := clientId_of_stream? hs
        have hr := f.stream s hs
        rw [← hid] at hr
        rw [looks_of_stream hs, next_found hr, hid]
        exact h.look _
    · rw [looks_other ha, List.append_nil]
      exact h

/-! ### The events among it -/

/-- What a subscription shows is taken from the queue of its client, and nobody else takes from it. -/
theorem Follows.taken_act (f : v.Follows interval due id L) (a : Act) :
    (v.looks id a).filterMap (fun x => x.2.event?) = v.hub.observe (Hub.taken id) (v.moves a) := by
  have hquiet {k : Nat} : v.hub.observe (Hub.taken id) [.unregister k, .abandon k] = [] := rfl
  cases a with
  | move mv =>
    rw [looks_other (by simp)]
    simp only [moves]
    split
    next => rfl
    next hr =>
      have hnone : v.hub.taken id mv = [] := by
        have hfree : mv.reader ≠ some id := by
          intro he
          rw [he, Option.any_some, f.owned] at hr
          exact hr rfl
        cases mv with
        | take k =>
          have hne : k ≠ id := fun he => hfree (he ▸ rfl)
          rw [Hub.taken, Hub.replies_other rfl hne, List.filterMap_nil]
        | receive k =>
          have hne : k ≠ id := fun he => hfree (he ▸ rfl)
          rw [Hub.taken, Hub.replies_other rfl hne, List.filterMap_nil]
        | _ => rfl
      rw [Hub.observe, hnone]
      rfl
  | serve => rfl
  | look k =>
    by_cases hk : k = id
    · subst hk
      cases hs : v.stream? k with
      | none =>
        simp only [looks_of_gone hs, moves, hs]
        rfl
      | some s =>
        have hid := clientId_of_stream? hs
        have hr := f.stream s hs
        have hr' := hr
        rw [← hid] at hr'
        rw [looks_of_stream hs, next_found hr', hid]
        simp only [moves, hs]
        by_cases hL : L = []
        · have hg : s.greeted = false := by
            rw [hr.greeted, hL]
            rfl
          simp [hL, hg, Hub.observe, Polled.event?]
        · have hg : s.greeted = true := by
            rw [hr.greeted]
            simpa using hL
          have hshow := Polled.answer_event (v.hub.isClosed k) (v.hub.queued k) (timer interval due L) v.now
          have hone (p : Polled) : [(v.now, p)].filterMap (fun x => x.2.event?) = [p].filterMap Polled.event? := rfl
          rw [if_neg hL, hone, hshow, hg]
          cases hc : v.hub.isClosed k with
          | true =>
            simp only [if_true]
            split
            · rfl
            · exact hquiet.symm
          | false =>
            have he : s.ended = false := by
              cases he : s.ended with
              | false => rfl
              | true =>
                have hclosed := (hr.ended he).2
                rw [hc] at hclosed
                cases hclosed
            simp only [he, Bool.false_eq_true, Bool.not_true, Bool.or_self, if_false]
            rw [Hub.observe, Hub.taken_receive, hc, if_neg Bool.false_ne_true]
            exact (List.append_nil _).symm
    · rw [looks_other (fun he => hk (Act.look.inj he))]
      simp only [moves]
      split
      · rfl
      · split
        · rfl
        · split
          · exact hquiet.symm
          · rw [Hub.observe, Hub.taken, Hub.replies_other rfl hk]
            rfl
  | drop k =>
    rw [looks_other (by simp)]
    simp only [moves]
    split
    · exact hquiet.symm
    · rfl
  | pass ms => rfl

theorem Follows.taken_run (f : v.Follows interval due id L) (acts : List Act) :
    (trace Venue.act (Venue.looks id) v acts).filterMap (fun x => x.2.event?) =
      v.hub.observe (Hub.taken id) (v.script acts) := by
  induction acts generalizing v L with
  | nil => rfl
  | cons a r ih =>
    have hscript : v.script (a :: r) = v.moves a ++ (v.act a).script r := rfl
    rw [trace, List.filterMap_append, f.taken_act a, ih (f.act a), hscript, Hub.observe_append, ← act_hub]

/-- The receiver of a subscription is dropped only after its client has left. -/
theorem Follows.unregister_mem (f : v.Follows interval due id L) {acts : List Act} (ha : .abandon id ∈ v.script acts) :
    .unregister id ∈ v.script acts := by
  induction acts generalizing v L with
  | nil => cases ha
  | cons a r ih =>
    have hscript : v.script (a :: r) = v.moves a ++ (v.act a).script r := rfl
    rw [hscript] at ha ⊢
    rcases List.mem_append.mp ha with ha | ha
    · refine List.mem_append_left _ ?_
      cases a with
      | move mv =>
        simp only [moves] at ha ⊢
        split at ha
        · cases ha
        next hr =>
          obtain rfl := List.mem_singleton.mp ha
          exact absurd f.owned hr
      | serve => simp [moves] at ha
      | look k =>
        simp only [moves] at ha ⊢
        split at ha
        · cases ha
        · split at ha
          · cases ha
          · split at ha
            next h₁ h₂ =>
              rw [if_neg h₁, if_pos h₂]
              simpa using ha
            next => simp at ha
      | drop k =>
        simp only [moves] at ha ⊢
        split at ha
        next h₁ =>
          rw [if_pos h₁]
          simpa using ha
        next => cases ha
      | pass ms => cases ha
    · exact List.mem_append_right _ (ih (f.act a) ha)

/-! ### Other clients -/

theorem moves_caller (ha : a = .look id ∨ a = .drop id) : ∀ mv ∈ v.moves a, mv.caller = some id := by
  intro mv hmv
  have hpair (hm : mv ∈ [Hub.Move.unregister id, .abandon id]) : mv.caller = some id := by
    rcases List.mem_cons.mp hm with rfl | hm
    · rfl
    · rw [List.mem_singleton.mp hm]
      rfl
  rcases ha with rfl | rfl
  · simp only [moves] at hmv
    split at hmv
    · cases hmv
    · split at hmv
      · cases hmv
      · split at hmv
        · exact hpair hmv
        · rw [List.mem_singleton.mp hmv]
          rfl
  · simp only [moves] at hmv
    split at hmv
    · exact hpair hmv
    · cases hmv

/-- A look at a subscription, or its end, is nothing to the other clients. -/
theorem others_act (ha : a = .look id ∨ a = .drop id) (hk : k ≠ id) (v : Venue) :
    (v.act a).hub.client? k = v.hub.client? k ∧ (k ∈ (v.act a).hub.registered ↔ k ∈ v.hub.registered) ∧
      (v.act a).stream? k = v.stream? k := by
  obtain ⟨hclient, hreg⟩ := Hub.client?_run_other (moves_caller ha) (Ne.symm hk) v.hub
  rw [← act_hub] at hclient hreg
  refine ⟨hclient, hreg, ?_⟩
  rcases ha with rfl | rfl
  · cases hs : v.stream? id with
    | none => simp only [Venue.act, hs]
    | some s => rw [stream?_look hs, if_neg hk]
  · cases hs : v.stream? id with
    | none => simp only [Venue.act, hs]
    | some s =>
      have hact : (v.act (.drop id)).stream? k = if k ∈ id :: v.dropped then none else
          v.streams.find? fun t => t.clientId == k := by
        simp only [Venue.act, hs]
        rfl
      rw [hact, stream?]
      simp only [List.mem_cons, hk, false_or]

/-- A subscription greets once and first. After that every look finds the end if its client has left or the hub was
stopped, else the oldest event, else a sign of life if one is due. So its events are those of its client in their
order, a sign of life is shown an interval after the beginning and the last event at the earliest, and nothing
follows the end. A subscription that has ended or was dropped has left the hub, and the other clients see nothing of
it. -/
theorem subscription_shows_its_queue (capacity keepalive : Nat) (before acts : List Act) :
    let v₀ := (start capacity keepalive).run before
    let id := (v₀.hub.serve v₀.now).1.clientId
    let v₁ := v₀.act .serve
    let found := trace act (looks id) v₁ acts
    let v := v₁.run acts
    (.drop id ∉ acts → v.looks id (.look id) = [(v.now, if found = [] then .frame (.connected id)
      else .answer (v.hub.isClosed id) (v.hub.queued id) (timer keepalive (v₀.now + keepalive) found) v.now)]) ∧
    (.drop id ∈ acts → ∀ a, v.looks id a = []) ∧
    (v.hub.isClosed id = true ↔ .move .stop ∈ before ++ acts ∨ .move (.unregister id) ∈ acts ∨ .drop id ∈ acts) ∧
    (∀ x ∈ found.head?, x.2 = .frame (.connected id)) ∧ (∀ x ∈ found.tail, ∀ k, x.2 ≠ .frame (.connected k)) ∧
    (∃ left, found.filterMap (fun x => x.2.event?) ++ left = v₁.hub.observe (Hub.accepted id) (v₁.script acts) ∧
      (v.hub.isClosed id = false → left = v.hub.queued id)) ∧
    (∀ x ∈ found, x.2 = .frame .keepAlive → v₀.now + keepalive ≤ x.1) ∧
    found.Pairwise (fun x y => x.2.event?.isSome = true → y.2 = .frame .keepAlive → x.1 + keepalive ≤ y.1) ∧
    found.Pairwise (fun x y => x.2 = .ended → y.2 = .ended) ∧
    ((∃ x ∈ found, x.2 = .ended) ∨ .drop id ∈ acts → id ∉ v.hub.registered) ∧
    ∀ a, a = .look id ∨ a = .drop id → ∀ k, k ≠ id →
      (v.act a).hub.client? k = v.hub.client? k ∧ (k ∈ (v.act a).hub.registered ↔ k ∈ v.hub.registered) ∧
      (v.act a).stream? k = v.stream? k := by
  intro v₀ id v₁ found v
  have hv₀ : v₀.hub.Enrolled := run_enrolled (Hub.start_enrolled capacity keepalive) before
  have hinterval : v₀.hub.keepalive = keepalive := by
    show ((start capacity keepalive).run before).hub.keepalive = keepalive
    rw [run_hub, Hub.keepalive_run]
    rfl
  have hhoused : v₀.Housed := by
    refine Housed.run ⟨?_, ?_⟩ before
    · intro s hs
      cases hs
    · intro k hk
      cases hk
  have f₁ : v₁.Follows keepalive (v₀.now + keepalive) id [] := by
    have hserve := serve_follows hv₀ hhoused
    rw [hinterval] at hserve
    exact hserve
  have f : v.Follows keepalive (v₀.now + keepalive) id found := f₁.run acts
  have horder : Orderly keepalive v₀.now id v.now (v.hub.isClosed id) found :=
    f₁.orderly (orderly_nil keepalive id _) acts
  have hstream₁ : v₁.stream? id ≠ none := by
    have hopened : v₁.stream? id = some (v₀.hub.serve v₀.now).1 := stream?_new hhoused
    rw [hopened]
    exact Option.some_ne_none _
  have hgone : v.stream? id = none ↔ .drop id ∈ acts := by
    have hrun := f₁.stream?_run acts
    rwa [or_iff_right hstream₁] at hrun
  have hnew : v₁.hub.client? id = some { id, done := v₀.hub.stopped } := client?_new hv₀
  have hclosed₁ : v₁.hub.isClosed id = true ↔ .move .stop ∈ before := by
    have hfresh : ¬ (start capacity keepalive).hub.stopped = true := Bool.false_ne_true
    have hstopped : v₀.hub.stopped = true ↔ _ := stopped_run before (start capacity keepalive)
    rw [or_iff_right hfresh] at hstopped
    rw [Hub.isClosed, hnew, ← hstopped]
    rfl
  have hqueue : v₁.hub.queued id = [] := by
    rw [Hub.queued, hnew]
    rfl
  have hclosed := f₁.closed_run acts
  have haccount := f₁.enrolled.sound.account id (v₁.script acts)
  rw [hqueue, List.nil_append, ← run_hub, ← f₁.taken_run acts] at haccount
  refine ⟨fun hd => ?_, fun hd => ?_, ?_, horder.first, horder.once, ⟨_, haccount.symm, fun hopen => ?_⟩, horder.calm,
    horder.calm_after, horder.final, fun hover => ?_, fun a ha k hk => others_act ha hk v⟩
  · cases hs : v.stream? id with
    | none => exact absurd (hgone.mp hs) hd
    | some s =>
      have hid := clientId_of_stream? hs
      have hr := f.stream s hs
      rw [← hid] at hr
      rw [looks_of_stream hs, next_found hr, hid]
  · exact looks_of_gone (hgone.mpr hd)
  · rw [hclosed, hclosed₁, List.mem_append, or_assoc]
  · have hkept : .abandon id ∉ v₁.script acts := by
      intro habandon
      have hleft := (f₁.enrolled.closed_run f₁.known.1 f₁.known.2 (v₁.script acts)).mpr
        (.inr (.inr (f₁.unregister_mem habandon)))
      rw [← run_hub, hopen] at hleft
      cases hleft
    rw [Hub.dropped_of_listening hkept, List.nil_append]
  · rw [← f.enrolled.closed_iff f.known.1 f.known.2]
    rcases hover with ⟨x, hx, hend⟩ | hd
    · exact horder.ended x hx hend
    · exact hclosed.mpr (.inr (.inr (.inr hd)))

end Venue

end StackDeck
