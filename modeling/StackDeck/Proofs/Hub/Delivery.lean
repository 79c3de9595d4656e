import StackDeck.Proofs.Hub.Presence

/-!
What reaches a client: the events that were accepted for it, once each and in their order.
-/

namespace StackDeck

def Reception.found : Option Event → Reception
  | some e => .event e
  | none => .pending

def Reception.event? : Reception → Option Event
  | .event e => some e
  | _ => none

namespace Hub

/-- What a client finds when it looks at its queue. -/
def replies (id : Nat) (h : Hub) : Move → List Reception
  | .take k => if k = id then [.found (h.take id).1] else []
  | .receive k => if k = id then [(h.receive id).1] else []
  | _ => []

def taken (id : Nat) (h : Hub) (mv : Move) : List Event := (h.replies id mv).filterMap Reception.event?

/-- What is lost with the receiver of a client. -/
def dropped (id : Nat) (h : Hub) : Move → List Event
  | .abandon k => if k = id then h.queued id else []
  | _ => []

/-- What is handed to whoever hears it. A payload that cannot be written is handed to nobody. -/
def published : Move → List Event
  | .broadcast name (some data) => [⟨name, data⟩]
  | .notify name => [⟨name, .null⟩]
  | _ => []

/-- What is published while a client hears it, apart from what finds its queue full. -/
def accepted (id : Nat) (h : Hub) (mv : Move) : List Event :=
  if h.hears id && (h.queued id).length != h.limit then published mv else []

variable {h : Hub} {id k : Nat} {c : Client} {mv : Move} {moves : List Move}

theorem queued_eq (hc : h.client? id = some c) : h.queued id = c.queue := by
  rw [queued, hc, Option.map_some, Option.getD_some]

theorem queued_eq_nil (hc : h.client? id = none) : h.queued id = [] := by
  rw [queued, hc, Option.map_none, Option.getD_none]

theorem Sound.queued_length_le (hs : h.Sound) (id : Nat) : (h.queued id).length ≤ h.limit := by
  cases hc : h.client? id with
  | none =>
    rw [queued_eq_nil hc]
    exact Nat.zero_le _
  | some c =>
    rw [queued_eq hc]
    exact (hs.2 id c hc).length_le

theorem take_fst (id : Nat) (h : Hub) : (h.take id).1 = (h.queued id).head? := by
  rcases take_cases id h with ⟨hq, ht⟩ | ⟨c, e, r, hc, hq, ht⟩
  · rw [ht, hq, List.head?_nil]
  · rw [ht, queued_eq hc, hq, List.head?_cons]

theorem receive_fst (id : Nat) (h : Hub) :
    (h.receive id).1 = if h.isClosed id then .closed else .found (h.queued id).head? := by
  rcases receive_cases id h with ⟨hr, hd⟩ | ⟨⟨c, hc, hd⟩, hr⟩
  · have hclosed : h.isClosed id = true := by
      rw [isClosed, Option.all_eq_true]
      exact hd
    rw [hr, hclosed, if_pos rfl]
  · have hopen : h.isClosed id = false := by rw [isClosed, hc, Option.all_some, hd]
    rw [hr, hopen, if_neg Bool.false_ne_true, ← take_fst]
    cases (h.take id).1 <;> rfl

/-! ### One move -/

section

variable (hk : mv.caller = some k) (hne : k ≠ id)
include hk

theorem published_other : published mv = [] := by
  cases mv with
  | broadcast name data => cases hk
  | notify name => cases hk
  | _ => rfl

include hne

theorem replies_other : h.replies id mv = [] := by
  cases mv with
  | take j => cases hk; exact if_neg hne
  | receive j => cases hk; exact if_neg hne
  | _ => rfl

theorem dropped_other : h.dropped id mv = [] := by
  cases mv with
  | abandon j => cases hk; exact if_neg hne
  | _ => rfl

end

theorem event?_found (q : List Event) :
    [Reception.found q.head?].filterMap Reception.event? = q.take 1 := by
  cases q <;> rfl

theorem taken_take (id : Nat) (h : Hub) : h.taken id (.take id) = (h.queued id).take 1 := by
  simp only [taken, replies, if_true, take_fst, event?_found]

theorem taken_receive (id : Nat) (h : Hub) :
    h.taken id (.receive id) = if h.isClosed id then [] else (h.queued id).take 1 := by
  simp only [taken, replies, if_true, receive_fst]
  split
  · rfl
  · exact event?_found _

theorem accepted_of_deaf (hh : h.hears id = false) (mv : Move) : h.accepted id mv = [] := by
  rw [accepted, hh, Bool.false_and, if_neg Bool.false_ne_true]

theorem accepted_of_silent (hp : published mv = []) (id : Nat) (h : Hub) : h.accepted id mv = [] := by
  rw [accepted, hp, ite_self]

/-- What is offered to a client stands at the end of its queue if the client hears it and has room for it. -/
theorem offer_queue {e : Event} (hs : h.Sound) (hc : h.client? id = some c) (hp : published mv = [e]) :
    (if id ∈ h.registered then Client.offer h.limit e c else c).queue = c.queue ++ h.accepted id mv := by
  have hle := (hs.2 id c hc).length_le
  have hroom : decide (c.queue.length < h.limit) = (c.queue.length != h.limit) := by
    rw [Bool.eq_iff_iff, decide_eq_true_eq, bne_iff_ne]
    omega
  have hgoal : h.accepted id mv =
      if h.registered.contains id && c.listening && (c.queue.length != h.limit) then [e] else [] := by
    rw [accepted, hears, queued_eq hc, hc, hp, Option.any_some]
  rw [hgoal, ← hroom, List.contains_eq_mem, Client.offer]
  by_cases hm : id ∈ h.registered
  · simp only [hm, decide_true, Bool.true_and, if_true]
    split <;> simp
  · simp [hm]

theorem taken_of_empty (hq : h.queued id = []) (mv : Move) : h.taken id mv = [] := by
  cases mv with
  | take k =>
    by_cases he : k = id
    · rw [he, taken_take, hq, List.take_nil]
    · rw [taken, replies_other rfl he, List.filterMap_nil]
  | receive k =>
    by_cases he : k = id
    · rw [he, taken_receive, hq, List.take_nil, ite_self]
    · rw [taken, replies_other rfl he, List.filterMap_nil]
  | _ => rfl

/-- A move that looks at no queue of the client and drops none only adds what is accepted. -/
theorem flow_of_adds (ht : h.taken id mv = []) (hd : h.dropped id mv = [])
    (hq : (h.move mv).queued id = h.queued id ++ h.accepted id mv) :
    h.queued id ++ h.accepted id mv = h.taken id mv ++ (h.dropped id mv ++ (h.move mv).queued id) := by
  rw [ht, hd, hq, List.nil_append, List.nil_append]

/-- What one client does is nothing to another. -/
theorem flow_other (hk : mv.caller = some k) (hne : k ≠ id) :
    h.queued id ++ h.accepted id mv = h.taken id mv ++ (h.dropped id mv ++ (h.move mv).queued id) := by
  have ht : h.taken id mv = [] := by rw [taken, replies_other hk hne, List.filterMap_nil]
  refine flow_of_adds ht (dropped_other hk hne) ?_
  rw [accepted_of_silent (published_other hk), List.append_nil, queued, client?_other hk hne, queued]

/-- A number without a client has nothing to do with a move. -/
theorem flow_absent (hc : h.client? id = none) (hq : (h.move mv).queued id = []) :
    h.queued id ++ h.accepted id mv = h.taken id mv ++ (h.dropped id mv ++ (h.move mv).queued id) := by
  have hnil : h.queued id = [] := queued_eq_nil hc
  have hdeaf : h.hears id = false := by rw [hears, hc, Option.any_none, Bool.and_false]
  have htaken : h.taken id mv = [] := taken_of_empty hnil mv
  have hdropped : h.dropped id mv = [] := by
    cases mv with
    | abandon k => rw [dropped, hnil, ite_self]
    | _ => rfl
  rw [hnil, accepted_of_deaf hdeaf, htaken, hdropped, hq, List.append_nil, List.append_nil]

theorem Sound.flow_register (hs : h.Sound) :
    h.queued id ++ h.accepted id .register =
      h.taken id .register ++ (h.dropped id .register ++ (h.move .register).queued id) := by
  have hreg : (h.move .register).client? id = _ := client?_register id h hs.new
  by_cases he : id = h.issued + 1
  · have hnone : h.client? id = none := he ▸ hs.new
    rw [if_pos he] at hreg
    exact flow_absent hnone (queued_eq hreg)
  · rw [if_neg he] at hreg
    refine flow_of_adds rfl rfl ?_
    rw [queued, hreg, accepted_of_silent rfl, List.append_nil, queued]

/-- What a client does itself, and what is done for all, by the law of a queue. -/
theorem Sound.flow_present (hs : h.Sound) (hc : h.client? id = some c) (hmv : mv ≠ .register) :
    h.queued id ++ h.accepted id mv = h.taken id mv ++ (h.dropped id mv ++ (h.move mv).queued id) := by
  have hmove := client?_move hmv id h
  rw [hc, Option.map_some] at hmove
  have hq : h.queued id = c.queue := queued_eq hc
  have hq' : (h.move mv).queued id = (h.change id mv c).queue := queued_eq hmove
  cases mv with
  | register => exact absurd rfl hmv
  | unregister k =>
    refine flow_of_adds rfl rfl ?_
    rw [hq', hq, accepted_of_silent rfl, List.append_nil, change]
    split <;> rfl
  | broadcast name data =>
    refine flow_of_adds rfl rfl ?_
    cases data with
    | none =>
      rw [hq', hq, accepted_of_silent rfl, List.append_nil]
      rfl
    | some data =>
      rw [hq', hq]
      exact offer_queue hs hc rfl
  | notify name =>
    refine flow_of_adds rfl rfl ?_
    rw [hq', hq]
    exact offer_queue hs hc rfl
  | take k =>
    by_cases he : k = id
    · subst he
      have htail : (h.move (.take k)).queued k = c.queue.tail := by rw [hq', change, if_pos rfl]
      have hnone : h.dropped k (.take k) = [] := rfl
      rw [taken_take, accepted_of_silent rfl, htail, hq, hnone, List.append_nil, List.nil_append,
        ← List.drop_one, List.take_append_drop]
    · exact flow_other rfl he
  | receive k =>
    by_cases he : k = id
    · subst he
      have hclosed : h.isClosed k = c.done := by rw [isClosed, hc, Option.all_some]
      have hnone : h.dropped k (.receive k) = [] := rfl
      rw [taken_receive, accepted_of_silent rfl, hclosed, hq, hnone, List.append_nil, List.nil_append, hq', change]
      cases hd : c.done with
      | true => simp
      | false => simp only [and_self, if_true, Bool.false_eq_true, if_false, ← List.drop_one, List.take_append_drop]
    · exact flow_other rfl he
  | abandon k =>
    by_cases he : k = id
    · subst he
      have hnil : (h.move (.abandon k)).queued k = [] := by rw [hq', change, if_pos rfl]
      have hall : h.dropped k (.abandon k) = h.queued k := if_pos rfl
      have hnone : h.taken k (.abandon k) = [] := rfl
      rw [accepted_of_silent rfl, hnone, hall, hnil, List.nil_append]
    · exact flow_other rfl he
  | stop =>
    refine flow_of_adds rfl rfl ?_
    rw [hq', hq, accepted_of_silent rfl, List.append_nil, change]
    split <;> rfl

/-- The queue of a client loses at its head what is taken or dropped, and grows at its end by what is accepted. -/
theorem Sound.flow (hs : h.Sound) (id : Nat) (mv : Move) :
    h.queued id ++ h.accepted id mv = h.taken id mv ++ (h.dropped id mv ++ (h.move mv).queued id) := by
  by_cases hmv : mv = .register
  · rw [hmv]
    exact hs.flow_register
  · cases hc : h.client? id with
    | none =>
      have hmove := client?_move hmv id h
      rw [hc, Option.map_none] at hmove
      exact flow_absent hc (queued_eq_nil hmove)
    | some c => exact hs.flow_present hc hmv

/-! ### Clients that are closed, or that nobody listens to -/

/-- A client that was closed stays closed, and a receiver that is gone does not come back. -/
structure Client.Later (c c' : Client) : Prop where
  closed : c.done = true → c'.done = true
  deserted : c.listening = false → c'.listening = false

theorem offer_later (limit : Nat) (e : Event) (c : Client) : Client.Later c (Client.offer limit e c) := by
  unfold Client.offer
  split <;> exact ⟨fun hd => hd, fun hl => hl⟩

theorem change_later (h : Hub) (id : Nat) (mv : Move) (c : Client) : Client.Later c (h.change id mv c) := by
  have same : Client.Later c c := ⟨fun hd => hd, fun hl => hl⟩
  cases mv with
  | register => exact same
  | unregister k =>
    simp only [change]
    split
    · exact ⟨fun _ => rfl, fun hl => hl⟩
    · exact same
  | broadcast name data =>
    cases data with
    | none => exact same
    | some data =>
      simp only [change]
      split
      · exact offer_later _ _ c
      · exact same
  | notify name =>
    simp only [change]
    split
    · exact offer_later _ _ c
    · exact same
  | take k =>
    simp only [change]
    split
    · exact ⟨fun hd => hd, fun hl => hl⟩
    · exact same
  | receive k =>
    simp only [change]
    split
    · exact ⟨fun hd => hd, fun hl => hl⟩
    · exact same
  | abandon k =>
    simp only [change]
    split
    · exact ⟨fun hd => hd, fun _ => rfl⟩
    · exact same
  | stop =>
    simp only [change]
    split
    · exact ⟨fun _ => rfl, fun hl => hl⟩
    · exact same

theorem Sound.client_later (hs : h.Sound) (hc : h.client? id = some c) (mv : Move) :
    ∃ c', (h.move mv).client? id = some c' ∧ Client.Later c c' := by
  by_cases hmv : mv = .register
  · have hold : id ≠ h.issued + 1 := by
      have := (hs.2 id c hc).known
      omega
    have hreg := client?_register id h hs.new
    rw [if_neg hold, hc] at hreg
    exact ⟨c, hmv ▸ hreg, fun hd => hd, fun hl => hl⟩
  · refine ⟨h.change id mv c, ?_, change_later h id mv c⟩
    rw [client?_move hmv, hc, Option.map_some]

/-- A client that was closed hears nothing more, and finds out whenever it heeds it. -/
theorem Sound.closed_for_ever (hs : h.Sound) (hc : h.client? id = some c) (hd : c.done = true) (moves : List Move) :
    h.observe (accepted id) moves = [] ∧ (h.run moves).isClosed id = true := by
  induction moves generalizing h c with
  | nil =>
    refine ⟨rfl, ?_⟩
    show h.isClosed id = true
    rw [isClosed, hc, Option.all_some, hd]
  | cons mv r ih =>
    have hgone : id ∉ h.registered := fun hm => by
      have hopen := (hs.2 id c hc).opened.mp hm
      rw [hd] at hopen
      cases hopen
    have hdeaf : h.hears id = false := by
      rw [hears, List.contains_eq_mem, decide_eq_false hgone, Bool.false_and]
    obtain ⟨c', hc', hlater⟩ := hs.client_later hc mv
    obtain ⟨hnone, hclosed⟩ := ih (hs.move mv) hc' (hlater.closed hd)
    refine ⟨?_, hclosed⟩
    rw [observe, accepted_of_deaf hdeaf, hnone, List.append_nil]

/-- Once something was lost with its receiver, a client has nothing to take. -/
theorem Sound.nothing_after_loss (hs : h.Sound) (id : Nat) (moves : List Move) :
    h.observe (dropped id) moves = [] ∨ ∃ c, (h.run moves).client? id = some c ∧ c.listening = false := by
  induction moves using List.reverseRecOn with
  | nil => exact .inl rfl
  | append_singleton ms mv ih =>
    have hs' := hs.run ms
    rw [observe_concat, run_concat]
    rcases ih with hnone | ⟨c, hc, hl⟩
    · rw [hnone, List.nil_append]
      cases mv with
      | abandon k =>
        by_cases he : k = id
        · subst he
          cases hc : (h.run ms).client? k with
          | none =>
            refine .inl ?_
            rw [dropped, if_pos rfl, queued_eq_nil hc]
          | some c =>
            have hmv : Move.abandon k ≠ .register := nofun
            have hmove := client?_move hmv k (h.run ms)
            rw [hc, Option.map_some] at hmove
            refine .inr ⟨_, hmove, ?_⟩
            rw [change, if_pos rfl]
        · exact .inl (dropped_other rfl he)
      | _ => exact .inl rfl
    · obtain ⟨c', hc', hlater⟩ := hs'.client_later hc mv
      exact .inr ⟨c', hc', hlater.deserted hl⟩

theorem dropped_of_listening (ha : .abandon id ∉ moves) (h : Hub) : h.observe (dropped id) moves = [] := by
  refine observe_eq_nil fun mv hm h => ?_
  cases mv with
  | abandon k =>
    have hne : k ≠ id := fun he => ha (he ▸ hm)
    exact dropped_other rfl hne
  | _ => rfl

/-- What is accepted for a client along a run is what it took, what was lost with its receiver, and what is
queued, in this order. -/
theorem Sound.account (hs : h.Sound) (id : Nat) (moves : List Move) :
    h.queued id ++ h.observe (accepted id) moves =
      h.observe (taken id) moves ++ (h.observe (dropped id) moves ++ (h.run moves).queued id) := by
  induction moves using List.reverseRecOn with
  | nil => exact List.append_nil _
  | append_singleton ms mv ih =>
    have hs' := hs.run ms
    have hflow := hs'.flow id mv
    -- what is lost stands before what is taken only if one of them is nothing
    have hswap : h.observe (dropped id) ms ++ (h.run ms).taken id mv =
        (h.run ms).taken id mv ++ h.observe (dropped id) ms := by
      rcases hs.nothing_after_loss id ms with hnone | ⟨c, hc, hl⟩
      · rw [hnone, List.append_nil, List.nil_append]
      · have hq : (h.run ms).queued id = [] := (queued_eq hc).trans ((hs'.2 id c hc).dropped hl)
        rw [taken_of_empty hq, List.append_nil, List.nil_append]
    rw [observe_concat, observe_concat, observe_concat, run_concat]
    calc h.queued id ++ (h.observe (accepted id) ms ++ (h.run ms).accepted id mv)
        = h.observe (taken id) ms ++ h.observe (dropped id) ms ++
            ((h.run ms).queued id ++ (h.run ms).accepted id mv) := by
          rw [← List.append_assoc, ih]
          simp only [List.append_assoc]
      _ = h.observe (taken id) ms ++ (h.observe (dropped id) ms ++ (h.run ms).taken id mv) ++
            ((h.run ms).dropped id mv ++ ((h.run ms).move mv).queued id) := by
          rw [hflow]
          simp only [List.append_assoc]
      _ = _ := by
          rw [hswap]
          simp only [List.append_assoc]

/-- Whoever looks as often as there is something queued finds it all. -/
theorem drains (id : Nat) (h : Hub) :
    h.observe (taken id) (List.replicate (h.queued id).length (.take id)) = h.queued id := by
  induction hn : (h.queued id).length generalizing h with
  | zero => exact (List.eq_nil_of_length_eq_zero hn).symm
  | succ n ih =>
    have hnext : (h.move (.take id)).queued id = (h.queued id).tail := by
      have hmv : Move.take id ≠ .register := nofun
      have hmove := client?_move hmv id h
      rw [queued, hmove, queued]
      cases h.client? id with
      | none => rfl
      | some c => simp [change]
    have hlen : ((h.move (.take id)).queued id).length = n := by rw [hnext, List.length_tail, hn, Nat.add_sub_cancel]
    rw [List.replicate_succ, observe, taken_take, ih _ hlen, hnext, ← List.drop_one, List.take_append_drop]

end Hub

end StackDeck
