import StackDeck.Hub.Basic
import StackDeck.Proofs.Keyed

/-!
Runs of a hub with any number of clients, in any order.
-/

namespace StackDeck.Hub

inductive Move where
  | register
  | unregister (id : Nat)
  /-- A payload that cannot be written is none. -/
  | broadcast (name : String) (data : Option Json)
  | notify (name : String)
  /-- A look at a queue, and a look that heeds that the client was closed. -/
  | take (id : Nat)
  | receive (id : Nat)
  /-- The receiver of a client is dropped. -/
  | abandon (id : Nat)
  | stop

def start (capacity keepalive : Nat) : Hub := { capacity, keepalive }

def move (h : Hub) : Move → Hub
  | .register => h.register.2
  | .unregister id => h.unregister id
  | .broadcast name data => h.broadcast name data
  | .notify name => h.notify name
  | .take id => (h.take id).2
  | .receive id => (h.receive id).2
  | .abandon id => h.abandon id
  | .stop => h.stop

def run (moves : List Move) (h : Hub) : Hub := moves.foldl move h

/-- What is noted move by move along a run. -/
def observe {α : Type} (note : Hub → Move → List α) (h : Hub) : List Move → List α
  | [] => []
  | mv :: r => note h mv ++ (h.move mv).observe note r

section

variable {α : Type} {note : Hub → Move → List α} {h : Hub}

theorem run_append (ms ns : List Move) (h : Hub) : h.run (ms ++ ns) = (h.run ms).run ns := List.foldl_append

theorem run_concat (ms : List Move) (mv : Move) (h : Hub) : h.run (ms ++ [mv]) = (h.run ms).move mv := by
  rw [run_append]
  rfl

theorem observe_append (ms ns : List Move) (h : Hub) :
    h.observe note (ms ++ ns) = h.observe note ms ++ (h.run ms).observe note ns := by
  induction ms generalizing h with
  | nil => rfl
  | cons mv r ih =>
    simp only [List.cons_append, observe, ih (h.move mv), List.append_assoc]
    rfl

theorem observe_concat (ms : List Move) (mv : Move) (h : Hub) :
    h.observe note (ms ++ [mv]) = h.observe note ms ++ note (h.run ms) mv := by
  rw [observe_append]
  simp [observe]

theorem observe_eq_nil {ms : List Move} (hnote : ∀ mv ∈ ms, ∀ h, note h mv = []) : h.observe note ms = [] := by
  induction ms generalizing h with
  | nil => rfl
  | cons mv r ih =>
    rw [observe, hnote mv (by simp), ih fun mv' hm => hnote mv' (by simp [hm]), List.append_nil]

end

/-! ### One client -/

variable {h : Hub} {id k : Nat} {c : Client} {mv : Move}

theorem mem_of_client? (hc : h.client? id = some c) : c ∈ h.clients ∧ c.id = id := mem_of_find?_key hc

theorem client?_map {g : Client → Client} (hg : ∀ c, (g c).id = c.id) (id : Nat) :
    { h with clients := h.clients.map g }.client? id = (h.client? id).map g :=
  find?_map_key hg

theorem client?_modify {f : Client → Client} (hf : ∀ c, (f c).id = c.id) (k id : Nat) (h : Hub) :
    (h.modify k f).client? id = (h.client? id).map fun c => if k == id then f c else c :=
  find?_map_at hf

theorem offer_id (limit : Nat) (e : Event) (c : Client) : (Client.offer limit e c).id = c.id := by
  unfold Client.offer
  split <;> rfl

/-- What a move makes of the client of a number that is known. -/
def change (h : Hub) (id : Nat) : Move → Client → Client
  | .unregister k, c => if k = id ∧ id ∈ h.registered then { c with done := true } else c
  | .broadcast name (some data), c => if id ∈ h.registered then Client.offer h.limit ⟨name, data⟩ c else c
  | .notify name, c => if id ∈ h.registered then Client.offer h.limit ⟨name, .null⟩ c else c
  | .take k, c => if k = id then { c with queue := c.queue.tail } else c
  | .receive k, c => if k = id ∧ c.done = false then { c with queue := c.queue.tail } else c
  | .abandon k, c => if k = id then { c with listening := false, queue := [] } else c
  | .stop, c => if id ∈ h.registered then { c with done := true } else c
  | _, c => c

theorem client?_broadcast (name : String) (data : Json) (id : Nat) (h : Hub) :
    (h.broadcast name (some data)).client? id =
      (h.client? id).map fun c => if id ∈ h.registered then Client.offer h.limit ⟨name, data⟩ c else c := by
  have hg (c : Client) : (if h.registered.contains c.id then Client.offer h.limit ⟨name, data⟩ c else c).id = c.id := by
    split
    · exact offer_id _ _ c
    · rfl
  refine (client?_map hg id).trans (Option.map_congr fun c hc => ?_)
  simp [(mem_of_client? hc).2]

/-- What is queued for a client. -/
def queued (id : Nat) (h : Hub) : List Event := ((h.client? id).map Client.queue).getD []

theorem take_cases (id : Nat) (h : Hub) :
    (h.queued id = [] ∧ h.take id = (none, h)) ∨ ∃ c e r, h.client? id = some c ∧ c.queue = e :: r ∧
      h.take id = (some e, h.modify id fun c => { c with queue := r }) := by
  unfold take queued
  cases hc : h.client? id with
  | none => exact .inl ⟨rfl, rfl⟩
  | some c =>
    obtain ⟨id', queue, done, listening⟩ := c
    cases queue with
    | nil => exact .inl ⟨rfl, rfl⟩
    | cons e r => exact .inr ⟨_, e, r, rfl, rfl, rfl⟩

theorem client?_take (k id : Nat) (h : Hub) : (h.take k).2.client? id =
    (h.client? id).map fun c => if k = id then { c with queue := c.queue.tail } else c := by
  rcases take_cases k h with ⟨hq, ht⟩ | ⟨c', e, r, hc', hq, ht⟩
  · rw [ht]
    cases hc : h.client? id with
    | none => rfl
    | some c =>
      by_cases he : k = id
      · subst he
        have hq : c.queue = [] := by rwa [queued, hc] at hq
        obtain ⟨id, queue, done, listening⟩ := c
        cases hq
        simp
      · simp [he]
  · rw [ht]
    refine (client?_modify (f := fun c => { c with queue := r }) (fun _ => rfl) k id h).trans
      (Option.map_congr fun c hc => ?_)
    by_cases he : k = id
    · rw [← he] at hc
      cases Option.some.inj (hc'.symm.trans hc)
      simp [he, hq]
    · simp [he]

theorem receive_cases (id : Nat) (h : Hub) :
    (h.receive id = (.closed, h) ∧ ∀ c, h.client? id = some c → c.done = true) ∨
    (∃ c, h.client? id = some c ∧ c.done = false) ∧
      h.receive id = (match (h.take id).1 with | some e => .event e | none => .pending, (h.take id).2) := by
  unfold receive
  cases hc : h.client? id with
  | none => exact .inl ⟨rfl, nofun⟩
  | some c =>
    cases hd : c.done with
    | true =>
      refine .inl ⟨by simp [hd], fun c' hc' => ?_⟩
      rw [← Option.some.inj hc']
      exact hd
    | false =>
      refine .inr ⟨⟨c, rfl, hd⟩, ?_⟩
      simp only [hd]
      cases (h.take id) with
      | mk e? h' => cases e? <;> rfl

/-- A move other than a registration finds the clients where they were, and changes one of a number by itself. -/
theorem client?_move (hmv : mv ≠ .register) (id : Nat) (h : Hub) :
    (h.move mv).client? id = (h.client? id).map (h.change id mv) := by
  have same : h.client? id = (h.client? id).map fun c => c := Option.map_id'.symm
  cases mv with
  | register => exact absurd rfl hmv
  | unregister k =>
    simp only [move, unregister, List.contains_iff_mem]
    by_cases hk : k ∈ h.registered
    · rw [if_pos hk]
      refine (client?_modify (f := fun c => { c with done := true }) (fun _ => rfl) k id _).trans
        (Option.map_congr fun c _ => ?_)
      by_cases he : k = id
      · subst he
        simp [change, hk]
      · simp [change, he]
    · rw [if_neg hk]
      refine same.trans (Option.map_congr fun c _ => ?_)
      by_cases he : k = id
      · subst he
        simp [change, hk]
      · simp [change, he]
  | broadcast name data =>
    cases data with
    | none => exact same
    | some data => exact client?_broadcast name data id h
  | notify name => exact client?_broadcast name .null id h
  | take k => exact client?_take k id h
  | receive k =>
    show (h.receive k).2.client? id = _
    rcases receive_cases k h with ⟨hr, hd⟩ | ⟨⟨c', hc', hd⟩, hr⟩
    · rw [hr]
      refine same.trans (Option.map_congr fun c hc => ?_)
      by_cases he : k = id
      · subst he
        simp [change, hd c hc]
      · simp [change, he]
    · rw [hr]
      refine (client?_take k id h).trans (Option.map_congr fun c hc => ?_)
      by_cases he : k = id
      · subst he
        cases Option.some.inj (hc'.symm.trans hc)
        simp [change, hd]
      · simp [change, he]
  | abandon k =>
    refine (client?_modify (f := fun c => { c with listening := false, queue := [] }) (fun _ => rfl) k id h).trans
      (Option.map_congr fun c _ => ?_)
    simp [change]
  | stop =>
    have hg (c : Client) : (if h.registered.contains c.id then { c with done := true } else c).id = c.id := by
      split <;> rfl
    refine (client?_map hg id).trans (Option.map_congr fun c hc => ?_)
    simp [change, (mem_of_client? hc).2]

/-- A client is registered under a number of its own. -/
theorem client?_register (id : Nat) (h : Hub) (hnew : h.client? (h.issued + 1) = none) :
    h.register.2.client? id = if id = h.issued + 1 then some { id, done := h.stopped } else h.client? id := by
  have happ : h.register.2.client? id = (h.client? id).or
      (([{ id := h.issued + 1, done := h.stopped }] : List Client).find? fun c => c.id == id) := List.find?_append
  rw [happ]
  by_cases he : id = h.issued + 1
  · subst he
    simp [hnew]
  · have hne : h.issued + 1 ≠ id := fun hh => he hh.symm
    cases h.client? id <;> simp [he, hne]

/-- What stays as it was while nobody registers, leaves or is told to stop. -/
structure Same (h h' : Hub) : Prop where
  capacity : h'.capacity = h.capacity
  issued : h'.issued = h.issued
  stopped : h'.stopped = h.stopped
  registered : h'.registered = h.registered

theorem take_same (k : Nat) (h : Hub) : Same h (h.take k).2 := by
  rcases take_cases k h with ⟨-, ht⟩ | ⟨c, e, r, -, -, ht⟩
  · rw [ht]
    exact ⟨rfl, rfl, rfl, rfl⟩
  · rw [ht]
    exact ⟨rfl, rfl, rfl, rfl⟩

theorem receive_same (k : Nat) (h : Hub) : Same h (h.receive k).2 := by
  rcases receive_cases k h with ⟨hr, -⟩ | ⟨-, hr⟩
  · rw [hr]
    exact ⟨rfl, rfl, rfl, rfl⟩
  · rw [hr]
    exact take_same k h

theorem broadcast_same (name : String) (data : Option Json) (h : Hub) : Same h (h.broadcast name data) := by
  cases data <;> exact ⟨rfl, rfl, rfl, rfl⟩

theorem abandon_same (k : Nat) (h : Hub) : Same h (h.abandon k) := ⟨rfl, rfl, rfl, rfl⟩

/-- Which clients are registered after a move. -/
theorem mem_registered_move (mv : Move) (id : Nat) (h : Hub) : id ∈ (h.move mv).registered ↔
    match mv with
    | .register => id ∈ h.registered ∨ (id = h.issued + 1 ∧ h.stopped = false)
    | .unregister k => id ∈ h.registered ∧ k ≠ id
    | .stop => False
    | _ => id ∈ h.registered := by
  cases mv with
  | register =>
    simp only [move, register, enroll]
    cases h.stopped <;> simp
  | unregister k =>
    simp only [move, unregister, List.contains_iff_mem]
    by_cases hk : k ∈ h.registered
    · rw [if_pos hk]
      show id ∈ h.registered.filter (· != k) ↔ _
      simp only [List.mem_filter, bne_iff_ne, ne_comm]
    · rw [if_neg hk]
      exact (and_iff_left_of_imp fun (hm : id ∈ h.registered) (he : k = id) => hk (he ▸ hm)).symm
  | broadcast name data => exact (broadcast_same name data h).registered ▸ Iff.rfl
  | notify name => rfl
  | take k => exact (take_same k h).registered ▸ Iff.rfl
  | receive k => exact (receive_same k h).registered ▸ Iff.rfl
  | abandon k => rfl
  | stop => simp [move, stop]

theorem capacity_move (mv : Move) (h : Hub) : (h.move mv).capacity = h.capacity := by
  cases mv with
  | unregister k =>
    simp only [move, unregister]
    split <;> rfl
  | broadcast name data => exact (broadcast_same name data h).capacity
  | take k => exact (take_same k h).capacity
  | receive k => exact (receive_same k h).capacity
  | _ => rfl

theorem limit_move (mv : Move) (h : Hub) : (h.move mv).limit = h.limit := by
  rw [limit, capacity_move, limit]

theorem limit_run (ms : List Move) (h : Hub) : (h.run ms).limit = h.limit := by
  induction ms generalizing h with
  | nil => rfl
  | cons mv r ih => exact (ih (h.move mv)).trans (limit_move mv h)

theorem issued_move (mv : Move) (h : Hub) :
    (h.move mv).issued = match mv with
      | .register => h.issued + 1
      | _ => h.issued := by
  cases mv with
  | unregister k =>
    simp only [move, unregister]
    split <;> rfl
  | broadcast name data => exact (broadcast_same name data h).issued
  | take k => exact (take_same k h).issued
  | receive k => exact (receive_same k h).issued
  | _ => rfl

theorem issued_of_ne_register (hmv : mv ≠ .register) : (h.move mv).issued = h.issued := by
  rw [issued_move]
  cases mv with
  | register => exact absurd rfl hmv
  | _ => rfl

theorem stopped_move (mv : Move) (h : Hub) :
    (h.move mv).stopped = match mv with
      | .stop => true
      | _ => h.stopped := by
  cases mv with
  | unregister k =>
    simp only [move, unregister]
    split <;> rfl
  | broadcast name data => exact (broadcast_same name data h).stopped
  | take k => exact (take_same k h).stopped
  | receive k => exact (receive_same k h).stopped
  | _ => rfl

/-! ### What holds in every run -/

/-- A client is closed exactly if it is not registered, and one without a receiver has nothing queued. -/
structure Client.Fit (h : Hub) (id : Nat) (c : Client) : Prop where
  id_eq : c.id = id
  known : 1 ≤ id ∧ id ≤ h.issued
  opened : id ∈ h.registered ↔ c.done = false
  dropped : c.listening = false → c.queue = []
  length_le : c.queue.length ≤ h.limit

def Sound (h : Hub) : Prop :=
  (∀ id ∈ h.registered, id ≤ h.issued) ∧ ∀ id c, h.client? id = some c → Client.Fit h id c

theorem Sound.new (hs : h.Sound) : h.client? (h.issued + 1) = none := by
  cases hc : h.client? (h.issued + 1) with
  | none => rfl
  | some c =>
    have hknown := (hs.2 _ c hc).known
    omega

theorem offer_fit (hc : Client.Fit h id c) (e : Event) : Client.Fit h id (Client.offer h.limit e c) := by
  unfold Client.offer
  split
  next hl =>
    simp only [Bool.and_eq_true, decide_eq_true_eq] at hl
    refine ⟨hc.id_eq, hc.known, hc.opened, fun hd => ?_, ?_⟩
    · have hd : c.listening = false := hd
      rw [hd] at hl
      cases hl.1
    · show (c.queue ++ [e]).length ≤ h.limit
      rw [List.length_append]
      exact hl.2
  next => exact hc

theorem tail_fit (hc : Client.Fit h id c) : Client.Fit h id { c with queue := c.queue.tail } := by
  refine ⟨hc.id_eq, hc.known, hc.opened, fun hd => ?_, ?_⟩
  · show c.queue.tail = []
    rw [hc.dropped hd, List.tail_nil]
  · show c.queue.tail.length ≤ h.limit
    rw [List.length_tail]
    exact Nat.le_trans (Nat.sub_le _ _) hc.length_le

section

variable {h' : Hub} (hc : Client.Fit h id c) (hissued : h.issued ≤ h'.issued) (hlimit : h'.limit = h.limit)
include hc hissued hlimit

theorem keep_fit (hreg : id ∈ h'.registered ↔ id ∈ h.registered) : Client.Fit h' id c :=
  ⟨hc.id_eq, ⟨hc.known.1, Nat.le_trans hc.known.2 hissued⟩, hreg.trans hc.opened, hc.dropped,
    hlimit.symm ▸ hc.length_le⟩

/-- A client that is told to stop is registered no more. -/
theorem done_fit (hno : id ∉ h'.registered) : Client.Fit h' id { c with done := true } :=
  ⟨hc.id_eq, ⟨hc.known.1, Nat.le_trans hc.known.2 hissued⟩, ⟨fun hm => absurd hm hno, nofun⟩, hc.dropped,
    hlimit.symm ▸ hc.length_le⟩

end

theorem change_fit (hc : Client.Fit h id c) (hmv : mv ≠ .register) :
    Client.Fit (h.move mv) id (h.change id mv c) := by
  have hissued : h.issued ≤ (h.move mv).issued := Nat.le_of_eq (issued_of_ne_register hmv).symm
  have hlimit : (h.move mv).limit = h.limit := limit_move mv h
  have hreg := mem_registered_move mv id h
  cases mv with
  | register => exact absurd rfl hmv
  | unregister k =>
    simp only [change]
    split
    next hk => exact done_fit hc hissued hlimit fun hm => (hreg.mp hm).2 hk.1
    next hk => exact keep_fit hc hissued hlimit (hreg.trans (and_iff_left_of_imp fun hm he => hk ⟨he, hm⟩))
  | broadcast name data =>
    cases data with
    | none => exact keep_fit hc hissued hlimit hreg
    | some data =>
      simp only [change]
      split
      next => exact keep_fit (offer_fit hc _) hissued hlimit hreg
      next => exact keep_fit hc hissued hlimit hreg
  | notify name =>
    simp only [change]
    split
    next => exact keep_fit (offer_fit hc _) hissued hlimit hreg
    next => exact keep_fit hc hissued hlimit hreg
  | take k =>
    simp only [change]
    split
    next => exact keep_fit (tail_fit hc) hissued hlimit hreg
    next => exact keep_fit hc hissued hlimit hreg
  | receive k =>
    simp only [change]
    split
    next => exact keep_fit (tail_fit hc) hissued hlimit hreg
    next => exact keep_fit hc hissued hlimit hreg
  | abandon k =>
    have hgone : Client.Fit h id { c with listening := false, queue := [] } :=
      ⟨hc.id_eq, hc.known, hc.opened, fun _ => rfl, Nat.zero_le _⟩
    simp only [change]
    split
    next => exact keep_fit hgone hissued hlimit hreg
    next => exact keep_fit hc hissued hlimit hreg
  | stop =>
    simp only [change]
    split
    next => exact done_fit hc hissued hlimit hreg.mp
    next hm => exact keep_fit hc hissued hlimit (hreg.trans (iff_of_false not_false hm))

theorem Sound.move_register (hs : h.Sound) : (h.move .register).Sound := by
  have hmem := fun id => mem_registered_move .register id h
  have hissued : (h.move .register).issued = h.issued + 1 := issued_move _ h
  refine ⟨fun id hid => ?_, fun id c hc => ?_⟩
  · rw [hissued]
    rcases (hmem id).mp hid with hid | ⟨hid, -⟩
    · exact Nat.le_succ_of_le (hs.1 id hid)
    · exact Nat.le_of_eq hid
  · have hc : h.register.2.client? id = some c := hc
    rw [client?_register id h hs.new] at hc
    split at hc
    next he =>
      have hnew : id ∈ (h.move .register).registered ↔ h.stopped = false := by
        refine (hmem id).trans ⟨fun hm => ?_, fun hstop => .inr ⟨he, hstop⟩⟩
        rcases hm with hm | ⟨-, hm⟩
        · have := hs.1 id hm
          omega
        · exact hm
      rw [← Option.some.inj hc]
      exact ⟨rfl, ⟨by omega, by omega⟩, hnew, nofun, Nat.zero_le _⟩
    next he =>
      have hsame : id ∈ (h.move .register).registered ↔ id ∈ h.registered :=
        (hmem id).trans (or_iff_left fun hh => he hh.1)
      exact keep_fit (hs.2 id c hc) (by omega) (limit_move _ h) hsame

theorem Sound.move (hs : h.Sound) (mv : Move) : (h.move mv).Sound := by
  by_cases hmv : mv = .register
  · rw [hmv]
    exact hs.move_register
  · refine ⟨fun id hid => ?_, fun id c hc => ?_⟩
    · have hold : id ∈ h.registered := by
        rw [mem_registered_move] at hid
        cases mv with
        | register => exact absurd rfl hmv
        | unregister k => exact hid.1
        | stop => exact hid.elim
        | _ => exact hid
      rw [issued_of_ne_register hmv]
      exact hs.1 id hold
    · rw [client?_move hmv] at hc
      obtain ⟨c, hc', rfl⟩ := Option.map_eq_some_iff.mp hc
      exact change_fit (hs.2 id c hc') hmv

theorem start_sound (capacity keepalive : Nat) : (start capacity keepalive).Sound :=
  ⟨nofun, nofun⟩

theorem Sound.run (hs : h.Sound) (moves : List Move) : (h.run moves).Sound := by
  induction moves generalizing h with
  | nil => exact hs
  | cons mv r ih => exact ih (hs.move mv)

end StackDeck.Hub
