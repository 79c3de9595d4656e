import StackDeck.Proofs.Hub.Venue

/-!
The registry of a hub and the signals of its clients agree, whoever closed a client.
-/

namespace StackDeck

namespace Hub

variable {h : Hub} {id : Nat}

/-- The registry after a move. -/
theorem registered_move (mv : Move) (h : Hub) : (h.move mv).registered =
    match mv with
    | .register => if h.stopped then h.registered else h.registered ++ [h.issued + 1]
    | .unregister k => h.registered.filter (· != k)
    | .stop => []
    | _ => h.registered := by
  cases mv with
  | unregister k =>
    simp only [move, unregister, List.contains_iff_mem]
    by_cases hk : k ∈ h.registered
    · rw [if_pos hk]
      rfl
    · rw [if_neg hk]
      have hall : ∀ id ∈ h.registered, (id != k) = true := by
        intro id hid
        rw [bne_iff_ne]
        rintro rfl
        exact hk hid
      exact (List.filter_eq_self.mpr hall).symm
  | broadcast name data => exact (broadcast_same name data h).registered
  | take k => exact (take_same k h).registered
  | receive k => exact (receive_same k h).registered
  | _ => rfl

theorem modify_ids {f : Client → Client} (hf : ∀ c, (f c).id = c.id) (k : Nat) (h : Hub) :
    (h.modify k f).clients.map Client.id = h.clients.map Client.id := by
  rw [modify, List.map_map]
  refine List.map_congr_left fun c _ => ?_
  rw [Function.comp_apply]
  split
  · exact hf c
  · rfl

theorem take_ids (k : Nat) (h : Hub) : (h.take k).2.clients.map Client.id = h.clients.map Client.id := by
  rcases take_cases k h with ⟨-, ht⟩ | ⟨c, e, r, -, -, ht⟩
  · rw [ht]
  · rw [ht]
    exact modify_ids (f := fun c => { c with queue := r }) (fun _ => rfl) k h

/-- Clients stay where they are. -/
theorem ids_move (mv : Move) (h : Hub) : (h.move mv).clients.map Client.id =
    match mv with
    | .register => h.clients.map Client.id ++ [h.issued + 1]
    | _ => h.clients.map Client.id := by
  have hmap {g : Client → Client} (hg : ∀ c, (g c).id = c.id) :
      (h.clients.map g).map Client.id = h.clients.map Client.id := by
    rw [List.map_map]
    exact List.map_congr_left fun c _ => hg c
  cases mv with
  | register => exact List.map_append
  | unregister k =>
    simp only [move, unregister]
    split
    · exact modify_ids (f := fun c => { c with done := true }) (fun _ => rfl) k _
    · rfl
  | broadcast name data =>
    cases data with
    | none => rfl
    | some data =>
      refine hmap fun c => ?_
      split
      · exact offer_id _ _ c
      · rfl
  | notify name =>
    refine hmap fun c => ?_
    split
    · exact offer_id _ _ c
    · rfl
  | take k => exact take_ids k h
  | receive k =>
    simp only [move]
    rcases receive_cases k h with ⟨hr, -⟩ | ⟨-, hr⟩
    · rw [hr]
    · rw [hr]
      exact take_ids k h
  | abandon k => exact modify_ids (f := fun c => { c with listening := false, queue := [] }) (fun _ => rfl) k h
  | stop =>
    refine hmap fun c => ?_
    split <;> rfl

/-- Clients are numbered in their order, none is registered twice, and nobody is on a stopped hub. -/
structure Enrolled (h : Hub) : Prop where
  sound : h.Sound
  ids : h.clients.map Client.id = List.range' 1 h.issued
  known : ∀ id ∈ h.registered, 1 ≤ id ∧ id ≤ h.issued
  nodup : h.registered.Nodup
  stopped : h.stopped = true → h.registered = []

theorem start_enrolled (capacity keepalive : Nat) : (start capacity keepalive).Enrolled := by
  exact ⟨start_sound capacity keepalive, rfl, nofun, List.nodup_nil, fun _ => rfl⟩

theorem Enrolled.move_register (h₁ : h.Enrolled) : (h.move .register).Enrolled := by
  have hissued : (h.move .register).issued = h.issued + 1 := issued_move _ h
  have hreg : (h.move .register).registered = _ := registered_move .register h
  refine ⟨h₁.sound.move _, ?_, ?_, ?_, ?_⟩
  · have hnext : h.issued + 1 = 1 + h.issued := Nat.add_comm _ _
    rw [ids_move, hissued, List.range'_1_concat, ← h₁.ids, hnext]
  · intro id hid
    have hmem := (mem_registered_move .register id h).mp hid
    rw [hissued]
    rcases hmem with hold | ⟨hnew, -⟩
    · have hk := h₁.known id hold
      omega
    · omega
  · have hfresh : h.issued + 1 ∉ h.registered := by
      intro hm
      have hk := h₁.known _ hm
      omega
    rw [hreg]
    dsimp only
    split
    · exact h₁.nodup
    · exact List.nodup_append.mpr ⟨h₁.nodup, List.nodup_singleton _, by
        intro a ha b hb hab
        rw [List.mem_singleton.mp hb] at hab
        exact hfresh (hab ▸ ha)⟩
  · intro hstop
    have hstop : h.stopped = true := by rwa [stopped_move] at hstop
    rw [hreg]
    simpa [hstop] using h₁.stopped hstop

/-- What holds of the registry is kept by every move. -/
theorem Enrolled.move (h₁ : h.Enrolled) (mv : Move) : (h.move mv).Enrolled := by
  by_cases hmv : mv = .register
  · rw [hmv]
    exact h₁.move_register
  · have hissued := issued_of_ne_register (h := h) hmv
    have hsub : (h.move mv).registered.Sublist h.registered := by
      rw [registered_move]
      cases mv with
      | register => exact absurd rfl hmv
      | unregister k => exact List.filter_sublist
      | stop => exact List.nil_sublist _
      | _ => exact List.Sublist.refl _
    refine ⟨h₁.sound.move mv, ?_, ?_, h₁.nodup.sublist hsub, ?_⟩
    · rw [ids_move, hissued, ← h₁.ids]
      cases mv with
      | register => exact absurd rfl hmv
      | _ => rfl
    · intro id hid
      rw [hissued]
      exact h₁.known id (hsub.subset hid)
    · intro hstop
      cases mv with
      | stop => rfl
      | register => exact absurd rfl hmv
      | _ =>
        rw [stopped_move] at hstop
        have hnil := h₁.stopped hstop
        rw [hnil] at hsub
        exact List.sublist_nil.mp hsub

theorem Enrolled.run (h₁ : h.Enrolled) (ms : List Move) : (h.run ms).Enrolled := by
  induction ms generalizing h with
  | nil => exact h₁
  | cons mv r ih => exact ih (h₁.move mv)

theorem Enrolled.client?_of_mem (h₁ : h.Enrolled) {c : Client} (hc : c ∈ h.clients) : h.client? c.id = some c := by
  have hnodup : (h.clients.map Client.id).Nodup := by
    rw [h₁.ids]
    exact List.nodup_range'
  exact find?_key hnodup hc

theorem Enrolled.client (h₁ : h.Enrolled) (hpos : 1 ≤ id) (hle : id ≤ h.issued) : ∃ c, h.client? id = some c := by
  have hmem : id ∈ h.clients.map Client.id := by
    rw [h₁.ids, List.mem_range'_1]
    omega
  obtain ⟨c, hc, rfl⟩ := List.mem_map.mp hmem
  exact ⟨c, h₁.client?_of_mem hc⟩

/-- A client is registered exactly as long as it has not been told to stop. -/
theorem Enrolled.opened (h₁ : h.Enrolled) (hpos : 1 ≤ id) (hle : id ≤ h.issued) :
    id ∈ h.registered ↔ h.isClosed id = false := by
  obtain ⟨c, hc⟩ := h₁.client hpos hle
  have hfit := h₁.sound.2 id c hc
  rw [isClosed, hc, Option.all_some]
  exact hfit.opened

theorem Enrolled.clientCount_eq (h₁ : h.Enrolled) :
    h.clientCount = ((List.range' 1 h.issued).filter fun id => !h.isClosed id).length := by
  have hnodup : ((List.range' 1 h.issued).filter fun id => !h.isClosed id).Nodup :=
    (List.nodup_range' 1).filter _
  refine ((List.perm_ext_iff_of_nodup h₁.nodup hnodup).mpr fun id => ?_).length_eq
  rw [List.mem_filter, List.mem_range'_1, Bool.not_eq_true']
  constructor
  · intro hid
    have hk := h₁.known id hid
    exact ⟨by omega, (h₁.opened hk.1 hk.2).mp hid⟩
  · rintro ⟨hk, hopen⟩
    exact (h₁.opened hk.1 (by omega)).mpr hopen

theorem Enrolled.stays_closed (h₁ : h.Enrolled) (hpos : 1 ≤ id) (hle : id ≤ h.issued) (hc : h.isClosed id = true)
    (ms : List Move) : (h.run ms).isClosed id = true := by
  obtain ⟨c, hcl⟩ := h₁.client hpos hle
  have hdone : c.done = true := by rwa [isClosed, hcl, Option.all_some] at hc
  exact (h₁.sound.closed_for_ever hcl hdone ms).2

theorem issued_le_run (ms : List Move) (h : Hub) : h.issued ≤ (h.run ms).issued := by
  induction ms generalizing h with
  | nil => exact Nat.le_refl _
  | cons mv r ih =>
    have hstep : h.issued ≤ (h.move mv).issued := by
      rw [issued_move]
      split <;> omega
    exact Nat.le_trans hstep (ih (h.move mv))

theorem stopped_run_iff (ms : List Move) (h : Hub) : (h.run ms).stopped = true ↔ h.stopped = true ∨ .stop ∈ ms := by
  induction ms generalizing h with
  | nil => simp [run]
  | cons mv r ih =>
    refine (ih (h.move mv)).trans ?_
    rw [stopped_move]
    cases mv with
    | stop => simp
    | _ => simp

/-! ### Calls that find nothing to do -/

theorem unregister_absent (hid : id ∉ h.registered) : h.unregister id = h := by
  rw [unregister, List.contains_eq_mem, decide_eq_false hid, if_neg Bool.false_ne_true]

/-- A hub is stopped once. -/
theorem Enrolled.stop_again (h₁ : h.Enrolled) (hstop : h.stopped = true) : h.stop = h := by
  have hnil := h₁.stopped hstop
  have hsame :
      h.clients.map (fun c => if h.registered.contains c.id then { c with done := true } else c) = h.clients := by
    rw [hnil]
    exact List.map_id _
  rw [stop, hsame, ← hstop, ← hnil]

/-- Stopping tells every client that ever was, whether it is registered or not. -/
theorem Enrolled.stop_clients (h₁ : h.Enrolled) :
    h.stop.clients = h.clients.map fun c => { c with done := true } := by
  refine List.map_congr_left fun c hc => ?_
  by_cases hid : c.id ∈ h.registered
  · rw [List.contains_eq_mem, decide_eq_true hid, if_pos rfl]
  · have hfit := h₁.sound.2 c.id c (h₁.client?_of_mem hc)
    have hdone : c.done = true := by
      cases hd : c.done with
      | true => rfl
      | false => exact absurd (hfit.opened.mpr hd) hid
    rw [List.contains_eq_mem, decide_eq_false hid, if_neg Bool.false_ne_true, ← hdone]

/-- Whether a client leaves before the hub stops or after it comes to the same. -/
theorem stop_unregister (id : Nat) (h : Hub) : h.stop.unregister id = (h.unregister id).stop := by
  have hgone : id ∉ h.stop.registered := List.not_mem_nil
  rw [unregister_absent hgone, unregister]
  split
  next hid =>
    have hid : id ∈ h.registered := List.contains_iff_mem.mp hid
    simp only [stop, modify, List.map_map]
    refine congrArg (fun cs => ({ h with stopped := true, registered := [], clients := cs } : Hub)) ?_
    refine List.map_congr_left fun c _ => ?_
    by_cases he : c.id = id
    · simp [he, hid]
    · simp [he]
  next => rfl

theorem issued_run_of_silent {ms : List Move} (hms : ∀ mv ∈ ms, mv ≠ .register) (h : Hub) :
    (h.run ms).issued = h.issued := by
  induction ms generalizing h with
  | nil => rfl
  | cons mv r ih =>
    have hstep := issued_of_ne_register (h := h) (hms mv (by simp))
    exact (ih (fun mv' hm => hms mv' (by simp [hm])) (h.move mv)).trans hstep

end Hub

namespace Venue

variable {v : Venue}

/-- The numbers under which clients are added. -/
def names (v : Venue) : Act → List Nat
  | .move .register => [v.hub.register.1]
  | .serve => [(v.hub.serve v.now).1.clientId]
  | _ => []

theorem moves_silent {a : Act} (hm : a ≠ .move .register) (hs : a ≠ .serve) (v : Venue) :
    ∀ mv ∈ v.moves a, mv ≠ .register := by
  intro mv hmv he
  subst he
  cases a with
  | serve => exact hs rfl
  | pass ms => cases hmv
  | move mv =>
    simp only [moves] at hmv
    split at hmv
    · cases hmv
    · exact hm (List.mem_singleton.mp hmv ▸ rfl)
  | look id =>
    simp only [moves] at hmv
    split at hmv
    · cases hmv
    · split at hmv
      · cases hmv
      · split at hmv <;> simp at hmv
  | drop id =>
    simp only [moves] at hmv
    split at hmv <;> simp at hmv

/-- A client is added under the next number. -/
theorem names_act (a : Act) (v : Venue) :
    v.names a = List.range' (v.hub.issued + 1) (v.names a).length ∧
      (v.act a).hub.issued = v.hub.issued + (v.names a).length := by
  by_cases hm : a = .move .register
  · subst hm
    exact ⟨rfl, rfl⟩
  · by_cases hs : a = .serve
    · subst hs
      exact ⟨rfl, rfl⟩
    · have hnone : v.names a = [] := by
        cases a with
        | serve => exact absurd rfl hs
        | move mv =>
          cases mv with
          | register => exact absurd rfl hm
          | _ => rfl
        | _ => rfl
      rw [hnone, act_hub, Hub.issued_run_of_silent (moves_silent hm hs v)]
      exact ⟨rfl, rfl⟩

theorem names_run (acts : List Act) (v : Venue) :
    trace act names v acts = List.range' (v.hub.issued + 1) (trace act names v acts).length ∧
      (v.run acts).hub.issued = v.hub.issued + (trace act names v acts).length := by
  induction acts generalizing v with
  | nil => exact ⟨rfl, rfl⟩
  | cons a r ih =>
    obtain ⟨hfirst, hnext⟩ := names_act a v
    obtain ⟨hrest, hlast⟩ := ih (v.act a)
    rw [hnext] at hrest hlast
    rw [trace, List.length_append]
    refine ⟨?_, ?_⟩
    · have hstart : v.hub.issued + 1 + (v.names a).length = v.hub.issued + (v.names a).length + 1 := by omega
      rw [← List.range'_append_1, hstart, ← hfirst, ← hrest]
    · have hrun : (v.run (a :: r)).hub.issued = ((v.act a).run r).hub.issued := rfl
      omega

/-- Nobody but whoever stops the hub does so. -/
theorem stop_mem_moves (a : Act) (v : Venue) : .stop ∈ v.moves a ↔ a = .move .stop := by
  cases a with
  | move mv =>
    simp only [moves, Act.move.injEq]
    split
    next hr =>
      refine iff_of_false List.not_mem_nil ?_
      rintro rfl
      cases hr
    next => rw [List.mem_singleton, eq_comm]
  | serve => simp [moves]
  | look id =>
    simp only [moves]
    split
    · simp
    · split
      · simp
      · split <;> simp
  | drop id =>
    simp only [moves]
    split <;> simp
  | pass ms => simp [moves]

theorem stopped_run (acts : List Act) (v : Venue) :
    (v.run acts).hub.stopped = true ↔ v.hub.stopped = true ∨ .move .stop ∈ acts := by
  induction acts generalizing v with
  | nil => simp [run]
  | cons a r ih =>
    have hrest := ih (v.act a)
    rw [act_hub, Hub.stopped_run_iff, stop_mem_moves, or_assoc, eq_comm (a := a), ← List.mem_cons] at hrest
    exact hrest

theorem run_enrolled (h : v.hub.Enrolled) (acts : List Act) : (v.run acts).hub.Enrolled := by
  rw [run_hub]
  exact h.run _

/-- In every run a client is registered and not told to stop, or told and not registered, and never again the
former after the latter. Numbers are given once each, and on a stopped hub nobody is registered any more. What finds
nothing to do changes nothing. -/
theorem registry_and_signals_agree (capacity keepalive : Nat) (acts : List Act) :
    let v := (start capacity keepalive).run acts
    let h := v.hub
    trace act names (start capacity keepalive) acts = List.range' 1 h.issued ∧
    (∀ id, 1 ≤ id → id ≤ h.issued → ∃ c, h.client? id = some c ∧ c.id = id ∧
      ((id ∈ h.registered ∧ c.done = false) ∨ (id ∉ h.registered ∧ c.done = true))) ∧
    (∀ id ∈ h.registered, 1 ≤ id ∧ id ≤ h.issued) ∧ h.registered.Nodup ∧
    h.clientCount = ((List.range' 1 h.issued).filter fun id => !h.isClosed id).length ∧
    (∀ id, 1 ≤ id → id ≤ h.issued → h.isClosed id = true → ∀ more,
      (v.run more).hub.isClosed id = true ∧ id ∉ (v.run more).hub.registered) ∧
    (h.stopped = true ↔ .move .stop ∈ acts) ∧
    (h.stopped = true → ∀ more,
      let h' := (v.run more).hub
      h'.stopped = true ∧ h'.registered = [] ∧ h'.clientCount = 0 ∧
      h'.register.2.isClosed h'.register.1 = true ∧ h'.register.2.registered = []) ∧
    (∀ id, id ∉ h.registered → h.unregister id = h) ∧
    (h.stopped = true → h.stop = h) ∧
    h.stop.clients = h.clients.map (fun c => { c with done := true }) ∧
    ∀ id, (h.unregister id).stop = h.stop.unregister id := by
  intro v h
  have hv (more : List Act) : (v.run more).hub.Enrolled :=
    run_enrolled (run_enrolled (Hub.start_enrolled capacity keepalive) acts) more
  have hh : h.Enrolled := hv []
  obtain ⟨hnames, hissued⟩ := names_run acts (start capacity keepalive)
  have hnone : (start capacity keepalive).hub.issued = 0 := rfl
  have hstopped := stopped_run acts (start capacity keepalive)
  have hrunning : (start capacity keepalive).hub.stopped = false := rfl
  refine ⟨?_, ?_, hh.known, hh.nodup, hh.clientCount_eq, ?_, ?_, ?_, fun id => Hub.unregister_absent,
    hh.stop_again, hh.stop_clients, fun id => (Hub.stop_unregister id h).symm⟩
  · rw [hnone, Nat.zero_add] at hnames hissued
    rw [hnames, hissued]
  · intro id hpos hle
    obtain ⟨c, hc⟩ := hh.client hpos hle
    have hfit := hh.sound.2 id c hc
    refine ⟨c, hc, hfit.id_eq, ?_⟩
    cases hd : c.done with
    | false => exact .inl ⟨hfit.opened.mpr hd, rfl⟩
    | true =>
      refine .inr ⟨fun hm => ?_, rfl⟩
      have hopen := hfit.opened.mp hm
      rw [hd] at hopen
      cases hopen
  · intro id hpos hle hc more
    have hclosed : (v.run more).hub.isClosed id = true := by
      rw [run_hub]
      exact hh.stays_closed hpos hle hc _
    have hle' : id ≤ (v.run more).hub.issued := by
      rw [run_hub]
      exact Nat.le_trans hle (Hub.issued_le_run _ h)
    refine ⟨hclosed, fun hm => ?_⟩
    have hopen := ((hv more).opened hpos hle').mp hm
    rw [hclosed] at hopen
    cases hopen
  · rw [hrunning] at hstopped
    simpa using hstopped
  · intro hstop more h'
    have hstop' : h'.stopped = true := by
      have hlater := stopped_run more v
      exact hlater.mpr (.inl hstop)
    have hnil := (hv more).stopped hstop'
    have hreg : h'.register.2.registered = [] := by
      have hmove : h'.register.2.registered = _ := Hub.registered_move .register h'
      rw [hmove]
      simpa [hstop'] using hnil
    have hlate : (h'.move .register).Enrolled := (hv more).move .register
    have hissued' : (h'.move .register).issued = h'.issued + 1 := Hub.issued_move _ h'
    have hclosed : h'.register.2.isClosed h'.register.1 = true := by
      by_contra hopen
      have hm : h'.issued + 1 ∈ h'.register.2.registered :=
        (hlate.opened (by omega) (by omega)).mpr (eq_false_of_ne_true hopen)
      rw [hreg] at hm
      cases hm
    exact ⟨hstop', hnil, by rw [Hub.clientCount, hnil, List.length_nil], hclosed, hreg⟩

end Venue

end StackDeck
