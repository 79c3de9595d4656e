import StackDeck.Proofs.Diagnosis.Line

namespace StackDeck.Diagnosis

/-- A turn, after the one of a number was put in a place. -/
def Turn.placed (id : Nat) (p : TurnPlace) (t : Turn) : Turn := if t.id == id then { t with place := p } else t

theorem Turn.placed_self {id : Nat} {t : Turn} (h : t.id = id) (p : TurnPlace) :
    t.placed id p = { t with place := p } := by
  simp [placed, h]

theorem Turn.placed_other {id : Nat} {t : Turn} (h : t.id ≠ id) (p : TurnPlace) : t.placed id p = t := by
  simp [placed, h]

/-- A session, after the one of a name was changed. -/
def Session.changed (sid : String) (f : Session → Session) (s : Session) : Session := if s.id == sid then f s else s

theorem Session.changed_self {sid : String} {s : Session} (h : s.id = sid) (f : Session → Session) :
    s.changed sid f = f s := by
  simp [changed, h]

theorem Session.changed_other {sid : String} {s : Session} (h : s.id ≠ sid) (f : Session → Session) :
    s.changed sid f = s := by
  simp [changed, h]

theorem Session.changed_closed {f : Session → Session} (hf : ∀ s, (f s).closed = s.closed) (sid : String)
    (s : Session) : (s.changed sid f).closed = s.closed := by
  unfold changed
  split
  · exact hf s
  · rfl

namespace Manager

/-- Turns and sessions change one by one and keep their names. Nothing is told of a turn and no engine asked. -/
structure Change (g : Turn → Turn) (f : Session → Session) (m m' : Manager) : Prop where
  turns : m'.turns = m.turns.map g
  tag : ∀ t, (g t).tag = t.tag
  sessions : m'.sessions = m.sessions.map f
  id : ∀ s, (f s).id = s.id
  naming : m'.naming = m.naming
  asked : m'.asked = m.asked
  told : ∀ sid, m'.told sid = m.told sid

section Change

variable {m m' m'' : Manager} {g g' : Turn → Turn} {f f' : Session → Session} {s : Session} {t : Turn}

theorem Change.of_same (ht : m'.turns = m.turns) (hs : m'.sessions = m.sessions) (hn : m'.naming = m.naming)
    (ha : m'.asked = m.asked) (hm : m'.notices = m.notices) : Change (fun t => t) (fun s => s) m m' :=
  ⟨by rw [ht, List.map_id'], fun _ => rfl, by rw [hs, List.map_id'], fun _ => rfl, hn, ha,
    fun sid => by rw [Manager.told, hm, Manager.told]⟩

theorem Change.trans (h : Change g f m m') (h' : Change g' f' m' m'') :
    Change (fun t => g' (g t)) (fun s => f' (f s)) m m'' := by
  refine ⟨?_, fun t => (h'.tag _).trans (h.tag t), ?_, fun s => (h'.id _).trans (h.id s),
    h'.naming.trans h.naming, h'.asked.trans h.asked, fun sid => (h'.told sid).trans (h.told sid)⟩
  · rw [h'.turns, h.turns, List.map_map]
    rfl
  · rw [h'.sessions, h.sessions, List.map_map]
    rfl

theorem Change.wake (h : Change g f m m') (id : Nat) : Change g f m (m'.wake id) :=
  ⟨h.turns, h.tag, h.sessions, h.id, h.naming, h.asked, h.told⟩

theorem Change.turn_id (h : Change g f m m') (t : Turn) : (g t).id = t.id := congrArg Prod.fst (h.tag t)

theorem Change.turn_session (h : Change g f m m') (t : Turn) : (g t).session = t.session :=
  congrArg (fun x => x.2.1) (h.tag t)

theorem Change.requestId (h : Change g f m m') (t : Turn) : (g t).requestId = t.requestId :=
  congrArg (fun x => x.2.2) (h.tag t)

theorem Change.tags (h : Change g f m m') : m'.tags = m.tags := by
  rw [Manager.tags, Manager.tags, h.turns, List.map_map]
  exact List.map_congr_left fun t _ => h.tag t

theorem turnsOf_map (h : m'.turns = m.turns.map g) (htag : ∀ t, (g t).tag = t.tag) (sid : String) :
    m'.turnsOf sid = (m.turnsOf sid).map g := by
  unfold turnsOf
  rw [h, List.filter_map]
  congr 1
  refine List.filter_congr fun t _ => ?_
  have hs : (g t).session = t.session := congrArg (fun x => x.2.1) (htag t)
  simp only [Function.comp_apply, hs]

theorem turnsOf_concat (h : m'.turns = m.turns ++ [t]) (sid : String) :
    m'.turnsOf sid = m.turnsOf sid ++ if t.session = sid then [t] else [] := by
  unfold turnsOf
  rw [h, List.filter_append]
  by_cases he : t.session = sid <;> simp [he]

theorem Change.turnsOf (h : Change g f m m') (sid : String) : m'.turnsOf sid = (m.turnsOf sid).map g :=
  turnsOf_map h.turns h.tag sid

theorem Change.named (h : Change g f m m') (hn : m.Named) : m'.Named := by
  have hl : m'.turns.length = m.turns.length := by rw [h.turns, List.length_map]
  have hk : m'.sessions.length = m.sessions.length := by rw [h.sessions, List.length_map]
  have ids : m'.turns.map Turn.id = m.turns.map Turn.id := by
    rw [h.turns, List.map_map]
    exact List.map_congr_left fun t _ => h.turn_id t
  have requests : m'.turns.map Turn.requestId = m.turns.map Turn.requestId := by
    rw [h.turns, List.map_map]
    exact List.map_congr_left fun t _ => h.requestId t
  have sessions : m'.sessions.map Session.id = m.sessions.map Session.id := by
    rw [h.sessions, List.map_map]
    exact List.map_congr_left fun s _ => h.id s
  refine ⟨by rw [ids, hl, hn.turns], by rw [requests, hl, hn.requests], by rw [sessions, hk, hn.sessions],
    by rw [h.naming, hl, hn.requestCount], by rw [h.naming, hk, hn.sessionCount], ?_⟩
  intro t ht
  rw [h.turns] at ht
  obtain ⟨u, hu, rfl⟩ := List.mem_map.mp ht
  obtain ⟨s, hs, he⟩ := hn.known u hu
  refine ⟨f s, ?_, ?_⟩
  · rw [h.sessions]
    exact List.mem_map_of_mem hs
  · rw [h.id, he, h.turn_session]

theorem Change.mem (h : Change g f m m') {u : Turn} (hu : u ∈ m'.turns) : ∃ t ∈ m.turns, g t = u := by
  rw [h.turns] at hu
  exact List.mem_map.mp hu

/-- Nothing that becomes ready by a change was only launched. -/
theorem Ready.change {cur cur' : Option Nat} (h : m.Ready cur) (hn : m.Named) (c : Change g f m m')
    (ready : ∃ xs, m'.ready = m.ready ++ xs ∧ ∀ id ∈ xs, ∃ t ∈ m.turns, t.id = id ∧ (g t).place ≠ .launched)
    (launched : ∀ t ∈ m.turns, (g t).place = .launched →
      t.place = .launched ∧ (cur' ≠ some t.id → cur ≠ some t.id)) :
    m'.Ready cur' := by
  obtain ⟨xs, hr, hx⟩ := ready
  have hl : m'.turns.length = m.turns.length := by rw [c.turns, List.length_map]
  have polled {b : Nat} (hb : b ∈ xs) {u : Turn} (hu : u ∈ m'.turns) (he : u.id = b) : u.place ≠ .launched := by
    obtain ⟨t, ht, rfl⟩ := c.mem hu
    obtain ⟨v, hv, hvb, hp⟩ := hx b hb
    rw [c.turn_id] at he
    rw [hn.eq_of_id ht hv (he.trans hvb.symm)]
    exact hp
  refine ⟨?_, ?_, ?_⟩
  · intro id hm
    rw [hr] at hm
    rw [hl]
    rcases List.mem_append.mp hm with hm | hm
    · exact h.known id hm
    · obtain ⟨t, ht, rfl, _⟩ := hx id hm
      exact hn.id_lt ht
  · rw [hr, List.pairwise_append]
    refine ⟨h.fifo.imp fun hab u hu he hp => ?_, ?_, ?_⟩
    · obtain ⟨t, ht, rfl⟩ := c.mem hu
      exact hab t ht ((c.turn_id t).symm.trans he) (launched t ht hp).1
    · refine List.pairwise_of_forall_mem_list fun a _ b hb u hu he hp => ?_
      exact absurd hp (polled hb hu he)
    · intro a _ b hb u hu he hp
      exact absurd hp (polled hb hu he)
  · intro u hu hc hp
    obtain ⟨t, ht, rfl⟩ := c.mem hu
    rw [c.turn_id] at hc ⊢
    obtain ⟨hp', hc'⟩ := launched t ht hp
    rw [hr]
    exact List.mem_append_left _ (h.launched t ht (hc' hc) hp')

/-- What a change has to answer for: the lines, the places of the turns and the turns that become ready. -/
theorem Sound.change {B : Nat → List TurnNews} {cur cur' : Option Nat} (h : m.Sound B cur)
    (c : Change g f m m')
    (ready : ∃ xs, m'.ready = m.ready ++ xs ∧ ∀ id ∈ xs, ∃ t ∈ m.turns, t.id = id ∧ (g t).place ≠ .launched)
    (launched : ∀ t ∈ m.turns, (g t).place = .launched →
      t.place = .launched ∧ (cur' ≠ some t.id → cur ≠ some t.id))
    (queued : ∀ s ∈ m.sessions, m'.Queued cur' (f s))
    (tells : ∀ t ∈ m.turns, cur' ≠ some t.id → (g t).place.Tells (B t.id))
    (silent : ∀ t ∈ m.turns, cur' ≠ some t.id → (g t).place = .over → B t.id = [] →
      ∀ s ∈ m.sessions, s.id = t.session → (f s).closed) :
    m'.Sound B cur' := by
  refine ⟨c.named h.named, ?_, h.ready.change h.named c ready launched, ?_, ?_, ?_, c.asked ▸ h.once, ?_⟩
  · intro s hs
    rw [c.sessions] at hs
    obtain ⟨u, hu, rfl⟩ := List.mem_map.mp hs
    exact queued u hu
  · intro sid
    rw [c.told, h.told, c.turnsOf, List.flatMap_map]
    refine List.flatMap_congr fun t _ => ?_
    rw [c.turn_id, c.requestId]
  · intro u hu hc
    obtain ⟨t, ht, rfl⟩ := c.mem hu
    rw [c.turn_id] at hc ⊢
    exact tells t ht hc
  · intro u hu hc hp hb s hs he
    obtain ⟨t, ht, rfl⟩ := c.mem hu
    rw [c.sessions] at hs
    obtain ⟨v, hv, rfl⟩ := List.mem_map.mp hs
    rw [c.turn_id] at hc hb
    rw [c.id, c.turn_session] at he
    exact silent t ht hc hp hb v hv he
  · intro id hm
    rw [c.asked] at hm
    rw [c.turns, List.length_map]
    exact h.asked id hm

end Change

/-! ### Changes that no line depends on -/

section Calm

variable {m m' m'' : Manager}

theorem modifyTurn_change (id : Nat) {g : Turn → Turn} (hg : ∀ t, (g t).tag = t.tag) (m : Manager) :
    Change (fun t => if t.id == id then g t else t) (fun s => s) m (m.modifyTurn id g) := by
  refine ⟨rfl, ?_, (List.map_id' _).symm, fun _ => rfl, rfl, rfl, fun _ => rfl⟩
  intro t
  split
  · exact hg t
  · rfl

theorem place_change (id : Nat) (p : TurnPlace) (m : Manager) :
    Change (Turn.placed id p) (fun s => s) m (m.place id p) :=
  modifyTurn_change id (g := fun t => { t with place := p }) (fun _ => rfl) m

theorem modifySession_change (sid : String) {f : Session → Session} (hf : ∀ s, (f s).id = s.id) (m : Manager) :
    Change (fun t => t) (Session.changed sid f) m (m.modifySession sid f) := by
  refine ⟨(List.map_id' _).symm, fun _ => rfl, rfl, ?_, rfl, rfl, fun _ => rfl⟩
  intro s
  unfold Session.changed
  split
  · exact hf s
  · rfl

/-- No turn and no lock moves, no session opens again, and only turns that were polled before become ready. -/
structure Calm (m m' : Manager) : Prop where
  change : ∃ g f, Change g f m m' ∧ (∀ t, (g t).place = t.place) ∧
    ∀ s, (f s).holder = s.holder ∧ (f s).waiters = s.waiters ∧ (s.closed = true → (f s).closed = true)
  ready : ∃ xs, m'.ready = m.ready ++ xs ∧ ∀ id ∈ xs, ∃ t ∈ m.turns, t.id = id ∧ t.place ≠ .launched

theorem Calm.of_same (ht : m'.turns = m.turns) (hs : m'.sessions = m.sessions) (hn : m'.naming = m.naming)
    (ha : m'.asked = m.asked) (hm : m'.notices = m.notices) (hr : m'.ready = m.ready) : m.Calm m' :=
  ⟨⟨_, _, .of_same ht hs hn ha hm, fun _ => rfl, fun _ => ⟨rfl, rfl, fun h => h⟩⟩,
    [], by rw [hr, List.append_nil], by simp⟩

theorem Calm.refl (m : Manager) : m.Calm m := .of_same rfl rfl rfl rfl rfl rfl

theorem Calm.trans (h : m.Calm m') (h' : m'.Calm m'') : m.Calm m'' := by
  obtain ⟨g, f, c, hp, hs⟩ := h.change
  obtain ⟨g', f', c', hp', hs'⟩ := h'.change
  obtain ⟨xs, hr, hx⟩ := h.ready
  obtain ⟨ys, hr', hy⟩ := h'.ready
  refine ⟨⟨_, _, c.trans c', fun t => (hp' _).trans (hp t), ?_⟩, xs ++ ys, ?_, ?_⟩
  · intro s
    obtain ⟨h1, h2, h3⟩ := hs s
    obtain ⟨k1, k2, k3⟩ := hs' (f s)
    exact ⟨k1.trans h1, k2.trans h2, fun hc => k3 (h3 hc)⟩
  · rw [hr', hr, List.append_assoc]
  · intro id hm
    rcases List.mem_append.mp hm with hm | hm
    · exact hx id hm
    · obtain ⟨u, hu, he, hnp⟩ := hy id hm
      rw [c.turns] at hu
      obtain ⟨t, ht, rfl⟩ := List.mem_map.mp hu
      exact ⟨t, ht, (c.turn_id t).symm.trans he, by rw [← hp t]; exact hnp⟩

theorem modifySession_calm (sid : String) {f : Session → Session}
    (hf : ∀ s, (f s).id = s.id ∧ (f s).holder = s.holder ∧ (f s).waiters = s.waiters ∧
      (s.closed = true → (f s).closed = true)) (m : Manager) : m.Calm (m.modifySession sid f) := by
  refine ⟨⟨_, _, modifySession_change sid (fun s => (hf s).1) m, fun _ => rfl, ?_⟩, [],
    (List.append_nil _).symm, by simp⟩
  intro s
  unfold Session.changed
  split
  · exact (hf s).2
  · exact ⟨rfl, rfl, fun h => h⟩

theorem publish_closed_calm (id service provider : String) (m : Manager) :
    m.Calm (m.publish (.closed id service provider)) := by
  refine ⟨⟨_, _, ⟨(List.map_id' _).symm, fun _ => rfl, (List.map_id' _).symm, fun _ => rfl, rfl, rfl, ?_⟩,
    fun _ => rfl, fun _ => ⟨rfl, rfl, fun h => h⟩⟩, [], (List.append_nil _).symm, by simp⟩
  intro sid
  simp [told, publish, Notice.of?]

theorem cut_calm (id : Nat) (m : Manager) : m.Calm (m.cut id) := by
  have hc : m.Calm (m.modifyTurn id fun t => { t with cut := true }) := by
    refine ⟨⟨_, _, modifyTurn_change id (g := fun t => { t with cut := true }) (fun _ => rfl) m, ?_,
      fun _ => ⟨rfl, rfl, fun h => h⟩⟩, [], (List.append_nil _).symm, by simp⟩
    intro t
    split <;> rfl
  unfold cut
  cases hf : m.turn? id with
  | none => exact .refl m
  | some t =>
    have hid : t ∈ m.turns ∧ t.id = id := mem_of_find?_key hf
    dsimp only
    split
    next n rest hp hcut =>
      obtain ⟨g, f, c, hpl, hs⟩ := hc.change
      refine ⟨⟨g, f, ⟨c.turns, c.tag, c.sessions, c.id, c.naming, c.asked, c.told⟩, hpl, hs⟩, [id], rfl, ?_⟩
      intro k hk
      exact ⟨t, hid.1, hid.2.trans (List.mem_singleton.mp hk).symm, by simp [hp]⟩
    next => exact hc

theorem cutCurrent_calm (s : Session) (m : Manager) : m.Calm (m.cutCurrent s) := by
  unfold cutCurrent
  cases s.current with
  | none => exact .refl m
  | some id => exact cut_calm id m

theorem interrupt_calm (id : String) (m : Manager) : m.Calm (m.interrupt id).2 := by
  unfold interrupt
  cases m.reach id with
  | error e => exact .refl m
  | ok s =>
    dsimp only
    split
    · exact .refl m
    · have h := modifySession_calm id (f := fun s => { s with interrupted := true })
        (fun _ => ⟨rfl, rfl, rfl, fun h => h⟩) m
      exact h.trans (cutCurrent_calm s _)

theorem release_calm (s : Session) (m : Manager) : m.Calm (m.release s).2 := by
  have h := (modifySession_calm s.id (f := fun s => { s with closed := true })
    (fun _ => ⟨rfl, rfl, rfl, fun _ => rfl⟩) m).trans (cutCurrent_calm s _)
  unfold release
  dsimp only
  refine Calm.trans ?_ (publish_closed_calm _ _ _ _)
  split
  · exact h.trans (.of_same rfl rfl rfl rfl rfl rfl)
  · exact h

theorem close_calm (id : String) (m : Manager) : m.Calm (m.close id).2 := by
  unfold close
  cases m.reach id with
  | error e => exact .refl m
  | ok s =>
    have h₀ : m.Calm { m with registry := m.registry.filter (· != id) } := .of_same rfl rfl rfl rfl rfl rfl
    have h := h₀.trans (release_calm s _)
    dsimp only
    split
    next he =>
      rw [he] at h
      exact h
    next he =>
      rw [he] at h
      exact h

theorem closeAll_calm (m : Manager) : m.Calm m.closeAll := by
  have fold (ss : List Session) (m : Manager) : m.Calm (ss.foldl (fun m s => (m.release s).2) m) := by
    induction ss generalizing m with
    | nil => exact .refl m
    | cons s r ih => exact (release_calm s m).trans (ih _)
  have h : m.Calm { m with registry := [] } := .of_same rfl rfl rfl rfl rfl rfl
  exact h.trans (fold _ _)

theorem wakeAt_calm (now : Nat) (m : Manager) : m.Calm (m.wakeAt now) := by
  refine ⟨⟨_, _, .of_same rfl rfl rfl rfl rfl, fun _ => rfl, fun _ => ⟨rfl, rfl, fun h => h⟩⟩,
    (m.sleepers.partition fun id => (m.due? id).any (· ≤ now)).1, rfl, ?_⟩
  intro id hm
  rw [List.partition_eq_filter_filter] at hm
  have hd := (List.mem_filter.mp hm).2
  cases hf : m.turn? id with
  | none => simp [due?, hf] at hd
  | some t =>
    have hid : t ∈ m.turns ∧ t.id = id := mem_of_find?_key hf
    refine ⟨t, hid.1, hid.2, ?_⟩
    intro hp
    simp [due?, hf, hp] at hd

variable {B : Nat → List TurnNews} {cur : Option Nat}

theorem Line.map {g : Turn → Turn} {f : Session → Session} {s : Session} {olds acts waits fresh : List Turn}
    (h : m.Line s olds acts waits fresh) (c : Change g f m m') (hp : ∀ t, (g t).place = t.place)
    (hs : (f s).holder = s.holder ∧ (f s).waiters = s.waiters) :
    m'.Line (f s) (olds.map g) (acts.map g) (waits.map g) (fresh.map g) := by
  have ids (ts : List Turn) : (ts.map g).map Turn.id = ts.map Turn.id := by
    rw [List.map_map]
    exact List.map_congr_left fun t _ => c.turn_id t
  have places {ts : List Turn} {p : TurnPlace} (hts : ∀ t ∈ ts, t.place = p) : ∀ t ∈ ts.map g, t.place = p := by
    intro u hu
    obtain ⟨t, ht, rfl⟩ := List.mem_map.mp hu
    rw [hp, hts t ht]
  refine ⟨?_, places h.ended, places h.waiting, places h.launched, by rw [ids, hs.1, h.holder],
    by rw [ids, hs.2, h.waiters], ?_⟩
  · rw [c.id, c.turnsOf, h.turns]
    simp only [List.map_append]
  · intro hn
    rw [h.free (List.map_eq_nil_iff.mp hn), List.map_nil]

theorem Sound.calm (h : m.Sound B cur) (c : m.Calm m') : m'.Sound B cur := by
  obtain ⟨g, f, hc, hp, hs⟩ := c.change
  obtain ⟨xs, hr, hx⟩ := c.ready
  refine h.change hc ⟨xs, hr, ?_⟩ ?_ ?_ ?_ ?_
  · intro id hm
    obtain ⟨t, ht, he, hnp⟩ := hx id hm
    exact ⟨t, ht, he, by rw [hp]; exact hnp⟩
  · intro t ht hl
    rw [hp] at hl
    exact ⟨hl, fun h => h⟩
  · intro s hm
    obtain ⟨olds, acts, waits, fresh, hl, ha⟩ := h.queued s hm
    refine ⟨_, _, _, _, hl.map hc hp ⟨(hs s).1, (hs s).2.1⟩, ?_⟩
    intro u hu
    obtain ⟨t, ht, rfl⟩ := List.mem_map.mp hu
    rw [hc.turn_id, hp]
    exact ha t ht
  · intro t ht hcur
    rw [hp]
    exact h.tells t ht hcur
  · intro t ht hcur hov hb s hm he
    rw [hp] at hov
    exact (hs s).2.2 (h.silent t ht hcur hov hb s hm he)

end Calm

end Manager

end StackDeck.Diagnosis
