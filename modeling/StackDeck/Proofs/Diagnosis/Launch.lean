import StackDeck.Proofs.Diagnosis.Step

namespace StackDeck.Diagnosis.Manager

variable {m m' m'' : Manager} {s : Session} {t : Turn} {B : Nat → List TurnNews}

/-- A turn of a known session is launched, named by counting and left to go on after the others. -/
structure Adds (t : Turn) (m m' : Manager) : Prop where
  session : ∃ s ∈ m.sessions, s.id = t.session
  id : t.id = m.turns.length
  requestId : t.requestId = s!"r{m.turns.length + 1}"
  place : t.place = .launched
  turns : m'.turns = m.turns ++ [t]
  sessions : m'.sessions = m.sessions
  naming : m'.naming = { m.naming with requests := m.naming.requests + 1 }
  ready : m'.ready = m.ready ++ [t.id]
  asked : m'.asked = m.asked
  notices : m'.notices = m.notices

theorem Adds.length (h : Adds t m m') : m'.turns.length = m.turns.length + 1 := by
  rw [h.turns, List.length_append]
  rfl

theorem Adds.mem (h : Adds t m m') {u : Turn} (hu : u ∈ m'.turns) : u ∈ m.turns ∨ u = t := by
  rw [h.turns] at hu
  simpa using hu

theorem Adds.turnsOf (h : Adds t m m') (sid : String) :
    m'.turnsOf sid = m.turnsOf sid ++ if t.session = sid then [t] else [] :=
  turnsOf_concat h.turns sid

theorem Adds.named (h : Adds t m m') (hn : m.Named) : m'.Named := by
  refine ⟨?_, ?_, by rw [h.sessions, hn.sessions], by rw [h.naming, h.length, ← hn.requestCount], ?_, ?_⟩
  · rw [h.turns, List.map_append, List.length_append, hn.turns, List.map_singleton, h.id]
    exact List.range_succ.symm
  · rw [h.turns, List.map_append, List.length_append, hn.requests, List.map_singleton, h.requestId,
      List.length_singleton, List.range_succ, List.map_append]
    rfl
  · rw [h.naming, h.sessions]
    exact hn.sessionCount
  · intro u hu
    rw [h.sessions]
    rcases h.mem hu with hu | rfl
    · exact hn.known u hu
    · exact h.session

theorem Adds.queued (h : Adds t m m') (hq : m.Queued none s) : m'.Queued none s := by
  obtain ⟨olds, acts, waits, fresh, hl, hact⟩ := hq
  by_cases he : t.session = s.id
  · refine ⟨olds, acts, waits, fresh ++ [t], ⟨?_, hl.ended, hl.waiting, ?_, hl.holder, hl.waiters, hl.free⟩, hact⟩
    · rw [h.turnsOf, hl.turns, if_pos he]
      simp
    · intro u hu
      rcases List.mem_append.mp hu with hu | hu
      · exact hl.launched u hu
      · rw [List.mem_singleton.mp hu, h.place]
  · refine ⟨olds, acts, waits, fresh, ⟨?_, hl.ended, hl.waiting, hl.launched, hl.holder, hl.waiters, hl.free⟩, hact⟩
    rw [h.turnsOf, hl.turns, if_neg he, List.append_nil]

theorem Adds.readied (h : Adds t m m') (hr : m.Ready none) : m'.Ready none := by
  have hl := h.length
  have hid := h.id
  refine ⟨?_, ?_, ?_⟩
  · intro k hk
    rw [h.ready] at hk
    rcases List.mem_append.mp hk with hk | hk
    · have := hr.known k hk
      omega
    · rw [List.mem_singleton.mp hk]
      omega
  · rw [h.ready, List.pairwise_append]
    refine ⟨?_, List.pairwise_singleton _ _, ?_⟩
    · refine hr.fifo.imp_of_mem fun {a b} _ hb hab u hu hub hup => ?_
      rcases h.mem hu with hu | rfl
      · exact hab u hu hub hup
      · have := hr.known b hb
        omega
    · intro a hka b hkb u _ _ _
      have := hr.known a hka
      rw [List.mem_singleton.mp hkb]
      omega
  · intro u hu _ hup
    rw [h.ready]
    rcases h.mem hu with hu | rfl
    · exact List.mem_append_left _ (hr.launched u hu nofun hup)
    · simp

/-- A turn that was launched is the last in line and was told nothing of. -/
theorem Sound.add (h : m.Sound B none) (a : Adds t m m') : m'.Sound (fun k => if k = t.id then [] else B k) none := by
  have hl := a.length
  have hid := a.id
  have hne {u : Turn} (hu : u ∈ m.turns) : u.id ≠ t.id := by
    have := h.named.id_lt hu
    omega
  refine ⟨a.named h.named, fun v hv => a.queued (h.queued v (a.sessions ▸ hv)), a.readied h.ready, ?_, ?_, ?_,
    a.asked ▸ h.once, ?_⟩
  · intro sid
    have hb : ((m.turnsOf sid).flatMap fun u => (if u.id = t.id then [] else B u.id).map fun n => (u.requestId, n)) =
        (m.turnsOf sid).flatMap fun u => (B u.id).map fun n => (u.requestId, n) := by
      refine List.flatMap_congr fun u hu => ?_
      rw [if_neg (hne (mem_turnsOf.mp hu).1)]
    have htold : m'.told sid = m.told sid := by rw [Manager.told, a.notices, Manager.told]
    rw [htold, a.turnsOf, List.flatMap_append, hb, h.told]
    split <;> simp
  · intro u hu _
    rcases a.mem hu with hu | rfl
    · rw [if_neg (hne hu)]
      exact h.tells u hu (by simp)
    · rw [if_pos rfl, a.place]
      rfl
  · intro u hu _ hov hb v hv hvu
    rw [a.sessions] at hv
    rcases a.mem hu with hu | rfl
    · rw [if_neg (hne hu)] at hb
      exact h.silent u hu (by simp) hov hb v hv hvu
    · rw [a.place] at hov
      cases hov
  · intro k hk
    rw [a.asked] at hk
    obtain ⟨hlt, hb⟩ := h.asked k hk
    refine ⟨by omega, ?_⟩
    rw [if_neg (by omega)]
    exact hb

theorem Sound.launch (h : m.Sound B none) (hs : s ∈ m.sessions) (prompt : String) :
    ∃ B', (m.launch s prompt).2.Sound B' none := by
  have hc := modifySession_calm s.id (f := fun s => { s with pending := s.pending + 1 })
    (fun _ => ⟨rfl, rfl, rfl, fun h => h⟩) m
  have a : Adds ⟨m.turns.length, s.id, s!"r{m.naming.requests + 1}", prompt, false, .launched⟩
      (m.modifySession s.id fun s => { s with pending := s.pending + 1 }) (m.launch s prompt).2 := by
    refine ⟨⟨{ s with pending := s.pending + 1 }, ?_, rfl⟩, rfl, ?_, rfl, rfl, rfl, rfl, rfl, rfl, rfl⟩
    · exact List.mem_map.mpr ⟨s, hs, by simp⟩
    · rw [h.named.requestCount]
      rfl
  exact ⟨_, (h.calm hc).add a⟩

/-- A new session has a name of its own and no turns. -/
theorem Sound.enroll (h : m.Sound B none) (hid : s.id = s!"s{m.sessions.length + 1}") (hh : s.holder = none)
    (hw : s.waiters = []) (ht : m'.turns = m.turns) (hss : m'.sessions = m.sessions ++ [s])
    (hn : m'.naming = { m.naming with sessions := m.naming.sessions + 1 }) (hr : m'.ready = m.ready)
    (ha : m'.asked = m.asked) (hm : m'.notices = m.notices) : m'.Sound B none := by
  have hnames : m'.sessions.map Session.id = (List.range m'.sessions.length).map fun k => s!"s{k + 1}" := by
    rw [hss, List.map_append, List.length_append, h.named.sessions, List.map_singleton, hid, List.length_singleton,
      List.range_succ, List.map_append]
    rfl
  have hnew {u : Turn} (hu : u ∈ m.turns) : u.session ≠ s.id := by
    intro he
    obtain ⟨v, hv, hvu⟩ := h.named.known u hu
    have hnd := nodup_names "s" m'.sessions.length
    change ((List.range m'.sessions.length).map fun k => s!"s{k + 1}").Nodup at hnd
    rw [← hnames, hss, List.map_append, List.nodup_append] at hnd
    exact hnd.2.2 v.id (List.mem_map_of_mem hv) s.id (by simp) (hvu.trans he)
  have mem {v : Session} (hv : v ∈ m'.sessions) : v ∈ m.sessions ∨ v = s := by
    rw [hss] at hv
    simpa using hv
  refine ⟨⟨by rw [ht, h.named.turns], by rw [ht, h.named.requests], hnames, by rw [hn, ht, ← h.named.requestCount], ?_, ?_⟩,
    ?_, h.ready.of_same ht hr, ?_, ht ▸ h.tells, ?_, ha ▸ h.once, ?_⟩
  · rw [hn, hss, List.length_append, ← h.named.sessionCount]
    rfl
  · intro u hu
    rw [ht] at hu
    obtain ⟨v, hv, hvu⟩ := h.named.known u hu
    exact ⟨v, hss ▸ List.mem_append_left _ hv, hvu⟩
  · intro v hv
    rcases mem hv with hv | rfl
    · exact (h.queued v hv).of_same ht
    · refine ⟨[], [], [], [], ⟨?_, by simp, by simp, by simp, by simp [hh], by simp [hw], by simp⟩, by simp⟩
      rw [turnsOf, ht]
      refine List.filter_eq_nil_iff.mpr fun u hu => ?_
      simpa using hnew hu
  · intro sid
    have htold : m'.told sid = m.told sid := by rw [Manager.told, hm, Manager.told]
    rw [htold, turnsOf, ht]
    exact h.told sid
  · intro u hu hc hov hb v hv hvu
    rw [ht] at hu
    rcases mem hv with hv | rfl
    · exact h.silent u hu hc hov hb v hv hvu
    · exact absurd hvu.symm (hnew hu)
  · intro k hk
    rw [ha] at hk
    rw [ht]
    exact h.asked k hk

theorem Sound.register (h : m.Sound B none) (service : String) (k : Nat) (e : Engine) :
    ∃ B', (m.register service k e).2.Sound B' none := by
  unfold Manager.register
  dsimp only
  refine Sound.launch (B := B) ?_ ?_ _
  · refine h.enroll (s := _) ?_ rfl rfl rfl rfl rfl rfl rfl rfl
    rw [h.named.sessionCount]
  · simp

theorem Sound.completeStart (h : m.Sound B none) (st : Startup) : ∃ B', (m.completeStart st).2.Sound B' none := by
  unfold Manager.completeStart
  by_cases hd : m.startupTimeout < st.delay
  · simp only [hd, if_true]
    exact ⟨B, h⟩
  · simp only [hd, if_false]
    cases m.engines[st.engine]? with
    | none => exact ⟨B, h⟩
    | some e =>
      have he : (m.setEngine st.engine e.openSession.2).Sound B none := h.calm (.of_same rfl rfl rfl rfl rfl rfl)
      dsimp only
      cases ho : e.openSession with
      | mk result e' =>
        rw [ho] at he
        cases result with
        | error fault => exact ⟨B, he⟩
        | ok _ => exact he.register st.service st.engine e'

theorem mem_of_reach {id : String} (h : m.reach id = .ok s) : s ∈ m.sessions := by
  unfold reach at h
  split at h
  · cases h
  · split at h
    next s' hs =>
      split at hs
      · rw [← Except.ok.inj h]
        exact (mem_of_find?_key hs).1
      · cases hs
    next => cases h

theorem Sound.message (h : m.Sound B none) (id prompt : String) : ∃ B', (m.message id prompt).2.Sound B' none := by
  unfold Manager.message
  split
  · exact ⟨B, h⟩
  · cases hr : m.reach id with
    | error e => exact ⟨B, h⟩
    | ok s => exact h.launch (mem_of_reach hr) prompt

end StackDeck.Diagnosis.Manager
