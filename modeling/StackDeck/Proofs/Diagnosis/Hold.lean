import StackDeck.Proofs.Diagnosis.Change

/-!
A turn that has the lock of its session goes on: it tells its news, may be sent to its engine, and in the end
either waits for more or gives the lock to the turn that has waited longest.
-/

namespace StackDeck.Diagnosis

/-- The blocks of all turns, after one of them has told more. -/
def grow (B : Nat → List TurnNews) (id : Nat) (ns : List TurnNews) : Nat → List TurnNews :=
  fun k => if k = id then B k ++ ns else B k

theorem grow_self (B : Nat → List TurnNews) (id : Nat) (ns : List TurnNews) : grow B id ns id = B id ++ ns := by
  simp [grow]

theorem grow_other (B : Nat → List TurnNews) (ns : List TurnNews) {id k : Nat} (h : k ≠ id) :
    grow B id ns k = B k := by
  simp [grow, h]

namespace Manager

variable {m m' : Manager} {s : Session} {t : Turn} {B : Nat → List TurnNews} {cur : Option Nat}
  {olds acts waits fresh : List Turn}

theorem Named.of_same (h : m.Named) (ht : m'.turns = m.turns) (hs : m'.sessions = m.sessions)
    (hn : m'.naming = m.naming) : m'.Named :=
  ⟨by rw [ht, h.turns], by rw [ht, h.requests], by rw [hs, h.sessions], by rw [ht, hn, h.requestCount],
    by rw [hs, hn, h.sessionCount], by rw [ht, hs]; exact h.known⟩

theorem Named.session_eq (h : m.Named) {s' : Session} (hs : s ∈ m.sessions) (hs' : s' ∈ m.sessions)
    (he : s.id = s'.id) : s = s' :=
  List.inj_on_of_nodup_map h.nodup_sessions hs hs' he

theorem Line.of_same (h : m.Line s olds acts waits fresh) (ht : m'.turns = m.turns) :
    m'.Line s olds acts waits fresh :=
  ⟨by rw [turnsOf, ht]; exact h.turns, h.ended, h.waiting, h.launched, h.holder, h.waiters, h.free⟩

theorem Queued.of_same (h : m.Queued cur s) (ht : m'.turns = m.turns) : m'.Queued cur s := by
  obtain ⟨olds, acts, waits, fresh, hl, ha⟩ := h
  exact ⟨olds, acts, waits, fresh, hl.of_same ht, ha⟩

theorem Ready.of_same (h : m.Ready cur) (ht : m'.turns = m.turns) (hr : m'.ready = m.ready) : m'.Ready cur :=
  ⟨by rw [hr, ht]; exact h.known, by rw [hr, ht]; exact h.fifo, by rw [hr, ht]; exact h.launched⟩

theorem mem_turnsOf {sid : String} : t ∈ m.turnsOf sid ↔ t ∈ m.turns ∧ t.session = sid := by
  simp [turnsOf]

theorem Line.mem (h : m.Line s olds acts waits fresh) (ht : t ∈ olds ++ (acts ++ (waits ++ fresh))) :
    t ∈ m.turns ∧ t.session = s.id := by
  rw [← h.turns] at ht
  exact mem_turnsOf.mp ht

theorem Line.nodup (h : m.Line s olds acts waits fresh) (hn : m.Named) :
    ((olds ++ (acts ++ (waits ++ fresh))).map Turn.id).Nodup := by
  rw [← h.turns]
  exact hn.nodup.sublist (List.filter_sublist.map _)

theorem Named.id_ne (hn : m.Named) (ht : t ∈ m.turns) {u : Turn} (hu : u ∈ m.turns) (hne : u.session ≠ t.session) :
    u.id ≠ t.id := by
  intro he
  exact hne (congrArg Turn.session (hn.eq_of_id hu ht he))

/-- Turn `t` of session `s` has the lock and goes on. The session has been closed since, if anything. -/
structure Held (B : Nat → List TurnNews) (m : Manager) (s : Session) (t : Turn) : Prop where
  sound : m.Sound B (some t.id)
  line : ∃ s' ∈ m.sessions, s'.id = s.id ∧ s'.waiters = s.waiters ∧ (s.closed = true → s'.closed = true) ∧
    ∃ olds t' waits fresh, m.Line s' olds [t'] waits fresh ∧ t'.tag = t.tag

theorem Held.calm (h : m.Held B s t) (c : m.Calm m') : m'.Held B s t := by
  obtain ⟨s', hs', hid, hw, hcl, olds, t', waits, fresh, hl, htag⟩ := h.line
  obtain ⟨g, f, hc, hp, hs⟩ := c.change
  obtain ⟨h1, h2, h3⟩ := hs s'
  refine ⟨h.sound.calm c, f s', ?_, (hc.id s').trans hid, h2.trans hw, fun hcs => h3 (hcl hcs), _, g t', _, _,
    hl.map hc hp ⟨h1, h2⟩, (hc.tag t').trans htag⟩
  rw [hc.sessions]
  exact List.mem_map_of_mem hs'

theorem told_publish (names : TurnNames) (news : TurnNews) (sid : String) (m : Manager) :
    (m.publish (.turn names news)).told sid =
      m.told sid ++ if names.sessionId = sid then [(names.requestId, news)] else [] := by
  simp only [told, publish, List.filterMap_append, List.filterMap_cons, List.filterMap_nil, Notice.of?]
  by_cases h : names.sessionId = sid <;> simp [h]

theorem flatMap_grow {ts : List Turn} {id : Nat} (h : ∀ u ∈ ts, u.id ≠ id) (ns : List TurnNews) :
    (ts.flatMap fun u => (grow B id ns u.id).map fun n => (u.requestId, n)) =
      ts.flatMap fun u => (B u.id).map fun n => (u.requestId, n) := by
  refine List.flatMap_congr fun u hu => ?_
  rw [grow_other B ns (h u hu)]

/-- What a turn tells comes last if nothing was told of the turns behind it. -/
theorem Line.flatMap_grow_self (hl : m.Line s olds [t] waits fresh) (hn : m.Named)
    (hb : ∀ u ∈ waits ++ fresh, u.id ≠ t.id ∧ B u.id = []) (ns : List TurnNews) :
    ((m.turnsOf s.id).flatMap fun u => (grow B t.id ns u.id).map fun n => (u.requestId, n)) =
      ((m.turnsOf s.id).flatMap fun u => (B u.id).map fun n => (u.requestId, n)) ++
        ns.map fun n => (t.requestId, n) := by
  have tail (C : Nat → List TurnNews) (hC : ∀ u ∈ waits ++ fresh, C u.id = []) :
      ((waits ++ fresh).flatMap fun u => (C u.id).map fun n => (u.requestId, n)) = [] := by
    refine List.flatMap_eq_nil_iff.mpr fun u hu => ?_
    rw [hC u hu, List.map_nil]
  have holds : ∀ u ∈ olds, u.id ≠ t.id := by
    have hnd := hl.nodup hn
    simp only [List.map_append, List.map_cons, List.map_nil, List.nodup_append, List.mem_append, List.mem_map,
      List.mem_singleton] at hnd
    intro u hu he
    exact hnd.2.2 u.id ⟨u, hu, rfl⟩ t.id (.inl rfl) he
  have htail : ∀ u ∈ waits ++ fresh, grow B t.id ns u.id = [] := by
    intro u hu
    rw [grow_other B ns (hb u hu).1, (hb u hu).2]
  rw [hl.turns]
  simp only [List.flatMap_append, List.flatMap_cons, List.flatMap_nil, List.append_nil]
  rw [flatMap_grow holds, ← List.flatMap_append, ← List.flatMap_append, tail B fun u hu => (hb u hu).2,
    tail (grow B t.id ns) htail, grow_self, List.map_append, List.append_nil, List.append_nil, List.append_assoc]

/-- The turns behind the one that has the lock have told nothing. -/
theorem Sound.behind {s' : Session} {t' : Turn} (h : m.Sound B (some t.id)) (hl : m.Line s' olds [t'] waits fresh)
    (htag : t'.tag = t.tag) : ∀ u ∈ waits ++ fresh, u.id ≠ t.id ∧ B u.id = [] := by
  intro u hu
  have hid : t'.id = t.id := congrArg Prod.fst htag
  have hne : u.id ≠ t.id := by
    have hn := hl.nodup h.named
    simp only [List.map_append, List.map_cons, List.map_nil, List.nodup_append, List.mem_append, List.mem_map,
      List.mem_singleton] at hn
    intro he
    refine hn.2.1.2.2 t'.id rfl u.id ?_ (hid.trans he.symm)
    rcases List.mem_append.mp hu with hu | hu
    · exact .inl ⟨u, hu, rfl⟩
    · exact .inr ⟨u, hu, rfl⟩
  have hm : u ∈ m.turns := (hl.mem (by simp [List.mem_append.mp hu])).1
  have hb := h.tells u hm (by simpa using hne.symm)
  refine ⟨hne, ?_⟩
  rcases List.mem_append.mp hu with hu | hu
  · rw [hl.waiting u hu] at hb
    exact hb
  · rw [hl.launched u hu] at hb
    exact hb

theorem Held.tell (h : m.Held B s t) (news : TurnNews) :
    (m.publish (.turn (names s t) news)).Held (grow B t.id [news]) s t := by
  obtain ⟨s', hs', hid, hw, hcl, olds, t', waits, fresh, hl, htag⟩ := h.line
  have hs := h.sound
  have htid : t'.id = t.id := congrArg Prod.fst htag
  have hrid : t'.requestId = t.requestId := congrArg (fun x => x.2.2) htag
  have htm := hl.mem (t := t') (by simp)
  have other {u : Turn} (hu : some t.id ≠ some u.id) : grow B t.id [news] u.id = B u.id :=
    grow_other B [news] fun he => hu (congrArg some he.symm)
  refine ⟨⟨hs.named.of_same rfl rfl rfl, fun v hv => (hs.queued v hv).of_same rfl, hs.ready.of_same rfl rfl, ?_, ?_, ?_,
    hs.once, ?_⟩, s', hs', hid, hw, hcl, olds, t', waits, fresh, hl.of_same rfl, htag⟩
  · intro sid
    rw [told_publish, hs.told]
    show _ = (m.turnsOf sid).flatMap _
    by_cases he : s'.id = sid
    · have hb : ∀ u ∈ waits ++ fresh, u.id ≠ t'.id ∧ B u.id = [] := htid ▸ hs.behind hl htag
      have hg := hl.flatMap_grow_self hs.named hb [news]
      rw [htid, hrid, he] at hg
      rw [hg]
      simp [names, hid ▸ he]
    · have hne : ∀ u ∈ m.turnsOf sid, u.id ≠ t.id := by
        intro u hu
        obtain ⟨hm, hus⟩ := mem_turnsOf.mp hu
        rw [← htid]
        refine hs.named.id_ne htm.1 hm ?_
        rw [hus, htm.2]
        exact fun hv => he hv.symm
      rw [flatMap_grow hne]
      simp [names, hid ▸ he]
  · intro u hu hc
    rw [other hc]
    exact hs.tells u hu hc
  · intro u hu hc hp hb
    rw [other hc] at hb
    exact hs.silent u hu hc hp hb
  · intro id hm
    obtain ⟨hlt, hb⟩ := hs.asked id hm
    refine ⟨hlt, ?_⟩
    unfold grow
    split
    · simp [hb]
    · exact hb

theorem Held.ask (h : m.Held B s t) (hna : t.id ∉ m.asked) (hb : B t.id ≠ []) :
    (m.noteAsked t.id).Held B s t := by
  obtain ⟨s', hs', hid, hw, hcl, olds, t', waits, fresh, hl, htag⟩ := h.line
  have hs := h.sound
  have htid : t'.id = t.id := congrArg Prod.fst htag
  refine ⟨⟨hs.named.of_same rfl rfl rfl, fun v hv => (hs.queued v hv).of_same rfl, hs.ready.of_same rfl rfl, hs.told,
    hs.tells, hs.silent, ?_, ?_⟩, s', hs', hid, hw, hcl, olds, t', waits, fresh, hl.of_same rfl, htag⟩
  · refine List.nodup_append.mpr ⟨hs.once, by simp, ?_⟩
    intro a ha b hb' he
    rw [List.mem_singleton.mp hb'] at he
    exact hna (he ▸ ha)
  · intro id hm
    rcases List.mem_append.mp hm with hm | hm
    · exact hs.asked id hm
    · rw [List.mem_singleton.mp hm, ← htid]
      exact ⟨hs.named.id_lt (hl.mem (by simp)).1, htid ▸ hb⟩

/-! ### The end of a step -/

section ends

variable {g : Turn → Turn} {f : Session → Session}

/-- A change leaves the line of a session as it is if it reaches none of its turns. -/
theorem Queued.other {cur' : Option Nat} (h : m.Queued cur s) (c : Change g f m m')
    (hg : ∀ u ∈ m.turnsOf s.id, g u = u) (hf : f s = s) (hc : ∀ u ∈ m.turnsOf s.id, cur ≠ some u.id) :
    m'.Queued cur' (f s) := by
  obtain ⟨olds, acts, waits, fresh, hl, ha⟩ := h
  rw [hf]
  refine ⟨olds, acts, waits, fresh, ⟨?_, hl.ended, hl.waiting, hl.launched, hl.holder, hl.waiters, hl.free⟩, ?_⟩
  · rw [c.turnsOf, ← hl.turns]
    conv_rhs => rw [← List.map_id' (m.turnsOf s.id)]
    exact List.map_congr_left hg
  · intro u hu
    have hm : u ∈ m.turnsOf s.id := by simp [hl.turns, hu]
    exact .inr ((ha u hu).resolve_left (hc u hm))

/-- Other sessions than the one of the turn that goes on keep their lines. -/
theorem Sound.elsewhere {id : Nat} {cur' : Option Nat} (h : m.Sound B (some id)) (ht : t ∈ m.turns) (hid : t.id = id)
    (c : Change g f m m') (hg : ∀ u ∈ m.turns, u.session ≠ t.session → g u = u) (hs : s ∈ m.sessions)
    (hne : s.id ≠ t.session) (hf : f s = s) : m'.Queued cur' (f s) := by
  have apart {u : Turn} (hu : u ∈ m.turnsOf s.id) : u ∈ m.turns ∧ u.session ≠ t.session := by
    obtain ⟨hm, hus⟩ := mem_turnsOf.mp hu
    exact ⟨hm, hus ▸ hne⟩
  refine (h.queued s hs).other c (fun u hu => hg u (apart hu).1 (apart hu).2) hf ?_
  intro u hu hc
  exact h.named.id_ne ht (apart hu).1 (apart hu).2 ((Option.some.inj hc).symm.trans hid.symm)

/-- The turns of a session in line after one of them has changed its place. -/
theorem Line.turnsOf_place (h : m.Line s olds acts waits fresh) (hn : m.Named) {before after : List Turn} {u : Turn}
    (hu : olds ++ (acts ++ (waits ++ fresh)) = before ++ u :: after) {id : Nat} (he : u.id = id) (p : TurnPlace) :
    (m.place id p).turnsOf s.id = before ++ { u with place := p } :: after := by
  subst he
  have hnd := h.nodup hn
  rw [hu] at hnd
  rw [(place_change u.id p m).turnsOf, h.turns, hu]
  exact map_at_key hnd fun t => { t with place := p }

theorem Line.ended_concat (h : m.Line s olds acts waits fresh) (ht : t.place = .over) :
    ∀ u ∈ olds ++ [t], u.place = .over := by
  intro u hu
  rcases List.mem_append.mp hu with hu | hu
  · exact h.ended u hu
  · rw [List.mem_singleton.mp hu, ht]

/-- The lock goes from the turn that is over to the one that has waited longest. -/
theorem Line.hand {next : Turn} {ws : List Turn} {r : List Nat} (h : m.Line s olds [t] (next :: ws) fresh)
    (hn : m.Named) (hr : ws.map Turn.id = r) :
    ((m.place t.id .over).place next.id .granted).Line { s with holder := some next.id, waiters := r }
      (olds ++ [{ t with place := .over }]) [{ next with place := .granted }] ws fresh := by
  have hl : (m.place t.id .over).Line s olds [{ t with place := .over }] (next :: ws) fresh :=
    ⟨h.turnsOf_place hn rfl rfl .over, h.ended, h.waiting, h.launched, h.holder, h.waiters, by simp⟩
  have hu : olds ++ ([{ t with place := .over }] ++ (next :: ws ++ fresh)) =
      olds ++ [{ t with place := .over }] ++ next :: (ws ++ fresh) := by simp
  refine ⟨?_, h.ended_concat rfl, fun u hu => h.waiting u (List.mem_cons_of_mem next hu), h.launched, rfl, hr, by simp⟩
  show ((m.place t.id .over).place next.id .granted).turnsOf s.id = _
  rw [hl.turnsOf_place ((place_change t.id .over m).named hn) hu rfl .granted]
  simp

/-- The turn that has the lock waits for its engine or for an interrupt. -/
theorem Held.stay (h : m.Held B s t) {p : TurnPlace} (ha : p.isActive = true) (ht : p.Tells (B t.id)) :
    (m.place t.id p).Sound B none := by
  obtain ⟨s', hs', hid, hw, hcl, olds, t', waits, fresh, hl, htag⟩ := h.line
  have hs := h.sound
  have htid : t'.id = t.id := congrArg Prod.fst htag
  have htm := hl.mem (t := t') (by simp)
  have here {u : Turn} (hu : u.id = t.id) : (u.placed t.id p).place = p := by
    rw [Turn.placed_self hu]
  have there {u : Turn} (hu : u.id ≠ t.id) : u.placed t.id p = u := Turn.placed_other hu p
  have hpl : p ≠ .launched := by
    rintro rfl
    cases ha
  have hpo : p ≠ .over := by
    rintro rfl
    cases ha
  refine hs.change (place_change t.id p m) ⟨[], (List.append_nil _).symm, by simp⟩ ?_ ?_ ?_ ?_
  · intro u hu hul
    by_cases he : u.id = t.id
    · rw [here he] at hul
      exact absurd hul hpl
    · rw [there he] at hul
      exact ⟨hul, fun _ hc => he (Option.some.inj hc).symm⟩
  · intro v hv
    by_cases he : v.id = s'.id
    · have hvs := hs.named.session_eq hv hs' he
      subst hvs
      refine ⟨olds, [{ t' with place := p }], waits, fresh,
        ⟨?_, hl.ended, hl.waiting, hl.launched, hl.holder, hl.waiters, by simp⟩, ?_⟩
      · exact hl.turnsOf_place hs.named rfl htid p
      · intro u hu
        rw [List.mem_singleton.mp hu]
        exact .inr ha
    · refine hs.elsewhere htm.1 htid (place_change t.id p m) ?_ hv (htm.2 ▸ he) rfl
      intro u hu hne
      exact there (htid ▸ hs.named.id_ne htm.1 hu hne)
  · intro u hu _
    by_cases he : u.id = t.id
    · rw [here he, he]
      exact ht
    · rw [there he]
      exact hs.tells u hu fun hc => he (Option.some.inj hc).symm
  · intro u hu _ hov hb v hv hvu
    by_cases he : u.id = t.id
    · rw [here he] at hov
      exact absurd hov hpo
    · rw [there he] at hov
      exact hs.silent u hu (fun hc => he (Option.some.inj hc).symm) hov hb v hv hvu

/-- The turn that has the lock is over; the one that has waited longest may have been given the lock. -/
theorem Held.over (h : m.Held B s t) (ht : TurnPlace.over.Tells (B t.id)) (hb : B t.id = [] → s.closed = true)
    (c : Change g f m m') (self : ∀ u ∈ m.turns, u.id = t.id → (g u).place = .over)
    (other : ∀ u ∈ m.turns, u.id ≠ t.id → g u = u ∨ (u.place = .waiting ∧ (g u).place = .granted))
    (closed : ∀ v, (f v).closed = v.closed)
    (ready : ∃ xs, m'.ready = m.ready ++ xs ∧ ∀ id ∈ xs, ∃ t ∈ m.turns, t.id = id ∧ (g t).place ≠ .launched)
    (queued : ∀ v ∈ m.sessions, m'.Queued none (f v)) : m'.Sound B none := by
  obtain ⟨s', hs', hid, hw, hcl, olds, t', waits, fresh, hl, htag⟩ := h.line
  have hs := h.sound
  have htid : t'.id = t.id := congrArg Prod.fst htag
  have htm := hl.mem (t := t') (by simp)
  have cur {u : Turn} (he : u.id ≠ t.id) : some t.id ≠ some u.id := fun hc => he (Option.some.inj hc).symm
  refine hs.change c ready ?_ queued ?_ ?_
  · intro u hu hp
    by_cases he : u.id = t.id
    · rw [self u hu he] at hp
      cases hp
    · rcases other u hu he with hg | ⟨_, hg⟩
      · rw [hg] at hp
        exact ⟨hp, fun _ => cur he⟩
      · rw [hg] at hp
        cases hp
  · intro u hu _
    by_cases he : u.id = t.id
    · rw [self u hu he, he]
      exact ht
    · have hu' := hs.tells u hu (cur he)
      rcases other u hu he with hg | ⟨hp, hg⟩
      · rw [hg]
        exact hu'
      · rw [hp] at hu'
        rw [hg]
        exact hu'
  · intro u hu _ hov hbu v hv hvu
    rw [closed]
    by_cases he : u.id = t.id
    · have hut : u = t' := hs.named.eq_of_id hu htm.1 (he.trans htid.symm)
      have hvs : v = s' := hs.named.session_eq hv hs' (by rw [hvu, hut, htm.2])
      rw [hvs]
      exact hcl (hb (he ▸ hbu))
    · rcases other u hu he with hg | ⟨_, hg⟩
      · rw [hg] at hov
        exact hs.silent u hu (cur he) hov hbu v hv hvu
      · rw [hg] at hov
        cases hov

theorem Held.finish_free (h : m.Held B s t) (ht : TurnPlace.over.Tells (B t.id))
    (hb : B t.id = [] → s.closed = true) (hws : s.waiters = []) :
    ((m.place t.id .over).modifySession s.id fun s => { s with holder := none }).Sound B none := by
  obtain ⟨s', hs', hid, hw, hcl, olds, t', waits, fresh, hl, htag⟩ := h.line
  have hs := h.sound
  have htid : t'.id = t.id := congrArg Prod.fst htag
  have htm := hl.mem (t := t') (by simp)
  have c := (place_change t.id .over m).trans (modifySession_change s.id (f := fun s => { s with holder := none })
    (fun _ => rfl) (m.place t.id .over))
  refine h.over ht hb c ?_ ?_ ?_ ⟨[], (List.append_nil _).symm, by simp⟩ ?_
  · intro u _ he
    rw [Turn.placed_self he]
  · intro u _ he
    exact .inl (Turn.placed_other he .over)
  · intro v
    rw [Session.changed_closed]
    exact fun _ => rfl
  · intro v hv
    by_cases he : v.id = s'.id
    · have hvs := hs.named.session_eq hv hs' he
      subst hvs
      rw [Session.changed_self hid]
      have hwn : waits = [] := List.map_eq_nil_iff.mp (by rw [hl.waiters, hw, hws])
      subst hwn
      refine ⟨olds ++ [{ t' with place := .over }], [], [], fresh,
        ⟨?_, hl.ended_concat rfl, by simp, hl.launched, rfl, hl.waiters, by simp⟩, by simp⟩
      show (m.place t.id .over).turnsOf v.id = _
      rw [hl.turnsOf_place hs.named rfl htid .over, List.append_assoc]
      rfl
    · refine hs.elsewhere htm.1 htid c ?_ hv (htm.2 ▸ he) (Session.changed_other (hid ▸ he) _)
      intro u hu hne
      exact Turn.placed_other (htid ▸ hs.named.id_ne htm.1 hu hne) .over

theorem Held.finish_next (h : m.Held B s t) (ht : TurnPlace.over.Tells (B t.id))
    (hb : B t.id = [] → s.closed = true) {w : Nat} {r : List Nat} (hws : s.waiters = w :: r) :
    ((((m.place t.id .over).modifySession s.id fun s => { s with holder := some w, waiters := r }).place w
      .granted).wake w).Sound B none := by
  obtain ⟨s', hs', hid, hw, hcl, olds, t', waits, fresh, hl, htag⟩ := h.line
  have hs := h.sound
  have htid : t'.id = t.id := congrArg Prod.fst htag
  have htm := hl.mem (t := t') (by simp)
  obtain ⟨next, ws, rfl, hnid, hr⟩ : ∃ next ws, waits = next :: ws ∧ next.id = w ∧ ws.map Turn.id = r :=
    List.map_eq_cons_iff.mp (by rw [hl.waiters, hw, hws])
  have hnm := hl.mem (t := next) (by simp)
  have hnt : w ≠ t.id := hnid ▸ (hs.behind hl htag next (by simp)).1
  have hnp : next.place = .waiting := hl.waiting next (by simp)
  have c := (((place_change t.id .over m).trans (modifySession_change s.id
    (f := fun s => { s with holder := some w, waiters := r }) (fun _ => rfl) (m.place t.id .over))).trans
    (place_change w .granted _)).wake w
  -- The two places that change belong to different turns, so that each turn has changed once at most.
  refine h.over ht hb c ?_ ?_ ?_ ⟨[w], rfl, ?_⟩ ?_
  · intro u _ he
    rw [Turn.placed_self he]
    exact congrArg Turn.place (Turn.placed_other (t := { u with place := .over })
      (fun hu => hnt (hu.symm.trans he)) .granted)
  · intro u hu he
    rw [Turn.placed_other he]
    by_cases hun : u.id = w
    · have hun' : u = next := hs.named.eq_of_id hu hnm.1 (hun.trans hnid.symm)
      rw [Turn.placed_self hun]
      exact .inr ⟨hun' ▸ hnp, rfl⟩
    · exact .inl (Turn.placed_other hun .granted)
  · intro v
    rw [Session.changed_closed]
    exact fun _ => rfl
  · intro id hm
    rw [List.mem_singleton.mp hm]
    refine ⟨next, hnm.1, hnid, ?_⟩
    rw [Turn.placed_other (fun he => hnt (hnid.symm.trans he)), Turn.placed_self hnid]
    simp
  · intro v hv
    by_cases he : v.id = s'.id
    · have hvs := hs.named.session_eq hv hs' he
      subst hvs
      rw [Session.changed_self hid]
      have hh := hl.hand hs.named hr
      rw [htid, hnid] at hh
      refine ⟨_, _, ws, fresh, hh.of_same rfl, ?_⟩
      intro u hu
      rw [List.mem_singleton.mp hu]
      exact .inr rfl
    · refine hs.elsewhere htm.1 htid c ?_ hv (htm.2 ▸ he) (Session.changed_other (hid ▸ he) _)
      intro u hu hne
      have hut : u.id ≠ t.id := htid ▸ hs.named.id_ne htm.1 hu hne
      have huw : u.id ≠ w := hnid ▸ hs.named.id_ne hnm.1 hu (by rw [hnm.2, ← htm.2]; exact hne)
      rw [Turn.placed_other hut, Turn.placed_other huw]

end ends

end Manager

end StackDeck.Diagnosis
