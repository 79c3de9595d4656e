import Mathlib.Algebra.GroupWithZero.Nat
import Mathlib.Data.List.Induction
import StackDeck.Proofs.Diagnosis.Call
import StackDeck.Proofs.Diagnosis.Episode

/-!
Which sessions an engine was told to close. A session that was opened can be reached until it is closed, and it is
closed once.
-/

namespace StackDeck.Diagnosis

/-- The session whose end is announced. -/
def Notice.closed? : Notice → Option String
  | .closed id _ _ => some id
  | .turn .. => none

/-- A session, after those of some names were closed. -/
def Session.shut (ids : List String) (v : Session) : Session := if v.id ∈ ids then { v with closed := true } else v

/-- What announces the end of a session. -/
def Session.farewell (v : Session) : Notice := .closed v.id v.service v.provider

theorem Session.shut_id (ids : List String) (v : Session) : (v.shut ids).id = v.id := by
  unfold shut
  split <;> rfl

theorem Session.shut_engine (ids : List String) (v : Session) : (v.shut ids).engine = v.engine := by
  unfold shut
  split <;> rfl

theorem Session.shut_closed (ids : List String) (v : Session) :
    (v.shut ids).closed = true ↔ v.closed = true ∨ v.id ∈ ids := by
  unfold shut
  split
  next h => simp [h]
  next h => simp [h]

theorem Session.changed_closed_eq_shut (id : String) (v : Session) :
    v.changed id (fun s => { s with closed := true }) = v.shut [id] := by
  simp only [changed, shut, List.mem_singleton, beq_iff_eq]

/-- The names of the sessions that are open, or closed. -/
def idsWith (b : Bool) (vs : List Session) : List String := (vs.filter fun v => v.closed == b).map Session.id

theorem mem_idsWith {b : Bool} {vs : List Session} {id : String} :
    id ∈ idsWith b vs ↔ ∃ v ∈ vs, v.id = id ∧ v.closed = b := by
  simp only [idsWith, List.mem_map, List.mem_filter, beq_iff_eq]
  exact ⟨fun ⟨v, ⟨hv, hb⟩, he⟩ => ⟨v, hv, he, hb⟩, fun ⟨v, hv, he, hb⟩ => ⟨v, ⟨hv, hb⟩, he⟩⟩

theorem nodup_idsWith {vs : List Session} (h : (vs.map Session.id).Nodup) (b : Bool) : (idsWith b vs).Nodup :=
  h.sublist (List.filter_sublist.map _)

theorem idsWith_map {f : Session → Session} (hf : ∀ v, (f v).id = v.id ∧ (f v).closed = v.closed) (b : Bool)
    (vs : List Session) : idsWith b (vs.map f) = idsWith b vs := by
  unfold idsWith
  rw [List.filter_map, List.map_map]
  have hp : ((fun v : Session => v.closed == b) ∘ f) = fun v => v.closed == b := by
    funext v
    rw [Function.comp_apply, (hf v).2]
  rw [hp]
  exact List.map_congr_left fun v _ => (hf v).1

theorem idsWith_shut_open (ids : List String) (vs : List Session) :
    idsWith false (vs.map (Session.shut ids)) = (idsWith false vs).filter fun id => id ∉ ids := by
  unfold idsWith
  rw [List.filter_map, List.map_map, List.filter_map, List.filter_filter]
  have hid : Session.id ∘ Session.shut ids = Session.id := funext (Session.shut_id ids)
  rw [hid]
  congr 1
  refine List.filter_congr fun v _ => ?_
  by_cases hm : v.id ∈ ids <;> cases hc : v.closed <;> simp [Session.shut, hm, hc]

/-- Sessions that were open are closed in addition to those that were closed. -/
theorem idsWith_shut_closed {ids : List String} {vs : List Session} (hvs : (vs.map Session.id).Nodup)
    (hids : ids.Nodup) (hopen : ∀ id ∈ ids, id ∈ idsWith false vs) :
    (idsWith true vs ++ ids).Perm (idsWith true (vs.map (Session.shut ids))) := by
  have hshut : ((vs.map (Session.shut ids)).map Session.id).Nodup := by
    rw [List.map_map]
    exact (List.map_congr_left fun v _ => Session.shut_id ids v) ▸ hvs
  have hapart : (idsWith true vs ++ ids).Nodup := by
    refine List.nodup_append.mpr ⟨nodup_idsWith hvs true, hids, fun a ha b hb hab => ?_⟩
    obtain ⟨v, hv, hva, hc⟩ := mem_idsWith.mp ha
    obtain ⟨w, hw, hwb, hc'⟩ := mem_idsWith.mp (hopen b hb)
    rw [List.inj_on_of_nodup_map hvs hv hw (hva.trans (hab.trans hwb.symm)), hc'] at hc
    cases hc
  refine (List.perm_ext_iff_of_nodup hapart (nodup_idsWith hshut true)).mpr fun id => ?_
  simp only [List.mem_append, mem_idsWith, List.mem_map]
  constructor
  · rintro (⟨v, hv, hid, hc⟩ | hm)
    · exact ⟨v.shut ids, ⟨v, hv, rfl⟩, (v.shut_id ids).trans hid, (v.shut_closed ids).mpr (.inl hc)⟩
    · obtain ⟨v, hv, hid, -⟩ := mem_idsWith.mp (hopen id hm)
      exact ⟨v.shut ids, ⟨v, hv, rfl⟩, (v.shut_id ids).trans hid, (v.shut_closed ids).mpr (.inr (hid ▸ hm))⟩
  · rintro ⟨_, ⟨v, hv, rfl⟩, hid, hc⟩
    rw [Session.shut_id] at hid
    rcases (v.shut_closed ids).mp hc with hc | hm
    · exact .inl ⟨v, hv, hid, hc⟩
    · exact .inr (hid ▸ hm)

namespace Manager

/-- The sessions whose end was announced, in that order. -/
def farewells (m : Manager) : List String := m.notices.filterMap Notice.closed?

/-- How often the engines were told to close a session. -/
def closeCalls (m : Manager) : Nat := (m.engines.map Engine.closed).sum

/-- The sessions that were opened can be reached, or they were closed and their end was announced. -/
structure Accounted (opened : List String) (n : Nat) (m : Manager) : Prop where
  opened : opened = m.sessions.map Session.id
  length : m.engines.length = n
  served : ∀ v ∈ m.sessions, v.engine < n
  registry : m.registry = idsWith false m.sessions
  closings : m.closings.Perm (idsWith true m.sessions)
  farewells : m.farewells = m.closings

variable {m m' : Manager} {s t v : Session} {B : Nat → List TurnNews} {opened : List String} {n : Nat}

/-! ### The accounts of one state -/

theorem Accounted.nodup (h : m.Accounted opened n) (hs : m.Sound B none) : opened.Nodup :=
  h.opened ▸ hs.named.nodup_sessions

theorem Accounted.registered (h : m.Accounted opened n) (hs : m.Sound B none) (hv : v ∈ m.sessions) :
    v.id ∈ m.registry ↔ v.closed = false := by
  rw [h.registry, mem_idsWith]
  refine ⟨fun ⟨w, hw, he, hc⟩ => ?_, fun hc => ⟨v, hv, rfl, hc⟩⟩
  rw [← hs.named.session_eq hw hv he]
  exact hc

theorem Accounted.closed (h : m.Accounted opened n) (hs : m.Sound B none) (hv : v ∈ m.sessions) :
    v.id ∈ m.closings ↔ v.closed = true := by
  rw [h.closings.mem_iff, mem_idsWith]
  refine ⟨fun ⟨w, hw, he, hc⟩ => ?_, fun hc => ⟨v, hv, rfl, hc⟩⟩
  rw [← hs.named.session_eq hw hv he]
  exact hc

/-- A session can be reached, or an engine was told to close it and its end was announced, once and never both. -/
theorem Accounted.once (h : m.Accounted opened n) (hs : m.Sound B none) {id : String} (hid : id ∈ opened) :
    (m.registry.count id = 1 ∧ m.closings.count id = 0 ∧ m.farewells.count id = 0) ∨
      (m.registry.count id = 0 ∧ m.closings.count id = 1 ∧ m.farewells.count id = 1) := by
  rw [h.farewells]
  rw [h.opened] at hid
  obtain ⟨v, hv, rfl⟩ := List.mem_map.mp hid
  have hreg : m.registry.Nodup := h.registry ▸ nodup_idsWith hs.named.nodup_sessions false
  have hclo : m.closings.Nodup := h.closings.nodup_iff.mpr (nodup_idsWith hs.named.nodup_sessions true)
  have hr := h.registered hs hv
  have hc := h.closed hs hv
  cases hvc : v.closed with
  | false =>
    rw [hvc] at hr hc
    have h1 := List.count_eq_one_of_mem hreg (hr.mpr rfl)
    have h0 := List.count_eq_zero_of_not_mem fun hm => Bool.false_ne_true (hc.mp hm)
    exact .inl ⟨h1, h0, h0⟩
  | true =>
    rw [hvc] at hr hc
    have h1 := List.count_eq_one_of_mem hclo (hc.mpr rfl)
    have h0 := List.count_eq_zero_of_not_mem fun hm => Bool.false_ne_true (hr.mp hm).symm
    exact .inr ⟨h0, h1, h1⟩

theorem Accounted.changed (h : m.Accounted opened n) {f : Session → Session}
    (hf : ∀ v, (f v).id = v.id ∧ (f v).closed = v.closed ∧ (f v).engine = v.engine)
    (hsessions : m'.sessions = m.sessions.map f) (hengines : m'.engines.length = m.engines.length)
    (hregistry : m'.registry = m.registry) (hclosings : m'.closings = m.closings)
    (hfarewells : m'.farewells = m.farewells) : m'.Accounted opened n := by
  have hids (b : Bool) : idsWith b m'.sessions = idsWith b m.sessions := by
    rw [hsessions, idsWith_map fun v => ⟨(hf v).1, (hf v).2.1⟩]
  refine ⟨?_, hengines.trans h.length, ?_, by rw [hregistry, hids, h.registry], by rw [hclosings, hids]; exact h.closings,
    by rw [hfarewells, hclosings, h.farewells]⟩
  · rw [hsessions, List.map_map, h.opened]
    exact List.map_congr_left fun v _ => (hf v).1.symm
  · intro v hv
    rw [hsessions] at hv
    obtain ⟨w, hw, rfl⟩ := List.mem_map.mp hv
    rw [(hf w).2.2]
    exact h.served w hw

theorem Accounted.same (h : m.Accounted opened n) (hsessions : m'.sessions = m.sessions)
    (hengines : m'.engines.length = m.engines.length) (hregistry : m'.registry = m.registry)
    (hclosings : m'.closings = m.closings) (hfarewells : m'.farewells = m.farewells) : m'.Accounted opened n :=
  h.changed (f := fun v => v) (fun _ => ⟨rfl, rfl, rfl⟩) (by rw [hsessions, List.map_id']) hengines hregistry hclosings
    hfarewells

theorem Accounted.enroll (h : m.Accounted opened n) (hopen : v.closed = false) (hengine : v.engine < n)
    (hsessions : m'.sessions = m.sessions ++ [v]) (hengines : m'.engines.length = m.engines.length)
    (hregistry : m'.registry = m.registry ++ [v.id]) (hclosings : m'.closings = m.closings)
    (hfarewells : m'.farewells = m.farewells) : m'.Accounted (opened ++ [v.id]) n := by
  have hids (b : Bool) : idsWith b m'.sessions = idsWith b m.sessions ++ if b then [] else [v.id] := by
    rw [hsessions]
    unfold idsWith
    rw [List.filter_append, List.map_append]
    cases b <;> simp [hopen]
  refine ⟨by rw [hsessions, List.map_append, h.opened]; rfl, hengines.trans h.length, ?_, ?_, ?_,
    by rw [hfarewells, hclosings, h.farewells]⟩
  · intro w hw
    rw [hsessions] at hw
    rcases List.mem_append.mp hw with hw | hw
    · exact h.served w hw
    · rw [List.mem_singleton.mp hw]
      exact hengine
  · rw [hregistry, hids, h.registry]
    rfl
  · rw [hclosings, hids, if_pos rfl, List.append_nil]
    exact h.closings

/-- Sessions that can be reached are taken from the registry and closed, each once. -/
theorem Accounted.shut (h : m.Accounted opened n) (hs : m.Sound B none) {ids : List String} (hids : ids.Nodup)
    (hin : ∀ id ∈ ids, id ∈ m.registry) (hsessions : m'.sessions = m.sessions.map (Session.shut ids))
    (hengines : m'.engines.length = m.engines.length)
    (hregistry : m'.registry = m.registry.filter fun id => id ∉ ids) (hclosings : m'.closings = m.closings ++ ids)
    (hfarewells : m'.farewells = m.farewells ++ ids) : m'.Accounted opened n := by
  refine ⟨?_, hengines.trans h.length, ?_, ?_, ?_, by rw [hfarewells, hclosings, h.farewells]⟩
  · rw [hsessions, List.map_map, h.opened]
    exact List.map_congr_left fun v _ => (v.shut_id ids).symm
  · intro v hv
    rw [hsessions] at hv
    obtain ⟨w, hw, rfl⟩ := List.mem_map.mp hv
    rw [Session.shut_engine]
    exact h.served w hw
  · rw [hregistry, hsessions, idsWith_shut_open, h.registry]
  · rw [hclosings, hsessions]
    exact (h.closings.append_right ids).trans
      (idsWith_shut_closed hs.named.nodup_sessions hids fun id hid => h.registry ▸ hin id hid)

/-! ### Sessions that are released one after another -/

/-- Sessions are released one after another, whatever their engines say to it. -/
structure ReleasesAll (ss : List Session) (m m' : Manager) : Prop where
  sessions : m'.sessions = m.sessions.map (Session.shut (ss.map Session.id))
  notices : m'.notices = m.notices ++ ss.map Session.farewell
  closings : m'.closings = m.closings ++ ss.map Session.id
  registry : m'.registry = m.registry
  length : m'.engines.length = m.engines.length
  calls : m'.closeCalls = m.closeCalls + ss.length

theorem sum_set {f : Engine → Nat} {es : List Engine} {k : Nat} (hk : k < es.length) {y : Engine}
    (hy : f y = f es[k] + 1) : ((es.set k y).map f).sum = (es.map f).sum + 1 := by
  induction es generalizing k with
  | nil => cases hk
  | cons e r ih =>
    cases k with
    | zero =>
      rw [List.getElem_cons_zero] at hy
      simp only [List.set_cons_zero, List.map_cons, List.sum_cons, hy]
      omega
    | succ k =>
      have hr := ih (Nat.lt_of_succ_lt_succ hk) hy
      simp only [List.set_cons_succ, List.map_cons, List.sum_cons, hr]
      omega

theorem ReleasesAll.cons {m'' : Manager} {ss : List Session} (h : Releases s m m') (hk : s.engine < m.engines.length)
    (h' : ReleasesAll ss m' m'') : ReleasesAll (s :: ss) m m'' := by
  have hx := List.getElem?_eq_getElem hk
  have hcalls : m'.closeCalls = m.closeCalls + 1 := by
    rw [closeCalls, h.engines _ hx]
    exact sum_set hk rfl
  refine ⟨?_, ?_, ?_, h'.registry.trans h.registry, h'.length.trans h.length, ?_⟩
  · rw [h'.sessions, h.sessions, List.map_map]
    refine List.map_congr_left fun v _ => ?_
    rw [Function.comp_apply, Session.changed_closed_eq_shut]
    by_cases hv : v.id = s.id
    · by_cases hm : v.id ∈ ss.map Session.id <;> simp [Session.shut, hv]
    · simp only [Session.shut, List.map_cons, List.mem_cons, List.not_mem_nil, or_false, hv, if_false, false_or]
  · rw [h'.notices, h.notices, List.append_assoc]
    rfl
  · rw [h'.closings, h.closings, if_pos hk, List.append_assoc]
    rfl
  · rw [h'.calls, hcalls, List.length_cons]
    omega

theorem releaseAll_releases (ss : List Session) (m : Manager) (hk : ∀ s ∈ ss, s.engine < m.engines.length) :
    ReleasesAll ss m (ss.foldl (fun m s => (m.release s).2) m) := by
  induction ss generalizing m with
  | nil =>
    refine ⟨?_, (List.append_nil _).symm, (List.append_nil _).symm, rfl, rfl, rfl⟩
    rw [List.foldl_nil]
    conv_lhs => rw [← List.map_id' m.sessions]
    exact List.map_congr_left fun v _ => (if_neg List.not_mem_nil).symm
  | cons s r ih =>
    have h := release_releases s m
    refine .cons h (hk s (by simp)) (ih _ fun t ht => ?_)
    rw [h.length]
    exact hk t (List.mem_cons_of_mem s ht)

theorem ReleasesAll.farewells {ss : List Session} (h : ReleasesAll ss m m') :
    m'.farewells = m.farewells ++ ss.map Session.id := by
  rw [Manager.farewells, h.notices, List.filterMap_append, List.filterMap_map, Manager.farewells]
  congr 1
  have hid : Notice.closed? ∘ Session.farewell = some ∘ Session.id := rfl
  rw [hid, List.filterMap_eq_map]

/-! ### Calls and steps -/

theorem Accounted.launch (h : m.Accounted opened n) (s : Session) (prompt : String) :
    (m.launch s prompt).2.Accounted opened n := by
  refine h.changed (f := Session.changed s.id fun s => { s with pending := s.pending + 1 }) (fun v => ?_) rfl rfl rfl
    rfl rfl
  unfold Session.changed
  split <;> exact ⟨rfl, rfl, rfl⟩

theorem Accounted.message (h : m.Accounted opened n) (id prompt : String) :
    (m.message id prompt).2.Accounted opened n := by
  unfold Manager.message
  split
  · exact h
  · cases m.reach id with
    | error e => exact h
    | ok s => exact h.launch s prompt

theorem Accounted.interrupt (h : m.Accounted opened n) (id : String) : (m.interrupt id).2.Accounted opened n := by
  rcases interrupt_cases id m with (⟨e, -, he⟩ | ⟨v, -, -, -, -, he⟩) | ⟨v, -, -, -, -, rd, he⟩
  · rw [he]
    exact h
  · rw [he]
    exact h
  · rw [he]
    refine h.changed (f := Session.changed id fun s => { s with interrupted := true }) (fun v => ?_) rfl rfl rfl rfl rfl
    unfold Session.changed
    split <;> exact ⟨rfl, rfl, rfl⟩

theorem Accounted.setEngine (h : m.Accounted opened n) (k : Nat) (x : Engine) :
    (m.setEngine k x).Accounted opened n :=
  h.same rfl List.length_set rfl rfl rfl

/-- The session that a start returns, if it opens one. -/
def openedBy (st : Startup) (m : Manager) : List String :=
  match (m.completeStart st).1 with
  | .ok started => [started.sessionId]
  | .error _ => []

theorem Accounted.completeStart (h : m.Accounted opened n) (st : Startup) :
    (m.completeStart st).2.Accounted (opened ++ m.openedBy st) n := by
  rcases completeStart_cases st m with ⟨e, he, hm⟩ | ⟨x, hx, started, m', he, hr⟩
  · rw [openedBy, he, List.append_nil]
    rcases hm with hm | ⟨x, -, hm⟩
    · rw [hm]
      exact h
    · rw [hm]
      exact h.setEngine _ _
  · rw [openedBy, he]
    let opening := m.setEngine st.engine x.openSession.2
    let new := opening.newcomer st.service st.engine x.openSession.2
    obtain ⟨prompt, hreg⟩ := register_eq st.service st.engine x.openSession.2 opening
    rw [hreg] at hr
    have hk : st.engine < n := h.length ▸ (List.getElem?_eq_some_iff.mp hx).1
    have hin : (opening.enlist new).Accounted (opened ++ [new.id]) n :=
      (h.setEngine st.engine x.openSession.2).enroll rfl hk rfl rfl rfl rfl rfl
    have hlaunch := hin.launch new prompt
    rw [← hr] at hlaunch
    have hid : started.sessionId = _ := congrArg (fun r => r.1.sessionId) hr
    dsimp only
    rw [hid]
    exact hlaunch

/-- A session that is closed is taken from the registry, its engine is told, and its end is announced. -/
theorem close_releases {id : String} (hid : s.id = id) (hk : s.engine < m.engines.length)
    (hr : Releases s { m with registry := m.registry.filter (· != id) } m') :
    ReleasesAll [s] { m with registry := m.registry.filter fun k => k ∉ [s.id] } m' := by
  have hfilter : (m.registry.filter fun k => k ∉ [s.id]) = m.registry.filter (· != id) := by
    refine List.filter_congr fun k _ => ?_
    rw [Bool.eq_iff_iff]
    simp [hid]
  rw [hfilter]
  exact .cons hr hk (releaseAll_releases [] m' nofun)

theorem Accounted.releaseAll (h : m.Accounted opened n) (hs : m.Sound B none) {ss : List Session}
    (hnd : (ss.map Session.id).Nodup) (hin : ∀ id ∈ ss.map Session.id, id ∈ m.registry)
    (hr : ReleasesAll ss { m with registry := m.registry.filter fun k => k ∉ ss.map Session.id } m') :
    m'.Accounted opened n :=
  h.shut hs hnd hin hr.sessions hr.length hr.registry hr.closings hr.farewells

theorem Accounted.close (h : m.Accounted opened n) (hs : m.Sound B none) (id : String) :
    (m.close id).2.Accounted opened n := by
  rcases close_cases id m with ⟨e, -, he⟩ | ⟨s, hsm, hid, hreg, hr, -⟩
  · rw [he]
    exact h
  · have hk : s.engine < m.engines.length := h.length ▸ h.served s hsm
    refine h.releaseAll hs (by simp) ?_ (close_releases hid hk hr)
    simpa [hid] using hreg

/-- The sessions that can be reached, oldest first. -/
def reachable (m : Manager) : List Session := m.sessions.filter fun v => m.registry.contains v.id

theorem Accounted.ids_reachable (h : m.Accounted opened n) (hs : m.Sound B none) :
    m.reachable.map Session.id = m.registry := by
  have hopen : m.reachable = m.sessions.filter fun v => v.closed == false := by
    refine List.filter_congr fun v hv => ?_
    rw [Bool.eq_iff_iff, List.contains_iff_mem, h.registered hs hv, beq_iff_eq]
  rw [hopen, h.registry]
  rfl

/-- Every session is released, even if engines fail at it. -/
theorem Accounted.closeAll_releases (h : m.Accounted opened n) :
    ReleasesAll m.reachable { m with registry := [] } m.closeAll := by
  refine releaseAll_releases m.reachable { m with registry := [] } fun s hsm => ?_
  have hk := h.served s (List.mem_filter.mp hsm).1
  exact h.length ▸ hk

theorem Accounted.closeAll (h : m.Accounted opened n) (hs : m.Sound B none) : m.closeAll.Accounted opened n := by
  have hids := h.ids_reachable hs
  have hfilter : (m.registry.filter fun k => k ∉ m.reachable.map Session.id) = [] := by
    rw [hids]
    exact List.filter_eq_nil_iff.mpr fun k hk => by simpa using hk
  refine h.releaseAll hs ?_ ?_ (hfilter ▸ h.closeAll_releases)
  · rw [hids, h.registry]
    exact nodup_idsWith hs.named.nodup_sessions false
  · rw [hids]
    exact fun id hid => hid

/-! ### What the engines count -/

/-- The engines count every closing, and nothing else. -/
def Tallied (m m' : Manager) : Prop := m'.closeCalls + m.closings.length = m.closeCalls + m'.closings.length

theorem Tallied.of_same (he : m'.closeCalls = m.closeCalls) (hc : m'.closings = m.closings) : Tallied m m' := by
  rw [Tallied, he, hc]

end Manager

namespace Scene

variable {s : Scene} {B : Nat → List TurnNews} {ids : List String} {n : Nat}

/-- The sessions that starts return in a move. -/
def opened (s : Scene) : Move → List String
  | .complete k => (s.startups[k]?.map fun st => s.manager.openedBy st).getD []
  | _ => []

end Scene

end StackDeck.Diagnosis
