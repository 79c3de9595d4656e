import StackDeck.Proofs.Diagnosis.Clock
import StackDeck.Proofs.Diagnosis.Episode
import StackDeck.Proofs.Diagnosis.Call

/-!
Calls about sessions that fail, and when a session can be started. Whatever a call fails at, it has changed no
session and launched no turn; only the engine that was asked to open a session may know of it.
-/

namespace StackDeck

def errorOf {ε α : Type} : Except ε α → Option ε
  | .ok _ => none
  | .error e => some e

theorem errorOf_eq_some {ε α : Type} {r : Except ε α} {e : ε} : errorOf r = some e ↔ r = .error e := by
  cases r <;> simp [errorOf]

theorem findIdx?_take {α : Type} {xs : List α} {p : α → Bool} {x : α} {k : Nat} (hx : xs[k]? = some x) :
    xs.findIdx? p = some k ↔ p x = true ∧ ∀ y ∈ xs.take k, p y = false := by
  obtain ⟨hk, rfl⟩ := List.getElem?_eq_some_iff.mp hx
  rw [List.findIdx?_eq_some_iff_getElem]
  constructor
  · rintro ⟨_, hp, hlt⟩
    refine ⟨hp, fun y hy => ?_⟩
    obtain ⟨j, hj, rfl⟩ := List.mem_take_iff_getElem.mp hy
    simpa using hlt j (by omega)
  · rintro ⟨hp, hlt⟩
    refine ⟨hk, hp, fun j hj => ?_⟩
    simpa using hlt xs[j] (List.mem_take_iff_getElem.mpr ⟨j, by omega, rfl⟩)

namespace Diagnosis

namespace Manager

variable {m m' m'' : Manager} {B : Nat → List TurnNews} {x : Engine} {k : Nat} {provider : Option String}

/-! ### The engine of a call -/

/-- The engine that a call names: the first one without a name or with a blank one, else the first that is called
so. -/
def Chooses (m : Manager) (provider : Option String) (k : Nat) (x : Engine) : Prop :=
  m.engines[k]? = some x ∧
    ((∀ p, provider = some p → Text.isBlank p = true) ∧ k = 0 ∨
      ∃ p, provider = some p ∧ Text.isBlank p = false ∧ x.id = p ∧ ∀ y ∈ m.engines.take k, y.id ≠ p)

/-- The place of an engine is found first, then the engine. -/
theorem engine?_ok_iff_seat : m.engine? provider = .ok (k, x) ↔ m.engines[k]? = some x ∧
    ((provider.filter fun p => !Text.isBlank p).elim (some 0) fun p => m.engines.findIdx? fun y => y.id == p) =
      some k := by
  have found (at? : Option Nat) : (at?.bind fun k => m.engines[k]?.map fun x => (k, x)) = some (k, x) ↔
      m.engines[k]? = some x ∧ at? = some k := by
    simp only [Option.bind_eq_some_iff, Option.map_eq_some_iff, Prod.mk.injEq]
    constructor
    · rintro ⟨j, rfl, y, hy, rfl, rfl⟩
      exact ⟨hy, rfl⟩
    · rintro ⟨hx, rfl⟩
      exact ⟨k, rfl, x, hx, rfl, rfl⟩
  rw [← found]
  unfold engine?
  cases provider.filter fun p => !Text.isBlank p with
  | none | some p =>
    dsimp only [Option.elim]
    split
    next y hy =>
      rw [hy]
      simp
    next hn =>
      rw [hn]
      exact iff_of_false nofun nofun

theorem engine?_ok_iff : m.engine? provider = .ok (k, x) ↔ m.Chooses provider k x := by
  refine engine?_ok_iff_seat.trans (and_congr_right fun hx => ?_)
  cases provider with
  | none =>
    refine ⟨fun h => .inl ⟨nofun, (Option.some.inj h).symm⟩, ?_⟩
    rintro (⟨_, rfl⟩ | ⟨p, hp, _⟩)
    · rfl
    · cases hp
  | some p =>
    cases hb : Text.isBlank p with
    | true =>
      have hf : (some p).filter (fun p => !Text.isBlank p) = none := by simp [Option.filter, hb]
      rw [hf]
      refine ⟨fun h => .inl ⟨fun _ hp => Option.some.inj hp ▸ hb, (Option.some.inj h).symm⟩, ?_⟩
      rintro (⟨_, rfl⟩ | ⟨q, hq, hqb, _⟩)
      · rfl
      · cases hq
        rw [hb] at hqb
        cases hqb
    | false =>
      have hf : (some p).filter (fun p => !Text.isBlank p) = some p := by simp [Option.filter, hb]
      rw [hf]
      refine (findIdx?_take hx).trans ?_
      simp only [beq_iff_eq, beq_eq_false_iff_ne]
      constructor
      · rintro ⟨hid, hno⟩
        exact .inr ⟨p, rfl, hb, hid, hno⟩
      · rintro (⟨hblank, _⟩ | ⟨q, hq, _, hid, hno⟩)
        · rw [hblank p rfl] at hb
          cases hb
        · cases hq
          exact ⟨hid, hno⟩

theorem availableEngine?_ok_iff :
    m.availableEngine? provider = .ok (k, x) ↔ m.Chooses provider k x ∧ x.available = true := by
  rw [← engine?_ok_iff, availableEngine?]
  cases m.engine? provider with
  | error e => exact iff_of_false nofun fun h => nomatch h.1
  | ok found =>
    obtain ⟨j, y⟩ := found
    change (if y.available then Except.ok (j, y) else .error (Fault.unavailable y.id)) = _ ↔ _
    split
    next ha =>
      refine ⟨fun h => ⟨h, ?_⟩, And.left⟩
      cases h
      exact ha
    next ha =>
      refine ⟨nofun, fun ⟨h, hx⟩ => ?_⟩
      cases h
      exact absurd hx ha

theorem availableEngine?_error {e : Fault} (h : m.availableEngine? provider = .error e) (f : TurnError) :
    e ≠ .provider f := by
  rintro rfl
  unfold availableEngine? engine? at h
  dsimp only at h
  split at h
  next found _ =>
    obtain ⟨j, y⟩ := found
    change (if y.available then Except.ok (j, y) else .error (Fault.unavailable y.id)) = _ at h
    split at h <;> cases h
  next => cases h

/-- A start is let in for a named service and an engine that can be used. -/
theorem admitStart_ok_iff {service : String} {st : Startup} : m.admitStart service provider = .ok st ↔
    Text.isBlank service = false ∧ ∃ k x, m.Chooses provider k x ∧ x.available = true ∧
      st = ⟨service, k, x.startDelay.getD 0⟩ := by
  unfold admitStart
  cases hb : Text.isBlank service with
  | true => simp
  | false =>
    simp only [Bool.false_eq_true, if_false, true_and]
    split
    next e he =>
      refine iff_of_false nofun ?_
      rintro ⟨k, x, hc, ha, _⟩
      rw [availableEngine?_ok_iff.mpr ⟨hc, ha⟩] at he
      cases he
    next j y hy =>
      constructor
      · intro h
        obtain ⟨hc, ha⟩ := availableEngine?_ok_iff.mp hy
        exact ⟨j, y, hc, ha, (Except.ok.inj h).symm⟩
      · rintro ⟨k, x, hc, ha, rfl⟩
        rw [availableEngine?_ok_iff.mpr ⟨hc, ha⟩] at hy
        cases hy
        rfl

/-! ### The end of a start -/

/-- A start comes up if its engine was in time and opens a session. -/
theorem completeStart_ok_iff {st : Startup} : (∃ started, (m.completeStart st).1 = .ok started) ↔
    st.delay ≤ m.startupTimeout ∧ ∃ x, m.engines[st.engine]? = some x ∧ x.startFault = none := by
  unfold completeStart
  by_cases hd : m.startupTimeout < st.delay
  · simp [hd, show ¬ st.delay ≤ m.startupTimeout by omega]
  · simp only [hd, if_false, show st.delay ≤ m.startupTimeout by omega, true_and]
    cases hx : m.engines[st.engine]? with
    | none => simp
    | some x => cases hf : x.startFault <;> simp [Engine.openSession, hf]

/-- A start that fails changes nothing, unless it is the engine that fails, which counts the session. -/
theorem completeStart_error {st : Startup} {e : Fault} (h : (m.completeStart st).1 = .error e) :
    (m.completeStart st).2 = m ∧ (∀ f, e ≠ .provider f) ∨
      ∃ x f, m.engines[st.engine]? = some x ∧ x.startFault = some f ∧ e = .provider f ∧
        (m.completeStart st).2 = m.setEngine st.engine { x with started := x.started + 1 } := by
  unfold completeStart at h ⊢
  by_cases hd : m.startupTimeout < st.delay
  · rw [if_pos hd] at h ⊢
    cases h
    exact .inl ⟨rfl, nofun⟩
  · rw [if_neg hd] at h ⊢
    cases hx : m.engines[st.engine]? with
    | none =>
      rw [hx] at h
      cases h
      exact .inl ⟨rfl, nofun⟩
    | some x =>
      rw [hx] at h
      cases hf : x.startFault with
      | none => simp [Engine.openSession, hf] at h
      | some f =>
        have ho : x.openSession = (.error f, { x with started := x.started + 1 }) := by simp [Engine.openSession, hf]
        dsimp only at h ⊢
        rw [ho] at h ⊢
        cases h
        exact .inr ⟨x, f, rfl, hf, rfl, rfl⟩

/-- A session under a name of its own is registered for an engine, and its first turn is launched. No other session
and no other turn changes, and nothing is told. -/
structure Opens (service : String) (x : Engine) (started : StartedTurn) (m m' : Manager) : Prop where
  session : ∃ v, m'.sessions = m.sessions ++ [v] ∧ v.id = started.sessionId ∧ v.service = service ∧
    v.provider = x.id ∧ v.pending = 1
  registry : m'.registry = m.registry ++ [started.sessionId]
  fresh : ∀ v ∈ m.sessions, v.id ≠ started.sessionId
  turn : ∃ t, m'.turns = m.turns ++ [t] ∧ t.session = started.sessionId ∧ t.requestId = started.requestId ∧
    t.place = .launched
  apart : ∀ t ∈ m.turns, t.requestId ≠ started.requestId
  notices : m'.notices = m.notices
  asked : m'.asked = m.asked
  closings : m'.closings = m.closings
  history : m'.history = m.history

theorem Sound.completeStart_opens (h : m.Sound B none) {st : Startup} {started : StartedTurn}
    (ho : (m.completeStart st).1 = .ok started) :
    ∃ x, m.engines[st.engine]? = some x ∧ Opens st.service x started m (m.completeStart st).2 := by
  rcases completeStart_cases st m with ⟨e, he, _⟩ | ⟨x, hx, started', m', he, hr⟩
  · rw [he] at ho
    cases ho
  · rw [he] at ho
    cases ho
    let m₁ := m.setEngine st.engine x.openSession.2
    let w := m₁.newcomer st.service st.engine x.openSession.2
    have h₁ : m₁.Sound B none := h.calm (.of_same rfl rfl rfl rfl rfl rfl)
    have hnames : ((m.sessions ++ [w]).map Session.id).Nodup :=
      (h₁.enlist st.service st.engine x.openSession.2).named.nodup_sessions
    obtain ⟨B', hs⟩ := h.completeStart st
    have hrequests := hs.named.nodup_requests
    obtain ⟨prompt, hreg⟩ := register_eq st.service st.engine x.openSession.2 m₁
    obtain ⟨hst, hm⟩ := Prod.mk.inj (hr.trans hreg)
    rw [he] at hrequests ⊢
    dsimp only at hrequests ⊢
    rw [hst, hm]
    rw [hm] at hrequests
    refine ⟨x, hx, ⟨{ w with pending := w.pending + 1 }, map_at_key hnames _, rfl, rfl, rfl, rfl⟩, rfl, ?_,
      ⟨_, rfl, rfl, rfl, rfl⟩, ?_, rfl, rfl, rfl, rfl⟩
    · intro v hv hvw
      rw [List.map_append, List.nodup_append] at hnames
      exact hnames.2.2 v.id (List.mem_map_of_mem hv) w.id (by simp) hvw
    · intro t ht htr
      change ((m.turns ++ [_]).map Turn.requestId).Nodup at hrequests
      rw [List.map_append, List.nodup_append] at hrequests
      exact hrequests.2.2 t.requestId (List.mem_map_of_mem ht) _ (by simp) htr

/-! ### Calls that wait -/

/-- Time has passed, in which the turns that there are may have gone on: no session is opened or closed, no turn
launched, and the engines can be used as before. -/
structure Passes (m m' : Manager) : Prop where
  engines : m'.engines.map Engine.face = m.engines.map Engine.face
  timeout : m'.startupTimeout = m.startupTimeout
  registry : m'.registry = m.registry
  doors : m'.doors = m.doors
  tags : m'.tags = m.tags
  closings : m'.closings = m.closings
  history : m'.history = m.history

theorem Passes.refl (m : Manager) : m.Passes m := ⟨rfl, rfl, rfl, rfl, rfl, rfl, rfl⟩

theorem Passes.trans (h : m.Passes m') (h' : m'.Passes m'') : m.Passes m'' :=
  ⟨h'.engines.trans h.engines, h'.timeout.trans h.timeout, h'.registry.trans h.registry, h'.doors.trans h.doors,
    h'.tags.trans h.tags, h'.closings.trans h.closings, h'.history.trans h.history⟩

theorem Sound.poll_passes (h : m.Sound B none) : m.Passes m.poll := by
  have hk := m.poll_keeps
  have hs : m.poll.engines.map Engine.face = m.engines.map Engine.face ∧ m.poll.frame = m.frame := by
    rcases h.poll_steps with he | ⟨t, _, s, _, _, e, _, hp, _⟩
    · rw [he]
      exact ⟨rfl, rfl⟩
    · exact ⟨hp.engines, hp.frame⟩
  obtain ⟨he, hf⟩ := hs
  exact ⟨he, (congrArg Manager.startupTimeout hf :), (congrArg Manager.registry hf :), hk.doors, hk.tags,
    (congrArg Manager.closings hf :), (congrArg Manager.history hf :)⟩

theorem Sound.advance_passes (h : m.Sound B none) (ms : Nat) :
    (∃ B', (m.advance ms).Sound B' none) ∧ m.Passes (m.advance ms) := by
  refine advance_keeps (P := fun m' => (∃ B', m'.Sound B' none) ∧ m.Passes m') ?_ ?_ ms ⟨⟨B, h⟩, .refl m⟩
  · rintro m' ⟨⟨B', h'⟩, hp⟩
    exact ⟨h'.poll, hp.trans h'.poll_passes⟩
  · rintro now m' ⟨⟨B', h'⟩, hp⟩
    exact ⟨⟨B', h'.calm (wakeAt_calm now m')⟩, hp.trans ⟨rfl, rfl, rfl, rfl, rfl, rfl, rfl⟩⟩

theorem Passes.startFault (h : m.Passes m') (hx : m.engines[k]? = some x) :
    ∃ y, m'.engines[k]? = some y ∧ y.id = x.id ∧ y.startFault = x.startFault := by
  have hf : (m'.engines.map Engine.face)[k]? = some x.face := by
    rw [h.engines, List.getElem?_map, hx]
    rfl
  rw [List.getElem?_map] at hf
  obtain ⟨y, hy, he⟩ := Option.map_eq_some_iff.mp hf
  exact ⟨y, hy, (congrArg Engine.id he :), (congrArg Engine.startFault he :)⟩

/-- Only the engines may have changed. -/
def Spares (m m' : Manager) : Prop := ∃ es, es.length = m.engines.length ∧ m' = { m with engines := es }

theorem Spares.refl (m : Manager) : m.Spares m := ⟨m.engines, rfl, rfl⟩

theorem setEngine_spares (k : Nat) (x : Engine) (m : Manager) : m.Spares (m.setEngine k x) :=
  ⟨m.engines.set k x, List.length_set, rfl⟩

/-- A start succeeds exactly if the service is named, the engine can be used, comes up in time and opens a session. -/
theorem Sound.start_ok_iff (h : m.Sound B none) {service : String} :
    (∃ started, (m.start service provider).1 = .ok started) ↔ Text.isBlank service = false ∧
      ∃ k x, m.Chooses provider k x ∧ x.available = true ∧ x.startDelay.getD 0 ≤ m.startupTimeout ∧
        x.startFault = none := by
  unfold start
  cases hst : m.admitStart service provider with
  | error e =>
    refine iff_of_false nofun ?_
    rintro ⟨hb, k, x, hc, ha, _⟩
    rw [admitStart_ok_iff.mpr ⟨hb, k, x, hc, ha, rfl⟩] at hst
    cases hst
  | ok st =>
    dsimp only
    rw [completeStart_ok_iff]
    have hp := (h.advance_passes (m.startupWait st)).2
    rw [hp.timeout]
    constructor
    · rintro ⟨hd, y, hy, hf⟩
      obtain ⟨hb, k, x, hc, ha, rfl⟩ := admitStart_ok_iff.mp hst
      obtain ⟨y', hy', _, hyf⟩ := hp.startFault hc.1
      cases hy.symm.trans hy'
      exact ⟨hb, k, x, hc, ha, hd, hyf.symm.trans hf⟩
    · rintro ⟨hb, k, x, hc, ha, hd, hf⟩
      cases (admitStart_ok_iff.mpr ⟨hb, k, x, hc, ha, rfl⟩).symm.trans hst
      obtain ⟨y, hy, _, hyf⟩ := hp.startFault hc.1
      exact ⟨hd, y, hy, hyf.trans hf⟩

theorem start_error {service : String} {e : Fault} (he : (m.start service provider).1 = .error e) :
    (m.start service provider).2 = m ∨ ∃ ms ≤ m.startupTimeout, (m.advance ms).Spares (m.start service provider).2 := by
  unfold start at he ⊢
  cases hst : m.admitStart service provider with
  | error e => exact .inl rfl
  | ok st =>
    simp only [hst] at he ⊢
    refine .inr ⟨m.startupWait st, Nat.min_le_right .., ?_⟩
    rcases completeStart_error he with ⟨hm, _⟩ | ⟨x, f, _, _, _, hm⟩
    · rw [hm]
      exact .refl _
    · rw [hm]
      exact setEngine_spares _ _ _

theorem Sound.start_opens (h : m.Sound B none) {service : String} {started : StartedTurn}
    (ho : (m.start service provider).1 = .ok started) : ∃ ms ≤ m.startupTimeout, ∃ k x y, m.Chooses provider k x ∧
      y.id = x.id ∧ Opens service y started (m.advance ms) (m.start service provider).2 := by
  unfold start at ho ⊢
  cases hst : m.admitStart service provider with
  | error e =>
    rw [hst] at ho
    cases ho
  | ok st =>
    simp only [hst] at ho ⊢
    obtain ⟨⟨B', hs⟩, hp⟩ := h.advance_passes (m.startupWait st)
    obtain ⟨_, k, x, hc, _, rfl⟩ := admitStart_ok_iff.mp hst
    obtain ⟨y, hy, hop⟩ := hs.completeStart_opens ho
    obtain ⟨y', hy', hid, _⟩ := hp.startFault hc.1
    cases hy.symm.trans hy'
    exact ⟨_, Nat.min_le_right .., k, x, y, hc, hid, hop⟩

/-- A question changes nothing but the engine that is asked, however long that takes. -/
theorem ask_spares (provider : Option String) (prompt : String) (m : Manager) :
    (m.ask provider prompt).2 = m ∨
      ((∀ e, (m.ask provider prompt).1 = .error e → ∃ f, e = .provider f) ∧
        ∃ m₁, m.Spares m₁ ∧ ((m.ask provider prompt).2 = m₁ ∨ ∃ ms, (m.ask provider prompt).2 = m₁.advance ms)) := by
  unfold ask
  split
  · exact .inl rfl
  · split
    · exact .inl rfl
    next k x _ =>
      refine .inr ⟨?_, m.setEngine k (x.hear prompt).2, setEngine_spares _ _ _, ?_⟩
      · intro e he
        dsimp only at he
        split at he
        · cases he
        next f _ =>
          cases he
          exact ⟨f, rfl⟩
      · dsimp only
        split
        · exact .inl rfl
        · exact .inr ⟨_, rfl⟩

theorem admitStart_error {service : String} {e : Fault} (h : m.admitStart service provider = .error e)
    (f : TurnError) : e ≠ .provider f := by
  unfold admitStart at h
  split at h
  · cases h
    nofun
  · split at h
    next e' he =>
      cases h
      exact availableEngine?_error he f
    next => cases h

theorem reach_error {id : String} {e : Fault} (h : m.reach id = .error e) (f : TurnError) : e ≠ .provider f := by
  unfold reach at h
  split at h
  · cases h
    nofun
  · split at h
    next => cases h
    next =>
      cases h
      nofun

theorem message_error {id prompt : String} {e : Fault} (h : (m.message id prompt).1 = .error e) :
    (∀ f, e ≠ .provider f) ∧ (m.message id prompt).2 = m := by
  unfold message at h ⊢
  split at h
  next hb =>
    cases h
    exact ⟨nofun, by rw [if_pos hb]⟩
  next hb =>
    rw [if_neg hb]
    cases hr : m.reach id with
    | error e' =>
      rw [hr] at h
      cases h
      exact ⟨reach_error hr, rfl⟩
    | ok s =>
      rw [hr] at h
      cases h

end Manager

namespace Scene

variable {s : Scene} {mv : Move} {e : Fault}

/-- What a call fails at. A start fails at once or when it has waited for its engine. -/
def fault? (s : Scene) : Move → Option Fault
  | .start service provider => errorOf (s.manager.admitStart service provider)
  | .complete k => s.startups[k]?.bind fun st => errorOf (s.manager.completeStart st).1
  | .message id prompt => errorOf (s.manager.message id prompt).1
  | .interrupt id => errorOf (s.manager.interrupt id).1
  | .close id => errorOf (s.manager.close id).1
  | _ => none

/-- The call of a move has failed and is gone, with nothing changed. -/
def Dropped (s : Scene) (mv : Move) : Prop := s.move mv = s ∨ ∃ k, mv = .complete k ∧ s.move mv = s.move (.leave k)

/-- The engine of a start has failed to open a session, which it counts. -/
def Fails (s : Scene) (mv : Move) (f : TurnError) : Prop :=
  ∃ k st x, mv = .complete k ∧ s.startups[k]? = some st ∧ s.manager.engines[st.engine]? = some x ∧
    x.startFault = some f ∧
    s.move mv = (s.move (.leave k)).become (s.manager.setEngine st.engine { x with started := x.started + 1 })

/-- A call that fails has changed nothing, unless it is an engine that fails. -/
theorem move_failed (h : s.fault? mv = some e) : (∀ f, e ≠ .provider f) ∧ s.Dropped mv ∨
    ∃ f, e = .provider f ∧ (s.Fails mv f ∨ ∃ id, mv = .close id) := by
  cases mv with
  | start service provider =>
    have he := errorOf_eq_some.mp h
    refine .inl ⟨Manager.admitStart_error he, .inl ?_⟩
    simp only [move, he]
  | complete k =>
    obtain ⟨st, hst, he⟩ := Option.bind_eq_some_iff.mp h
    rcases Manager.completeStart_error (errorOf_eq_some.mp he) with ⟨hm, hf⟩ | ⟨x, f, hx, hxf, rfl, hm⟩
    · refine .inl ⟨hf, .inr ⟨k, rfl, ?_⟩⟩
      simp only [move, complete, hst, hm]
    · refine .inr ⟨f, rfl, .inl ⟨k, st, x, rfl, hst, hx, hxf, ?_⟩⟩
      simp only [move, complete, hst, hm, become]
  | message id prompt =>
    obtain ⟨hf, hm⟩ := Manager.message_error (errorOf_eq_some.mp h)
    refine .inl ⟨hf, .inl ?_⟩
    simp only [move, hm, become]
  | interrupt id =>
    have he := errorOf_eq_some.mp h
    rcases s.manager.interrupt_cases id with (⟨e', hr, hi⟩ | ⟨_, _, _, _, _, hi⟩) | ⟨_, _, _, _, _, _, hi⟩
    · rw [hi] at he
      cases he
      refine .inl ⟨Manager.reach_error hr, .inl ?_⟩
      simp only [move, hi, become]
    · rw [hi] at he
      cases he
    · rw [hi] at he
      cases he
  | close id =>
    have he := errorOf_eq_some.mp h
    rcases s.manager.close_cases id with ⟨e', hr, hc⟩ | ⟨v, _, _, _, _, hc⟩
    · rw [hc] at he
      cases he
      refine .inl ⟨Manager.reach_error hr, .inl ?_⟩
      simp only [move, hc, become]
    · rw [hc] at he
      cases hres : (({ s.manager with registry := s.manager.registry.filter (· != id) } : Manager).release v).1 with
      | ok u =>
        rw [hres] at he
        cases he
      | error f =>
        rw [hres] at he
        cases he
        exact .inr ⟨f, rfl, .inr ⟨id, rfl⟩⟩
  | leave k | closeAll | poll | pass ms | touch engines history => cases h

end Scene

/-- In every run a call about a session that fails leaves no mark: not on the sessions, the turns, the log or what was
published, and on an engine only if it was asked itself. A start succeeds exactly if its service is named, its engine
is known and can be used, comes up in time and opens a session; then one session is registered under a new name and
one turn launched. While a start or a question waits, nothing happens but what would have happened anyway. -/
theorem failed_calls_spare_sessions (engines : List Engine) (history : Log.History) (startupTimeout promptLines : Nat)
    (moves : List Move) :
    let s := (Scene.start engines history startupTimeout promptLines).run moves
    let m := s.manager
    (∀ mv e, s.fault? mv = some e → (∀ f, e ≠ .provider f) ∧ s.Dropped mv ∨
      ∃ f, e = .provider f ∧ (s.Fails mv f ∨ ∃ id, mv = .close id)) ∧
    (∀ service provider st, m.admitStart service provider = .ok st ↔ Text.isBlank service = false ∧
      ∃ k x, m.Chooses provider k x ∧ x.available = true ∧ st = ⟨service, k, x.startDelay.getD 0⟩) ∧
    (∀ st,
      ((∃ started, (m.completeStart st).1 = .ok started) ↔
        st.delay ≤ m.startupTimeout ∧ ∃ x, m.engines[st.engine]? = some x ∧ x.startFault = none) ∧
      ∀ started, (m.completeStart st).1 = .ok started → ∃ x, m.engines[st.engine]? = some x ∧
        Manager.Opens st.service x started m (m.completeStart st).2) ∧
    (∀ service provider,
      ((∃ started, (m.start service provider).1 = .ok started) ↔ Text.isBlank service = false ∧
        ∃ k x, m.Chooses provider k x ∧ x.available = true ∧ x.startDelay.getD 0 ≤ m.startupTimeout ∧
          x.startFault = none) ∧
      (∀ e, (m.start service provider).1 = .error e → (m.start service provider).2 = m ∨
        ∃ ms ≤ m.startupTimeout, (m.advance ms).Spares (m.start service provider).2) ∧
      ∀ started, (m.start service provider).1 = .ok started → ∃ ms ≤ m.startupTimeout, ∃ k x y,
        m.Chooses provider k x ∧ y.id = x.id ∧
          Manager.Opens service y started (m.advance ms) (m.start service provider).2) ∧
    (∀ provider prompt, (m.ask provider prompt).2 = m ∨
      ((∀ e, (m.ask provider prompt).1 = .error e → ∃ f, e = .provider f) ∧ ∃ m₁, m.Spares m₁ ∧
        ((m.ask provider prompt).2 = m₁ ∨ ∃ ms, (m.ask provider prompt).2 = m₁.advance ms))) ∧
    ∀ m₁, m.Spares m₁ → ∀ ms, m₁.Passes (m₁.advance ms) := by
  intro s m
  obtain ⟨B, h⟩ := Scene.run_sound engines history startupTimeout promptLines moves
  change m.Sound B none at h
  refine ⟨fun mv e => Scene.move_failed, fun service provider st => Manager.admitStart_ok_iff,
    fun st => ⟨Manager.completeStart_ok_iff, fun started => h.completeStart_opens⟩,
    fun service provider => ⟨h.start_ok_iff, fun e => Manager.start_error, fun started => h.start_opens⟩,
    fun provider prompt => m.ask_spares provider prompt, ?_⟩
  rintro m₁ ⟨es, _, rfl⟩ ms
  have h₁ : ({ m with engines := es } : Manager).Sound B none := h.calm (.of_same rfl rfl rfl rfl rfl rfl)
  exact (h₁.advance_passes ms).2

end Diagnosis

end StackDeck
