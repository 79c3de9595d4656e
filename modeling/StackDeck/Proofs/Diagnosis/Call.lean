import StackDeck.Proofs.Diagnosis.Launch

/-!
What the calls about sessions that launch no turn do to the whole state, as equations.
-/

namespace StackDeck.Diagnosis

/-- A turn, after the token of a turn was used. -/
def Turn.reached (current : Option Nat) (t : Turn) : Turn := if current = some t.id then { t with cut := true } else t

namespace Turn

variable {current : Option Nat} {t : Turn}

theorem reached_tag (current : Option Nat) (t : Turn) : (t.reached current).tag = t.tag := by
  unfold reached
  split <;> rfl

theorem reached_place (current : Option Nat) (t : Turn) : (t.reached current).place = t.place := by
  unfold reached
  split <;> rfl

theorem reached_self (h : current = some t.id) : t.reached current = { t with cut := true } := by
  simp [reached, h]

theorem reached_other (h : current ≠ some t.id) : t.reached current = t := by
  simp [reached, h]

end Turn

namespace Manager

variable {m : Manager} {s : Session} {id : String}

theorem reach_ok (h : m.reach id = .ok s) : s ∈ m.sessions ∧ s.id = id ∧ id ∈ m.registry := by
  unfold reach at h
  split at h
  · cases h
  · split at h
    next s' hs =>
      split at hs
      next hc =>
        obtain ⟨hm, he⟩ := mem_of_find?_key hs
        rw [← Except.ok.inj h]
        exact ⟨hm, he, by simpa using hc⟩
      next => cases hs
    next => cases h

/-- Of a turn whose token is used nothing else changes. It becomes ready if it has waited for that. -/
theorem cutCurrent_eq (s : Session) (m : Manager) : ∃ rd, m.cutCurrent s =
    { m with turns := m.turns.map (Turn.reached s.current), ready := rd } := by
  have none : m.turns.map (Turn.reached none) = m.turns := by
    conv_rhs => rw [← List.map_id' m.turns]
    exact List.map_congr_left fun t _ => Turn.reached_other nofun
  unfold cutCurrent
  cases s.current with
  | none => exact ⟨m.ready, by rw [none]⟩
  | some id =>
    have hcut : (m.turns.map fun t => if t.id == id then { t with cut := true } else t) =
        m.turns.map (Turn.reached (some id)) := by
      refine List.map_congr_left fun t _ => ?_
      by_cases h : t.id = id
      · rw [Turn.reached_self (congrArg some h.symm)]
        simp [h]
      · rw [Turn.reached_other fun he => h (Option.some.inj he).symm]
        simp [h]
    dsimp only
    unfold cut
    cases hf : m.turn? id with
    | none =>
      have habs : ∀ t ∈ m.turns, t.id ≠ id := by
        intro t ht
        simpa using List.find?_eq_none.mp hf t ht
      exact ⟨m.ready, by rw [← hcut, map_at_absent habs]⟩
    | some t =>
      dsimp only
      unfold modifyTurn
      rw [hcut]
      split
      · exact ⟨_, rfl⟩
      · exact ⟨_, rfl⟩

/-- An interrupt is noted in its session, and the token of the turn that has the lock is used. Without a turn that has
not ended nothing happens. -/
theorem interrupt_cases (id : String) (m : Manager) :
    ((∃ e, m.reach id = .error e ∧ m.interrupt id = (.error e, m)) ∨
    ∃ s ∈ m.sessions, s.id = id ∧ id ∈ m.registry ∧ s.pending = 0 ∧ m.interrupt id = (.ok (), m)) ∨
    ∃ s ∈ m.sessions, s.id = id ∧ id ∈ m.registry ∧ s.pending ≠ 0 ∧ ∃ rd, m.interrupt id = (.ok (), { m with
      sessions := m.sessions.map (Session.changed id fun s => { s with interrupted := true })
      turns := m.turns.map (Turn.reached s.current)
      ready := rd }) := by
  unfold interrupt
  cases hr : m.reach id with
  | error e => exact .inl (.inl ⟨e, rfl, rfl⟩)
  | ok s =>
    obtain ⟨hs, hid, hreg⟩ := reach_ok hr
    dsimp only
    by_cases hp : s.pending = 0
    · rw [if_pos hp]
      exact .inl (.inr ⟨s, hs, hid, hreg, hp, rfl⟩)
    · rw [if_neg hp]
      obtain ⟨rd, he⟩ := cutCurrent_eq s (m.modifySession id fun s => { s with interrupted := true })
      rw [he]
      exact .inr ⟨s, hs, hid, hreg, hp, rd, rfl⟩

/-- What releasing a session does. -/
structure Releases (s : Session) (m m' : Manager) : Prop where
  sessions : m'.sessions = m.sessions.map (Session.changed s.id fun s => { s with closed := true })
  turns : m'.turns = m.turns.map (Turn.reached s.current)
  notices : m'.notices = m.notices ++ [.closed s.id s.service s.provider]
  asked : m'.asked = m.asked
  registry : m'.registry = m.registry
  naming : m'.naming = m.naming
  engines : ∀ x, m.engines[s.engine]? = some x → m'.engines = m.engines.set s.engine x.closeSession.2
  closings : m'.closings = m.closings ++ if s.engine < m.engines.length then [s.id] else []
  length : m'.engines.length = m.engines.length

theorem release_releases (s : Session) (m : Manager) : Releases s m (m.release s).2 := by
  obtain ⟨rd, he⟩ := cutCurrent_eq s (m.modifySession s.id fun s => { s with closed := true })
  unfold release
  dsimp only
  rw [he]
  cases hx : m.engines[s.engine]? with
  | none =>
    have hlt : ¬ s.engine < m.engines.length := by
      have := List.getElem?_eq_none_iff.mp hx
      omega
    have hx' : (m.modifySession s.id fun s => { s with closed := true }).engines[s.engine]? = none := hx
    dsimp only
    rw [hx']
    refine ⟨rfl, rfl, rfl, rfl, rfl, rfl, ?_, by rw [if_neg hlt, List.append_nil]; rfl, rfl⟩
    intro x hy
    rw [hx] at hy
    cases hy
  | some x =>
    have hlt : s.engine < m.engines.length := (List.getElem?_eq_some_iff.mp hx).1
    have hx' : (m.modifySession s.id fun s => { s with closed := true }).engines[s.engine]? = some x := hx
    dsimp only
    rw [hx']
    refine ⟨rfl, rfl, rfl, rfl, rfl, rfl, ?_, by rw [if_pos hlt]; rfl, List.length_set⟩
    intro y hy
    rw [← Option.some.inj (hx.symm.trans hy)]
    rfl

theorem close_cases (id : String) (m : Manager) : (∃ e, m.reach id = .error e ∧ m.close id = (.error e, m)) ∨
    ∃ s ∈ m.sessions, s.id = id ∧ id ∈ m.registry ∧
      Releases s { m with registry := m.registry.filter (· != id) } (m.close id).2 ∧
      (m.close id).1 =
        ((({ m with registry := m.registry.filter (· != id) } : Manager).release s).1.mapError .provider) := by
  unfold close
  cases hr : m.reach id with
  | error e => exact .inl ⟨e, rfl, rfl⟩
  | ok s =>
    obtain ⟨hs, hid, hreg⟩ := reach_ok hr
    have h := release_releases s { m with registry := m.registry.filter (· != id) }
    refine .inr ⟨s, hs, hid, hreg, ?_⟩
    dsimp only
    split
    next m' he =>
      rw [he] at h ⊢
      exact ⟨h, rfl⟩
    next e m' he =>
      rw [he] at h ⊢
      exact ⟨h, rfl⟩

/-- The session that a start registers. -/
def newcomer (service : String) (k : Nat) (x : Engine) (m : Manager) : Session :=
  { id := s!"s{m.naming.sessions + 1}", service, provider := x.id, engine := k
    createdAt := (⟨0, 0⟩ : Instant).addMillis m.now }

def enlist (v : Session) (m : Manager) : Manager :=
  { m with
    sessions := m.sessions ++ [v], registry := m.registry ++ [v.id]
    naming := { m.naming with sessions := m.naming.sessions + 1 } }

theorem register_eq (service : String) (k : Nat) (x : Engine) (m : Manager) :
    ∃ prompt, m.register service k x = (m.enlist (m.newcomer service k x)).launch (m.newcomer service k x) prompt :=
  ⟨_, rfl⟩

theorem Sound.enlist {B : Nat → List TurnNews} (h : m.Sound B none) (service : String) (k : Nat) (x : Engine) :
    (m.enlist (m.newcomer service k x)).Sound B none := by
  refine h.enroll (s := m.newcomer service k x) ?_ rfl rfl rfl rfl rfl rfl rfl rfl
  rw [← h.named.sessionCount]
  rfl

/-- A start fails and opens nothing, or its session is registered and its first turn launched. -/
theorem completeStart_cases (st : Startup) (m : Manager) :
    (∃ e, (m.completeStart st).1 = .error e ∧ ((m.completeStart st).2 = m ∨ ∃ x, m.engines[st.engine]? = some x ∧
      (m.completeStart st).2 = m.setEngine st.engine x.openSession.2)) ∨
    ∃ x, m.engines[st.engine]? = some x ∧ ∃ started m', m.completeStart st = (.ok started, m') ∧
      (started, m') = (m.setEngine st.engine x.openSession.2).register st.service st.engine x.openSession.2 := by
  unfold completeStart
  split
  · exact .inl ⟨_, rfl, .inl rfl⟩
  · cases hx : m.engines[st.engine]? with
    | none => exact .inl ⟨_, rfl, .inl rfl⟩
    | some x =>
      dsimp only
      split
      next fault y ho => exact .inl ⟨_, rfl, .inr ⟨x, rfl, by rw [ho]⟩⟩
      next y ho => exact .inr ⟨x, rfl, _, _, rfl, by rw [ho]⟩

end Manager

end StackDeck.Diagnosis
