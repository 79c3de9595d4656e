import StackDeck.Proofs.Diagnosis.Change

namespace StackDeck.Diagnosis

namespace Manager

variable {m m' m'' : Manager} {t : Turn} {id : Nat}

/-! ### What a step asks of an engine -/

/-- Which sessions are closed. -/
def doors (m : Manager) : List (String × Bool) := m.sessions.map fun s => (s.id, s.closed)

/-- What a new session is told of: the log and how much of it. -/
def background (m : Manager) : Log.History × Nat := (m.history, m.promptLines)

/-- No session is closed, no turn launched, no line logged and no time passes. What was told stays. -/
structure Keeps (m m' : Manager) : Prop where
  doors : m'.doors = m.doors
  tags : m'.tags = m.tags
  told : ∀ sid, m.told sid <+: m'.told sid
  now : m'.now = m.now
  background : m'.background = m.background

theorem Keeps.of_same (ht : m'.turns = m.turns) (hs : m'.sessions = m.sessions) (hm : m.notices <+: m'.notices)
    (hn : m'.now = m.now) (hb : m'.background = m.background) : m.Keeps m' :=
  ⟨by rw [Manager.doors, hs, Manager.doors], by rw [Manager.tags, ht, Manager.tags], fun _ => hm.filterMap _, hn, hb⟩

theorem Keeps.trans (h : m.Keeps m') (h' : m'.Keeps m'') : m.Keeps m'' :=
  ⟨h'.doors.trans h.doors, h'.tags.trans h.tags, fun sid => (h.told sid).trans (h'.told sid), h'.now.trans h.now,
    h'.background.trans h.background⟩

/-- No engine is asked. -/
structure Quiet (m m' : Manager) : Prop where
  keeps : m.Keeps m'
  asked : m'.asked = m.asked

theorem Quiet.of_same (ht : m'.turns = m.turns) (hs : m'.sessions = m.sessions) (ha : m'.asked = m.asked)
    (hm : m.notices <+: m'.notices) (hn : m'.now = m.now) (hb : m'.background = m.background) : m.Quiet m' :=
  ⟨.of_same ht hs hm hn hb, ha⟩

theorem Quiet.refl (m : Manager) : m.Quiet m := .of_same rfl rfl rfl (List.prefix_refl _) rfl rfl

theorem Quiet.trans (h : m.Quiet m') (h' : m'.Quiet m'') : m.Quiet m'' :=
  ⟨h.keeps.trans h'.keeps, h'.asked.trans h.asked⟩

theorem publish_quiet (n : Notice) (m : Manager) : m.Quiet (m.publish n) :=
  .of_same rfl rfl rfl (List.prefix_append _ _) rfl rfl

theorem place_quiet (id : Nat) (p : TurnPlace) (m : Manager) : m.Quiet (m.place id p) :=
  ⟨⟨rfl, (place_change id p m).tags, fun _ => List.prefix_refl _, rfl, rfl⟩, rfl⟩

theorem modifySession_quiet (sid : String) {f : Session → Session}
    (hf : ∀ s, (f s).id = s.id ∧ (f s).closed = s.closed) (m : Manager) : m.Quiet (m.modifySession sid f) := by
  refine ⟨⟨?_, rfl, fun _ => List.prefix_refl _, rfl, rfl⟩, rfl⟩
  simp only [doors, modifySession, List.map_map]
  refine List.map_congr_left fun s _ => ?_
  simp only [Function.comp_apply]
  split
  · rw [(hf s).1, (hf s).2]
  · rfl

theorem unlock_quiet (s : Session) (m : Manager) : m.Quiet (m.unlock s) := by
  unfold unlock
  cases s.waiters with
  | nil => exact modifySession_quiet s.id (f := fun s => { s with holder := none }) (fun _ => ⟨rfl, rfl⟩) m
  | cons w r =>
    have h := modifySession_quiet s.id (f := fun s => { s with holder := some w, waiters := r })
      (fun _ => ⟨rfl, rfl⟩) m
    exact (h.trans (place_quiet w .granted _)).trans (.of_same rfl rfl rfl (List.prefix_refl _) rfl rfl)

theorem conclude_quiet (s : Session) (t : Turn) (result : Except TurnError String) (m : Manager) :
    m.Quiet (m.conclude s t result) := by
  have h := modifySession_quiet s.id (f := Session.endTurn) (fun _ => ⟨rfl, rfl⟩) m
  unfold conclude
  dsimp only
  exact ((h.trans (publish_quiet _ _)).trans (place_quiet t.id .over _)).trans (unlock_quiet _ _)

theorem play_quiet (s : Session) (t : Turn) (ending : Except TurnError Unit) (n : Normalizer) (m : Manager)
    (steps : List TurnStep) : m.Quiet (m.play s t ending n steps) := by
  induction steps generalizing m n with
  | nil => exact conclude_quiet s t _ m
  | cons step r ih =>
    cases step with
    | event e =>
      have chunks (cs : List Chunk) (m : Manager) :
          m.Quiet (cs.foldl (fun m c => m.publish (.turn (names s t) (.chunk c))) m) := by
        induction cs generalizing m with
        | nil => exact .refl m
        | cons c r ih => exact (publish_quiet _ m).trans (ih _)
      exact (chunks _ m).trans (ih (n.apply e).1 _)
    | pause ms =>
      by_cases h : ms = 0
      · simp only [play, h, if_true]
        exact ih n m
      · simp only [play, h, if_false]
        exact (place_quiet t.id _ m).trans (.of_same rfl rfl rfl (List.prefix_refl _) rfl rfl)
    | untilInterrupted =>
      by_cases h : t.cut = true
      · simp only [play, h, if_true]
        exact ih n m
      · simp only [play, h]
        exact place_quiet t.id _ m

/-- An engine is asked for one turn at most. -/
structure Asks (id : Nat) (m m' : Manager) : Prop where
  keeps : m.Keeps m'
  asked : m'.asked = m.asked ∨ m'.asked = m.asked ++ [id]

theorem Quiet.asks (h : m.Quiet m') (id : Nat) : m.Asks id m' := ⟨h.keeps, .inl h.asked⟩

theorem Quiet.trans_asks (h : m.Quiet m') (h' : m'.Asks id m'') : m.Asks id m'' :=
  ⟨h.keeps.trans h'.keeps, h.asked ▸ h'.asked⟩

theorem Asks.trans_quiet (h : m.Asks id m') (h' : m'.Quiet m'') : m.Asks id m'' :=
  ⟨h.keeps.trans h'.keeps, h'.asked ▸ h.asked⟩

theorem prompt_asks (s : Session) (t : Turn) (m : Manager) : m.Asks t.id (m.prompt s t) := by
  have h := modifySession_quiet s.id (f := fun s => { s with current := some t.id }) (fun _ => ⟨rfl, rfl⟩) m
  unfold prompt
  dsimp only
  split
  · exact (h.trans (conclude_quiet s t _ _)).asks t.id
  next e _ =>
    refine Asks.trans_quiet ?_ (play_quiet s t _ _ _ _)
    exact ⟨⟨h.keeps.doors, h.keeps.tags, h.keeps.told, h.keeps.now, h.keeps.background⟩, .inr rfl⟩

theorem begin_asks (s : Session) (t : Turn) (m : Manager) : m.Asks t.id (m.begin s t) := by
  unfold begin
  by_cases hc : s.closed = true
  · simp only [hc, if_true]
    have h := modifySession_quiet s.id (f := Session.endTurn) (fun _ => ⟨rfl, rfl⟩) m
    exact ((h.trans (place_quiet t.id .over _)).trans (unlock_quiet s _)).asks t.id
  · simp only [hc]
    have h := modifySession_quiet s.id (f := fun s => { s with turns := s.turns + 1 }) (fun _ => ⟨rfl, rfl⟩) m
    have hp : m.Quiet ((m.modifySession s.id fun s => { s with turns := s.turns + 1 }).publish
        (.turn (names s t) .started)) := h.trans (publish_quiet _ _)
    by_cases hi : s.interrupted = true
    · simp only [hi, if_true]
      exact (hp.trans (conclude_quiet s t _ _)).asks t.id
    · simp only [hi]
      exact hp.trans_asks (prompt_asks s t _)

/-- Only a turn that finds the lock free, or was given it, may be asked in its step. -/
theorem step_asks (id : Nat) (m : Manager) : m.Quiet (m.step id) ∨ (m.Asks id (m.step id) ∧
    ∃ t s, m.turn? id = some t ∧ m.session? t.session = some s ∧
      (t.place = .granted ∨ s.holder = none)) := by
  unfold step
  cases hf : m.turn? id with
  | none => exact .inl (.refl m)
  | some t =>
    cases hs : m.session? t.session with
    | none =>
      dsimp only
      rw [hs]
      exact .inl (.refl m)
    | some s =>
      have hid : t.id = id := (mem_of_find?_key hf).2
      dsimp only
      rw [hs]
      dsimp only
      split
      · split
        next hh =>
          have h := modifySession_quiet s.id (f := fun s => { s with holder := some id }) (fun _ => ⟨rfl, rfl⟩) m
          refine .inr ⟨h.trans_asks (hid ▸ begin_asks s t _), t, s, rfl, hs, .inr ?_⟩
          simpa using hh
        next =>
          have h := modifySession_quiet s.id (f := fun s => { s with waiters := s.waiters ++ [id] })
            (fun _ => ⟨rfl, rfl⟩) m
          exact .inl (h.trans (place_quiet id .waiting _))
      next hp => exact .inr ⟨hid ▸ begin_asks s t m, t, s, rfl, hs, .inl hp⟩
      · split
        · exact .inl (play_quiet s t _ _ m _)
        · exact .inl (.refl m)
      · split
        · exact .inl (play_quiet s t _ _ m _)
        · exact .inl (.refl m)
      · exact .inl (.refl m)
      · exact .inl (.refl m)

/-! ### Other moves -/

/-- No engine is asked, nothing told of a turn, and no turn that was launched moves. -/
structure Still (m m' : Manager) : Prop where
  asked : m'.asked = m.asked
  tags : m.tags <+: m'.tags
  told : ∀ sid, m'.told sid = m.told sid
  places : ∀ t ∈ m.turns, ∃ t' ∈ m'.turns, t'.id = t.id ∧ t'.place = t.place

theorem Still.refl (m : Manager) : m.Still m := ⟨rfl, List.prefix_refl _, fun _ => rfl, fun t ht => ⟨t, ht, rfl, rfl⟩⟩

theorem Still.of_launch (ha : m'.asked = m.asked) (hn : m'.notices = m.notices) (ht : m'.turns = m.turns ++ [t]) :
    m.Still m' := by
  refine ⟨ha, ?_, fun sid => by rw [Manager.told, hn, Manager.told], fun u hu => ?_⟩
  · rw [Manager.tags, Manager.tags, ht, List.map_append]
    exact List.prefix_append _ _
  · exact ⟨u, ht ▸ List.mem_append_left _ hu, rfl, rfl⟩

theorem Calm.still (h : m.Calm m') : m.Still m' := by
  obtain ⟨g, f, c, hp, _⟩ := h.change
  refine ⟨c.asked, c.tags ▸ List.prefix_refl _, c.told, fun t ht => ⟨g t, ?_, c.turn_id t, hp t⟩⟩
  rw [c.turns]
  exact List.mem_map_of_mem ht

theorem launch_still (s : Session) (prompt : String) (m : Manager) : m.Still (m.launch s prompt).2 :=
  .of_launch rfl rfl rfl

theorem message_still (id prompt : String) (m : Manager) : m.Still (m.message id prompt).2 := by
  unfold message
  split
  · exact .refl m
  · cases m.reach id with
    | error e => exact .refl m
    | ok s => exact launch_still s prompt m

theorem completeStart_still (st : Startup) (m : Manager) : m.Still (m.completeStart st).2 := by
  unfold completeStart
  split
  · exact .refl m
  · split
    · exact .refl m
    · split
      · exact Calm.still (.of_same rfl rfl rfl rfl rfl rfl)
      · exact .of_launch rfl rfl rfl

theorem poll_keeps (m : Manager) : m.Keeps m.poll := by
  unfold poll
  cases m.ready with
  | nil => exact (Quiet.refl m).keeps
  | cons id r =>
    have h : m.Keeps { m with ready := r } := .of_same rfl rfl (List.prefix_refl _) rfl rfl
    rcases step_asks id { m with ready := r } with hq | ⟨ha, -⟩
    · exact h.trans hq.keeps
    · exact h.trans ha.keeps

end Manager

end StackDeck.Diagnosis
