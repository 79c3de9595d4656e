import StackDeck.Proofs.Diagnosis.Asking
import StackDeck.Proofs.Diagnosis.Launch
import StackDeck.Proofs.Diagnosis.Run

namespace StackDeck.Diagnosis

namespace Manager

variable {m : Manager} {s : Session} {t : Turn} {B : Nat → List TurnNews}

/-! ### The lines of all sessions -/

/-- What was told of one turn. -/
def newsOf (t : Turn) (m : Manager) : List TurnNews :=
  (m.told t.session).filterMap fun x => if x.1 = t.requestId then some x.2 else none

theorem Sound.newsOf_eq (h : m.Sound B none) (ht : t ∈ m.turns) : m.newsOf t = B t.id := by
  have pick (u : Turn) : ((B u.id).map fun n => (u.requestId, n)).filterMap
      (fun x => if x.1 = t.requestId then some x.2 else none) = if u.requestId = t.requestId then B u.id else [] := by
    rw [List.filterMap_map]
    by_cases hu : u.requestId = t.requestId
    · simp only [Function.comp_def, hu, if_true]
      exact List.filterMap_some
    · simp only [Function.comp_def, hu, if_false]
      exact List.filterMap_none _
  have none {us : List Turn} (hus : ∀ u ∈ us, u.requestId ≠ t.requestId) :
      (us.flatMap fun u => if u.requestId = t.requestId then B u.id else []) = [] := by
    refine List.flatMap_eq_nil_iff.mpr fun u hu => ?_
    rw [if_neg (hus u hu)]
  have hm : t ∈ m.turnsOf t.session := mem_turnsOf.mpr ⟨ht, rfl⟩
  obtain ⟨before, after, hts⟩ := List.append_of_mem hm
  have hnd : ((m.turnsOf t.session).map Turn.requestId).Nodup :=
    h.named.nodup_requests.sublist (List.filter_sublist.map _)
  rw [hts] at hnd
  simp only [List.map_append, List.map_cons, List.nodup_append, List.nodup_cons, List.mem_map] at hnd
  obtain ⟨_, ⟨ha, _⟩, hb⟩ := hnd
  have hbefore : ∀ u ∈ before, u.requestId ≠ t.requestId := fun u hu => hb _ ⟨u, hu, rfl⟩ _ (by simp)
  have hafter : ∀ u ∈ after, u.requestId ≠ t.requestId := fun u hu he => ha ⟨u, hu, he⟩
  rw [newsOf, h.told, List.filterMap_flatMap]
  simp only [pick, hts, List.flatMap_append, List.flatMap_cons, none hbefore, none hafter, if_true, List.nil_append,
    List.append_nil]

theorem Line.acts_le {olds acts waits fresh : List Turn} (h : m.Line s olds acts waits fresh) : acts.length ≤ 1 := by
  have hl := congrArg List.length h.holder
  cases hs : s.holder with
  | none => simp_all
  | some k => simp_all

/-- Every turn of a session stands in the line of the session. -/
theorem Sound.line (h : m.Sound B none) (sid : String) : m.turnsOf sid = [] ∨
    ∃ s ∈ m.sessions, s.id = sid ∧ ∃ olds acts waits fresh, m.Line s olds acts waits fresh ∧
      ∀ t ∈ acts, t.place.isActive = true := by
  cases hts : m.turnsOf sid with
  | nil => exact .inl rfl
  | cons t r =>
    obtain ⟨ht, rfl⟩ := mem_turnsOf.mp (show t ∈ m.turnsOf sid by simp [hts])
    obtain ⟨s, hs, he⟩ := h.named.known t ht
    obtain ⟨olds, acts, waits, fresh, hl, ha⟩ := h.queued s hs
    exact .inr ⟨s, hs, he, olds, acts, waits, fresh, hl, fun u hu => (ha u hu).resolve_left nofun⟩

/-- A turn of which anything was told comes after turns that are over. -/
theorem Sound.ordered (h : m.Sound B none) (sid : String) :
    (m.turnsOf sid).Pairwise fun t u => t.place = .over ∨ m.newsOf u = [] := by
  rcases h.line sid with hn | ⟨s, _, rfl, olds, acts, waits, fresh, hl, _⟩
  · rw [hn]
    exact .nil
  · have untold {u : Turn} (hu : u ∈ waits ++ fresh) : m.newsOf u = [] := by
      have hm := (hl.mem (t := u) (by simp [List.mem_append.mp hu])).1
      have ht := h.tells u hm nofun
      rw [h.newsOf_eq hm]
      rcases List.mem_append.mp hu with hu | hu
      · rw [hl.waiting u hu] at ht
        exact ht
      · rw [hl.launched u hu] at ht
        exact ht
    have hacts : acts.Pairwise fun t u => t.place = .over ∨ m.newsOf u = [] := by
      have hle := hl.acts_le
      match acts with
      | [] => exact .nil
      | [t] => exact List.pairwise_singleton _ t
      | _ :: _ :: _ => simp at hle
    rw [hl.turns, List.pairwise_append, @List.pairwise_append _ _ acts]
    refine ⟨List.pairwise_of_forall_mem_list fun t ht _ _ => .inl (hl.ended t ht), ⟨hacts, ?_, ?_⟩, ?_⟩
    · exact List.pairwise_of_forall_mem_list fun _ _ u hu => .inr (untold hu)
    · exact fun _ _ u hu => .inr (untold hu)
    · exact fun t ht _ _ => .inl (hl.ended t ht)

theorem isActive_of_isAsking {p : TurnPlace} (h : p.isAsking = true) : p.isActive = true := by
  cases p <;> simp_all [TurnPlace.isAsking, TurnPlace.isActive]

/-- A turn for which an engine is asked is the one that has the lock. -/
theorem Line.mem_acts {olds acts waits fresh : List Turn} (h : m.Line s olds acts waits fresh)
    (ht : t ∈ m.turnsOf s.id) (ha : t.place.isActive = true) : t ∈ acts := by
  rw [h.turns] at ht
  simp only [List.mem_append] at ht
  rcases ht with ht | ht | ht | ht
  · rw [h.ended t ht] at ha
    cases ha
  · exact ht
  · rw [h.waiting t ht] at ha
    cases ha
  · rw [h.launched t ht] at ha
    cases ha

theorem Sound.asking_le (h : m.Sound B none) (sid : String) :
    ((m.turnsOf sid).filter fun t => t.place.isAsking).length ≤ 1 := by
  rcases h.line sid with hn | ⟨s, _, rfl, olds, acts, waits, fresh, hl, _⟩
  · simp [hn]
  · have not {ts : List Turn} {p : TurnPlace} (hp : p.isAsking = false) (hts : ∀ t ∈ ts, t.place = p) :
        ts.filter (fun t => t.place.isAsking) = [] := by
      refine List.filter_eq_nil_iff.mpr fun t ht => ?_
      simp [hts t ht, hp]
    rw [hl.turns, List.filter_append, List.filter_append, List.filter_append, not rfl hl.ended, not rfl hl.waiting,
      not rfl hl.launched]
    simp only [List.nil_append, List.append_nil]
    exact Nat.le_trans (List.length_filter_le _ _) hl.acts_le

/-- A step that asks an engine finds it asked for no other turn of the session. -/
theorem Sound.poll_asks (h : m.Sound B none) : ∃ xs, m.poll.asked = m.asked ++ xs ∧ xs.length ≤ 1 ∧
    ∀ id ∈ xs, ∃ t ∈ m.turns, t.id = id ∧ ∀ u ∈ m.turnsOf t.session, u.place.isAsking = false := by
  unfold Manager.poll
  cases hr : m.ready with
  | nil => exact ⟨[], (List.append_nil _).symm, by simp, by simp⟩
  | cons id r =>
    dsimp only
    rcases step_asks id { m with ready := r } with hq | ⟨ha, t, s, hf, hs, hp⟩
    · exact ⟨[], by rw [hq.asked, List.append_nil], by simp, by simp⟩
    · rcases ha.asked with ha | ha
      · exact ⟨[], by rw [ha, List.append_nil], by simp, by simp⟩
      · refine ⟨[id], ha, by simp, ?_⟩
        intro k hk
        obtain ⟨ht, hid⟩ : t ∈ m.turns ∧ t.id = id := mem_of_find?_key hf
        obtain ⟨hsm, hse⟩ : s ∈ m.sessions ∧ s.id = t.session := mem_of_find?_key hs
        refine ⟨t, ht, hid.trans (List.mem_singleton.mp hk).symm, ?_⟩
        intro u hu
        obtain ⟨olds, acts, waits, fresh, hl, -⟩ := h.queued s hsm
        rw [← hse] at hu
        by_contra hask
        have hua := hl.mem_acts hu (isActive_of_isAsking (by simpa using hask))
        rcases hp with hp | hp
        · have hta := hl.mem_acts (mem_turnsOf.mpr ⟨ht, hse.symm⟩) (by rw [hp]; rfl)
          have := hl.acts_eq hta
          rw [this, List.mem_singleton] at hua
          simp [hua, hp, TurnPlace.isAsking] at hask
        · have hh := hl.holder
          rw [hp] at hh
          rw [List.map_eq_nil_iff.mp hh] at hua
          cases hua

end Manager

namespace Scene

variable {s : Scene} {B : Nat → List TurnNews}

theorem start_sound (engines : List Engine) (history : Log.History) (startupTimeout promptLines : Nat) :
    (Scene.start engines history startupTimeout promptLines).manager.Sound (fun _ => []) none := by
  refine ⟨⟨rfl, rfl, rfl, rfl, rfl, ?_⟩, ?_, ⟨?_, ?_, ?_⟩, fun _ => rfl, ?_, ?_, ?_, ?_⟩ <;>
    simp [Scene.start]

theorem move_sound (h : s.manager.Sound B none) (mv : Move) : ∃ B', (s.move mv).manager.Sound B' none := by
  cases mv with
  | start service provider =>
    simp only [move]
    split
    · exact ⟨B, h⟩
    · exact ⟨B, h⟩
  | complete k =>
    simp only [move, complete]
    split
    · exact ⟨B, h⟩
    next st _ => exact h.completeStart st
  | leave k => exact ⟨B, h⟩
  | message id prompt => exact h.message id prompt
  | interrupt id => exact ⟨B, h.calm (Manager.interrupt_calm id _)⟩
  | close id => exact ⟨B, h.calm (Manager.close_calm id _)⟩
  | closeAll => exact ⟨B, h.calm (Manager.closeAll_calm _)⟩
  | poll => exact h.poll
  | pass ms => exact ⟨B, h.calm (Manager.wakeAt_calm _ _)⟩
  | touch engines history => exact ⟨B, h.calm (.of_same rfl rfl rfl rfl rfl rfl)⟩

theorem run_sound (engines : List Engine) (history : Log.History) (startupTimeout promptLines : Nat)
    (moves : List Move) :
    ∃ B, ((Scene.start engines history startupTimeout promptLines).run moves).manager.Sound B none := by
  refine run_keeps (P := fun s => ∃ B, s.manager.Sound B none) ?_ ⟨_, start_sound _ _ _ _⟩ moves
  intro s mv ⟨B, h⟩
  exact move_sound h mv

/-- Only a step of a turn asks an engine or ends a turn. -/
theorem move_still (s : Scene) (mv : Move) : mv = .poll ∨ s.manager.Still (s.move mv).manager := by
  cases mv with
  | start service provider =>
    simp only [move]
    split
    · exact .inr (.refl _)
    · exact .inr (.refl _)
  | complete k =>
    simp only [move, complete]
    split
    · exact .inr (.refl _)
    next st _ => exact .inr (Manager.completeStart_still st _)
  | leave k => exact .inr (.refl _)
  | message id prompt => exact .inr (Manager.message_still id prompt _)
  | interrupt id => exact .inr (Manager.interrupt_calm id _).still
  | close id => exact .inr (Manager.close_calm id _).still
  | closeAll => exact .inr (Manager.closeAll_calm _).still
  | poll => exact .inl rfl
  | pass ms => exact .inr (Manager.wakeAt_calm _ _).still
  | touch engines history => exact .inr (Manager.Calm.still (.of_same rfl rfl rfl rfl rfl rfl))

/-- Turns and what was told of them stay as they were. -/
theorem move_extends (s : Scene) (mv : Move) : s.manager.tags <+: (s.move mv).manager.tags ∧
    ∀ sid, s.manager.told sid <+: (s.move mv).manager.told sid := by
  rcases move_still s mv with rfl | h
  · have hk := s.manager.poll_keeps
    exact ⟨hk.tags ▸ List.prefix_refl _, hk.told⟩
  · exact ⟨h.tags, fun sid => h.told sid ▸ List.prefix_refl _⟩

/-- A move that asks an engine asks it for one turn of a session without another one in progress. -/
theorem move_asks (h : s.manager.Sound B none) (mv : Move) :
    ∃ xs, (s.move mv).manager.asked = s.manager.asked ++ xs ∧ xs.length ≤ 1 ∧ ∀ id ∈ xs,
      ∃ t ∈ s.manager.turns, t.id = id ∧ ∀ u ∈ s.manager.turnsOf t.session, u.place.isAsking = false := by
  rcases move_still s mv with rfl | hs
  · exact h.poll_asks
  · exact ⟨[], by rw [hs.asked, List.append_nil], by simp, by simp⟩

/-- A turn ends without a word only in a session that was closed before it had the lock. -/
theorem silent_end (h : s.manager.Sound B none) {mv : Move} {t t' : Turn} (ht : t ∈ s.manager.turns)
    (hp : t.place ≠ .over) (ht' : t' ∈ (s.move mv).manager.turns) (hid : t'.id = t.id) (hp' : t'.place = .over)
    (hn : (s.move mv).manager.newsOf t' = []) :
    s.manager.newsOf t = [] ∧ ∀ v ∈ s.manager.sessions, v.id = t.session → v.closed = true := by
  obtain ⟨B', h'⟩ := move_sound h mv
  obtain ⟨htags, htold⟩ := move_extends s mv
  have same : t'.tag = t.tag := by
    have hm : t.tag ∈ (s.move mv).manager.turns.map Turn.tag := htags.subset (List.mem_map_of_mem ht)
    obtain ⟨u, hu, he⟩ := List.mem_map.mp hm
    have hut := h'.named.eq_of_id hu ht' ((congrArg Prod.fst he).trans hid.symm)
    rw [← hut, he]
  have hsession : t'.session = t.session := congrArg (fun x => x.2.1) same
  have hrequest : t'.requestId = t.requestId := congrArg (fun x => x.2.2) same
  refine ⟨?_, ?_⟩
  · unfold Manager.newsOf at hn
    rw [hsession, hrequest] at hn
    exact List.prefix_nil.mp (hn ▸ (htold t.session).filterMap _)
  · rcases move_still s mv with rfl | hs
    · have hsilent := h'.silent t' ht' nofun hp' ((h'.newsOf_eq ht').symm.trans hn)
      intro v hv hvt
      have hd : (v.id, v.closed) ∈ (s.move .poll).manager.doors := by
        rw [show (s.move .poll).manager.doors = s.manager.doors from s.manager.poll_keeps.doors]
        exact List.mem_map.mpr ⟨v, hv, rfl⟩
      obtain ⟨w, hw, he⟩ := List.mem_map.mp hd
      have hclosed := hsilent w hw ((congrArg Prod.fst he).trans (hvt.trans hsession.symm))
      exact (congrArg Prod.snd he).symm.trans hclosed
    · obtain ⟨u, hu, huid, hup⟩ := hs.places t ht
      have hut := h'.named.eq_of_id hu ht' (huid.trans hid.symm)
      rw [hut, hp'] at hup
      exact absurd hup.symm hp

end Scene

/-- In every run, what is told of a session are the blocks of its turns, one after another in the order in
which the turns were launched. -/
theorem turns_follow_protocol (engines : List Engine) (history : Log.History) (startupTimeout promptLines : Nat)
    (moves : List Move) :
    let s := (Scene.start engines history startupTimeout promptLines).run moves
    let m := s.manager
    -- A turn that was launched keeps its names, and no other turn has its request.
    (∀ mv, m.tags <+: (s.move mv).manager.tags) ∧
    (m.turns.map Turn.requestId).Nodup ∧ (m.sessions.map Session.id).Nodup ∧
    (∀ t ∈ m.turns, ∃ v ∈ m.sessions, v.id = t.session) ∧
    -- What was told stays. Each turn has one block, and a block begins when those before it have ended.
    (∀ mv sid, m.told sid <+: (s.move mv).manager.told sid) ∧
    (∀ sid, m.told sid = (m.turnsOf sid).flatMap fun t => (m.newsOf t).map fun n => (t.requestId, n)) ∧
    (∀ t ∈ m.turns, t.place.Tells (m.newsOf t)) ∧
    (∀ sid, (m.turnsOf sid).Pairwise fun t u => t.place = .over ∨ m.newsOf u = []) ∧
    -- A turn that ends without a block found its session closed, and no engine is ever asked for it.
    (∀ t ∈ m.turns, t.place = .over → m.newsOf t = [] → ∀ v ∈ m.sessions, v.id = t.session → v.closed = true) ∧
    (∀ mv, ∀ t ∈ m.turns, t.place ≠ .over → ∀ t' ∈ (s.move mv).manager.turns, t'.id = t.id → t'.place = .over →
      (s.move mv).manager.newsOf t' = [] →
      m.newsOf t = [] ∧ ∀ v ∈ m.sessions, v.id = t.session → v.closed = true) ∧
    (∀ t ∈ m.turns, m.newsOf t = [] → t.id ∉ m.asked) ∧
    -- An engine is asked once for a turn, and for one turn of a session at a time.
    m.asked.Nodup ∧
    (∀ sid, ((m.turnsOf sid).filter fun t => t.place.isAsking).length ≤ 1) ∧
    (∀ mv, ∃ xs, (s.move mv).manager.asked = m.asked ++ xs ∧ xs.length ≤ 1 ∧ ∀ id ∈ xs,
      ∃ t ∈ m.turns, t.id = id ∧ ∀ u ∈ m.turnsOf t.session, u.place.isAsking = false) := by
  intro s m
  obtain ⟨B, h⟩ : ∃ B, m.Sound B none := Scene.run_sound engines history startupTimeout promptLines moves
  refine ⟨fun mv => (s.move_extends mv).1, h.named.nodup_requests, h.named.nodup_sessions, h.named.known,
    fun mv => (s.move_extends mv).2, ?_, ?_, h.ordered, ?_, ?_, ?_, h.once, h.asking_le, Scene.move_asks h⟩
  · intro sid
    rw [h.told]
    refine List.flatMap_congr fun t ht => ?_
    rw [h.newsOf_eq (Manager.mem_turnsOf.mp ht).1]
  · intro t ht
    rw [h.newsOf_eq ht]
    exact h.tells t ht nofun
  · intro t ht hp hn
    rw [h.newsOf_eq ht] at hn
    exact h.silent t ht nofun hp hn
  · intro mv t ht hp t' ht' hid hp' hn
    exact Scene.silent_end h ht hp ht' hid hp' hn
  · intro t ht hn hm
    rw [h.newsOf_eq ht] at hn
    exact (h.asked t.id hm).2 hn

/-- The second turn gets the lock only when the first, which says no more, is interrupted. -/
example :
    let engine : Engine :=
      { id := "mock", scripts := [⟨[.event (.answer "port taken"), .untilInterrupted], .ok ()⟩, .answer "see log"] }
    let s := (Scene.start [engine] (.empty 10) 30000 50).run [.start "web" none, .complete 0, .message "s1" "why", .poll,
      .poll, .interrupt "s1", .poll, .poll]
    (s.manager.told "s1").map Prod.fst = ["r1", "r1", "r1", "r2", "r2", "r2"] ∧ s.manager.asked = [0, 1] := by
  decide +kernel

end StackDeck.Diagnosis
