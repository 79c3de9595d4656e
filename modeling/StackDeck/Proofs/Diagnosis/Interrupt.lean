import Mathlib.Data.List.Induction
import StackDeck.Proofs.Diagnosis.Attribution

/-!
What is known of turns and interrupts holds in every run: every interrupt reaches the turn that it was meant for.
-/

namespace StackDeck.Diagnosis

namespace Manager

variable {m m' : Manager} {s v : Session} {t u : Turn} {B : Nat → List TurnNews} {A : List Turn}
  {H : List (Nat × TurnScript)}

/-! ### Turns that are launched -/

/-- A turn that joins a session is the last in line, and nothing is known of it. -/
theorem fair_joined (f : s.Fair A H m) (hts : m'.turnsOf s.id = m.turnsOf s.id ++ [t]) (hp : t.place = .launched)
    (hcut : t.cut = false) (hnew : t.id ∉ A.map Turn.id) (hid : ∀ u ∈ m.turns, u.id ≠ t.id)
    (hnews : ∀ u, m'.newsOf u = m.newsOf u) : ({ s with pending := s.pending + 1 } : Session).Fair A H m' := by
  have hlive : m'.live s.id = m.live s.id ++ [t] := by
    unfold live
    rw [hts, List.filter_append]
    simp [hp, TurnPlace.isOver]
  refine ⟨?_, ?_, ?_, ?_, ?_⟩
  · show s.pending + 1 = _
    rw [hlive, List.length_append, f.pending]
    rfl
  · show s.interrupted = true → _
    rw [hlive]
    simp
  · show ∀ id, s.current = some id → _
    intro id hc
    obtain ⟨u, hu, hue, hq⟩ := f.current id hc
    exact ⟨u, by rw [hts]; exact List.mem_append_left _ hu, hue, hq⟩
  · show ∀ u ∈ m'.live s.id, _ ↔ s.interrupted = true ∧ (m'.live s.id).head? = _
    rw [hlive]
    intro u hu
    rcases List.mem_append.mp hu with hu | hu
    · rw [f.marked u hu, List.head?_append_of_ne_nil _ (List.ne_nil_of_mem hu)]
    · rw [List.mem_singleton.mp hu]
      refine iff_of_false hnew ?_
      rintro ⟨hi, hh⟩
      have hne := f.flagged hi
      rw [List.head?_append_of_ne_nil _ hne] at hh
      exact hid t (mem_turnsOf.mp (mem_live.mp (List.mem_of_head? hh)).1).1 rfl
  · show ∀ u ∈ m'.turnsOf s.id, _
    rw [hts]
    intro u hu
    rw [hnews]
    rcases List.mem_append.mp hu with hu | hu
    · exact (f.turns u hu).congr Iff.rfl (fun _ => Iff.rfl) rfl rfl
    · rw [List.mem_singleton.mp hu]
      refine ⟨fun _ => hcut, ?_, ?_⟩
      · simp [hp, TurnPlace.isAsking]
      · simp [hp]

theorem Sound.launch_attributed (h : m.Sound B none) (a : m.Attributed A H) (hs : s ∈ m.sessions) (prompt : String) :
    (m.launch s prompt).2.Attributed A H := by
  let t : Turn := ⟨m.turns.length, s.id, s!"r{m.naming.requests + 1}", prompt, false, .launched⟩
  have hturns : (m.launch s prompt).2.turns = m.turns ++ [t] := rfl
  have hsessions : (m.launch s prompt).2.sessions =
      m.sessions.map (Session.changed s.id fun s => { s with pending := s.pending + 1 }) := rfl
  have hnew : t.id ∉ A.map Turn.id := by
    intro hm
    obtain ⟨t₀, ht₀, he⟩ := List.mem_map.mp hm
    exact Nat.ne_of_lt (a.known t₀ ht₀) he
  refine ⟨a.heard, a.reached, fun t₀ ht₀ => ?_, fun v hv => ?_⟩
  · rw [hturns, List.length_append]
    exact Nat.lt_add_right 1 (a.known t₀ ht₀)
  · rw [hsessions] at hv
    obtain ⟨w, hw, rfl⟩ := List.mem_map.mp hv
    by_cases hws : w.id = s.id
    · rw [Session.changed_self hws, h.named.session_eq hw hs hws]
      have hts : (m.launch s prompt).2.turnsOf s.id = m.turnsOf s.id ++ [t] := by
        rw [turnsOf_concat hturns, if_pos rfl]
      exact fair_joined (a.sessions s hs) hts rfl rfl hnew (fun u hu => Nat.ne_of_lt (h.named.id_lt hu)) fun _ => rfl
    · rw [Session.changed_other hws]
      have hts : (m.launch s prompt).2.turnsOf w.id = m.turnsOf w.id := by
        rw [turnsOf_concat hturns, if_neg fun he => hws he.symm, List.append_nil]
      exact (a.sessions w hw).frame rfl rfl rfl hts (fun _ _ => rfl) (fun _ _ => Iff.rfl) fun _ _ _ => Iff.rfl

/-- A session that is enrolled has no turns: those there are belong to sessions with other names. -/
theorem Sound.enroll_attributed (h : m.Sound B none) (a : m.Attributed A H) (h' : m'.Sound B none)
    (hsessions : m'.sessions = m.sessions ++ [v]) (hturns : m'.turns = m.turns) (hasked : m'.asked = m.asked)
    (htold : ∀ sid, m'.told sid = m.told sid) (hpending : v.pending = 0) (hflag : v.interrupted = false)
    (hcurrent : v.current = none) : m'.Attributed A H := by
  refine ⟨by rw [hasked, a.heard], by rw [hasked]; exact a.reached, by rw [hturns]; exact a.known, fun w hw => ?_⟩
  have hts (sid : String) : m'.turnsOf sid = m.turnsOf sid := by
    rw [turnsOf, hturns, turnsOf]
  rw [hsessions] at hw
  rcases List.mem_append.mp hw with hw | hw
  · refine (a.sessions w hw).frame rfl rfl rfl (hts w.id) ?_ (fun _ _ => Iff.rfl) fun _ _ _ => Iff.rfl
    exact fun u _ => newsOf_congr rfl (htold u.session)
  · rw [List.mem_singleton.mp hw]
    have hnone : m'.turnsOf v.id = [] := by
      rw [hts]
      refine List.filter_eq_nil_iff.mpr fun u hu he => ?_
      obtain ⟨w, hw, hwu⟩ := h.named.known u hu
      have hnd := h'.named.nodup_sessions
      rw [hsessions, List.map_append, List.nodup_append] at hnd
      exact hnd.2.2 w.id (List.mem_map_of_mem hw) v.id (by simp) (hwu.trans (by simpa using he))
    have hlive : m'.live v.id = [] := by
      rw [live, hnone, List.filter_nil]
    refine ⟨by rw [hpending, hlive, List.length_nil], by simp [hflag], by simp [hcurrent], ?_, ?_⟩
    · rw [hlive]
      exact fun u hu => absurd hu List.not_mem_nil
    · rw [hnone]
      exact fun u hu => absurd hu List.not_mem_nil

theorem Sound.register_attributed (h : m.Sound B none) (a : m.Attributed A H) (service : String) (k : Nat) (x : Engine) :
    (m.register service k x).2.Attributed A H := by
  obtain ⟨prompt, he⟩ := register_eq service k x m
  rw [he]
  have h' := h.enlist service k x
  have a' := h.enroll_attributed (v := m.newcomer service k x) a h' rfl rfl rfl (fun _ => rfl) rfl rfl rfl
  exact h'.launch_attributed a' (List.mem_append_right m.sessions (List.mem_singleton_self _)) prompt

theorem Sound.completeStart_attributed (h : m.Sound B none) (a : m.Attributed A H) (st : Startup) :
    (m.completeStart st).2.Attributed A H := by
  have opens (x : Engine) : (m.setEngine st.engine x).Attributed A H := a.of_same rfl rfl rfl fun _ => rfl
  rcases completeStart_cases st m with ⟨e, -, hm | ⟨x, -, hm⟩⟩ | ⟨x, -, started, m', he, hr⟩
  · rw [hm]
    exact a
  · rw [hm]
    exact opens _
  · have h' : (m.setEngine st.engine x.openSession.2).Sound B none := h.calm (.of_same rfl rfl rfl rfl rfl rfl)
    rw [he, show m' = _ from congrArg Prod.snd hr]
    exact h'.register_attributed (opens _) st.service st.engine _

theorem Sound.message_attributed (h : m.Sound B none) (a : m.Attributed A H) (id prompt : String) :
    (m.message id prompt).2.Attributed A H := by
  unfold Manager.message
  split
  · exact a
  · cases hr : m.reach id with
    | error e => exact a
    | ok s => exact h.launch_attributed a (mem_of_reach hr) prompt

/-! ### Sessions that are released -/

/-- What the release of a known session keeps holds after the release of several of them. -/
theorem releases_keep {P : Manager → Prop} (step : ∀ m s, P m → s ∈ m.sessions → P (m.release s).2)
    (ss : List Session) (hnd : (ss.map Session.id).Nodup) (h : P m) (hss : ∀ s ∈ ss, s ∈ m.sessions) :
    P (ss.foldl (fun m s => (m.release s).2) m) := by
  induction ss generalizing m with
  | nil => exact h
  | cons s r ih =>
    rw [List.map_cons, List.nodup_cons] at hnd
    refine ih hnd.2 (step m s h (hss s (by simp))) fun v hv => ?_
    rw [(release_releases s m).sessions]
    have hne : v.id ≠ s.id := fun he => hnd.1 (he ▸ List.mem_map_of_mem hv)
    refine List.mem_map.mpr ⟨v, hss v (List.mem_cons_of_mem s hv), ?_⟩
    exact Session.changed_other hne _

theorem Sound.closeAll_attributed (h : m.Sound B none) (a : m.Attributed A H) : m.closeAll.Attributed A H := by
  have hnd : ((m.sessions.filter fun s => m.registry.contains s.id).map Session.id).Nodup :=
    h.named.nodup_sessions.sublist (List.filter_sublist.map _)
  refine (releases_keep (P := fun m => m.Sound B none ∧ m.Attributed A H) ?_ _ hnd ⟨?_, ?_⟩ ?_).2
  · intro m s ⟨h, a⟩ hs
    exact ⟨h.calm (release_calm s m), (release_releases s m).attributed h a hs⟩
  · exact h.calm (.of_same rfl rfl rfl rfl rfl rfl)
  · exact a.of_same rfl rfl rfl fun _ => rfl
  · exact fun s hs => (List.mem_filter.mp hs).1

theorem Sound.close_attributed (h : m.Sound B none) (a : m.Attributed A H) (id : String) :
    (m.close id).2.Attributed A H := by
  rcases close_cases id m with ⟨e, -, he⟩ | ⟨s, hs, -, -, hr, -⟩
  · rw [he]
    exact a
  · have h₀ : ({ m with registry := m.registry.filter (· != id) } : Manager).Sound B none :=
      h.calm (.of_same rfl rfl rfl rfl rfl rfl)
    exact hr.attributed h₀ (a.of_same rfl rfl rfl fun _ => rfl) hs

end Manager

namespace Scene

variable {s : Scene} {B : Nat → List TurnNews} {A : List Turn} {H : List (Nat × TurnScript)}

/-- Only a step of a turn asks an engine. -/
theorem heard_of_still {mv : Move} (h : s.manager.Still (s.move mv).manager) : s.heard mv = [] := by
  unfold heard
  rw [h.asked, List.drop_length]
  rfl

theorem move_attributed (h : s.manager.Sound B none) (a : s.manager.Attributed A H) (mv : Move) :
    (s.move mv).manager.Attributed (A ++ s.meant mv) (H ++ s.heard mv) := by
  -- Most moves are no interrupt and ask no engine.
  have plain (hs : s.manager.Still (s.move mv).manager) (hm : s.meant mv = [])
      (ha : (s.move mv).manager.Attributed A H) :
      (s.move mv).manager.Attributed (A ++ s.meant mv) (H ++ s.heard mv) := by
    rw [hm, heard_of_still hs, List.append_nil, List.append_nil]
    exact ha
  cases mv with
  | start service provider =>
    have hm : (s.move (.start service provider)).manager = s.manager := by
      simp only [move]
      split <;> rfl
    refine plain ?_ rfl (hm ▸ a)
    rw [hm]
    exact .refl _
  | complete k =>
    simp only [move, complete] at plain ⊢
    split at plain
    · exact plain (.refl _) rfl a
    next st _ => exact plain (Manager.completeStart_still st _) rfl (h.completeStart_attributed a st)
  | leave k => exact plain (.refl _) rfl a
  | message id prompt => exact plain (Manager.message_still id prompt _) rfl (h.message_attributed a id prompt)
  | interrupt id =>
    have hstill : s.heard (.interrupt id) = [] := heard_of_still (Manager.interrupt_calm id _).still
    rw [hstill, List.append_nil]
    show (s.manager.interrupt id).2.Attributed _ H
    simp only [meant]
    rcases Manager.interrupt_cases id s.manager with (⟨e, -, he⟩ | ⟨v, hv, rfl, -, hp, he⟩) | ⟨v, hv, rfl, -, hp, rd, he⟩
    · rw [he]
      simpa using a
    · have hnone : s.manager.live v.id = [] := by
        rw [← List.length_eq_zero_iff, ← (a.sessions v hv).pending, hp]
      rw [he, hnone]
      simpa using a
    · rw [he]
      exact h.interrupt_attributed a hv hp rfl rfl rfl fun _ => rfl
  | close id => exact plain (Manager.close_calm id _).still rfl (h.close_attributed a id)
  | closeAll => exact plain (Manager.closeAll_calm _).still rfl (h.closeAll_attributed a)
  | poll =>
    show s.manager.poll.Attributed (A ++ []) _
    rw [List.append_nil]
    exact h.poll_attributed a
  | pass ms => exact plain (Manager.wakeAt_calm _ _).still rfl (a.of_same rfl rfl rfl fun _ => rfl)
  | touch engines history =>
    exact plain (Manager.Calm.still (.of_same rfl rfl rfl rfl rfl rfl)) rfl (a.of_same rfl rfl rfl fun _ => rfl)

theorem start_attributed (engines : List Engine) (history : Log.History) (startupTimeout promptLines : Nat) :
    (Scene.start engines history startupTimeout promptLines).manager.Attributed [] [] := by
  refine ⟨rfl, ?_, ?_, ?_⟩ <;> simp [Scene.start]

/-- The turns that interrupts were meant for, and the scripts that engines answered by, account for every run. -/
theorem run_attributed (engines : List Engine) (history : Log.History) (startupTimeout promptLines : Nat)
    (moves : List Move) :
    ((Scene.start engines history startupTimeout promptLines).run moves).manager.Attributed
      ((Scene.start engines history startupTimeout promptLines).observe meant moves)
      ((Scene.start engines history startupTimeout promptLines).observe heard moves) := by
  induction moves using List.reverseRecOn with
  | nil => exact start_attributed engines history startupTimeout promptLines
  | append_singleton moves mv ih =>
    obtain ⟨B, h⟩ := run_sound engines history startupTimeout promptLines moves
    rw [run_concat, observe_concat, observe_concat]
    exact move_attributed h ih mv

end Scene

namespace Manager

variable {m : Manager} {v : Session} {t t₀ : Turn} {B : Nat → List TurnNews} {A : List Turn}
  {H : List (Nat × TurnScript)}

/-! ### What is told of interrupts -/

theorem Attributed.interrupt_idle (a : m.Attributed A H) {id : String} (hl : m.live id = []) :
    (m.interrupt id).2 = m := by
  rcases interrupt_cases id m with (⟨e, -, he⟩ | ⟨v, -, -, -, -, he⟩) | ⟨v, hv, rfl, -, hp, -⟩
  · rw [he]
  · rw [he]
  · rw [(a.sessions v hv).pending, hl] at hp
    exact absurd rfl hp

/-- An interrupt that finds an engine asked uses the token of that turn. -/
theorem Attributed.interrupt_turns (a : m.Attributed A H) {id : String} (hok : (m.interrupt id).1 = .ok ())
    (hf : (m.live id).head? = some t) (hp : t.place.isAsking = true) :
    (m.interrupt id).2.turns = m.turns.map fun u => if u.id = t.id then { u with cut := true } else u := by
  have hmem : t ∈ m.live id := List.mem_of_head? hf
  rcases interrupt_cases id m with (⟨e, -, he⟩ | ⟨v, hv, rfl, -, hp₀, -⟩) | ⟨v, hv, rfl, -, -, rd, he⟩
  · rw [he] at hok
    cases hok
  · rw [(a.sessions v hv).pending, List.length_eq_zero_iff] at hp₀
    rw [hp₀] at hmem
    cases hmem
  · have hcur := (((a.sessions v hv).turns t (mem_live.mp hmem).1).asking hp).1
    rw [he, hcur]
    refine List.map_congr_left fun u _ => ?_
    simp only [Turn.reached, Option.some.injEq, eq_comm]

theorem ofResult_interrupted {result : Except TurnError String} {b : Bool} :
    (∃ text, (Outcome.ofResult result b).news = .interrupted text) ↔ b = true := by
  cases result <;> cases b <;> simp [Outcome.ofResult, Outcome.news]

/-- A turn of a session that was never closed does not end without a word. -/
theorem Sound.tells_end (h : m.Sound B none) (ht : t ∈ m.turns) (hp : t.place = .over) (hv : v ∈ m.sessions)
    (hvt : v.id = t.session) (hc : v.closed = false) : m.newsOf t ≠ [] := by
  intro hn
  rw [h.newsOf_eq ht] at hn
  rw [h.silent t ht nofun hp hn v hv hvt] at hc
  cases hc

theorem Attributed.fair (a : m.Attributed A H) (h : m.Sound B none) (ht : t ∈ m.turns) :
    ∃ v ∈ m.sessions, v.id = t.session ∧ t.Fair A H v (m.newsOf t) := by
  obtain ⟨v, hv, hvt⟩ := h.named.known t ht
  exact ⟨v, hv, hvt, (a.sessions v hv).turns t (mem_turnsOf.mpr ⟨ht, hvt.symm⟩)⟩

theorem Attributed.ends_interrupted (a : m.Attributed A H) (h : m.Sound B none) (ht : t ∈ m.turns)
    (hp : t.place = .over) (hn : m.newsOf t ≠ []) :
    (∃ text, .interrupted text ∈ m.newsOf t) ↔ t.id ∈ A.map Turn.id := by
  obtain ⟨v, -, -, ft⟩ := a.fair h ht
  obtain ⟨cs, result, hns, -⟩ := ft.settled hp hn
  rw [hns]
  have hlast (text : Option String) : TurnNews.interrupted text ∈
      .started :: cs.map .chunk ++ [(Outcome.ofResult result (decide (t.id ∈ A.map Turn.id))).news] ↔
        (Outcome.ofResult result (decide (t.id ∈ A.map Turn.id))).news = .interrupted text := by
    simp [eq_comm]
  simp only [hlast, ofResult_interrupted, decide_eq_true_eq]

/-- An interrupt that comes before its turn has the lock keeps the turn from its engine. -/
theorem Attributed.early (a : m.Attributed A H) (h : m.Sound B none) (ht₀ : t₀ ∈ A) (hp₀ : t₀.place.isAsking = false)
    (ht : t ∈ m.turns) (hid : t.id = t₀.id) :
    t.id ∉ m.asked ∧ (m.newsOf t = [] ∨ m.newsOf t = [.started, .interrupted none]) := by
  have hno : t.id ∉ m.asked := by
    rw [hid, a.reached t₀ ht₀, hp₀]
    nofun
  have hmeant : t.id ∈ A.map Turn.id := hid ▸ List.mem_map_of_mem ht₀
  have unheard (script : TurnScript) : (t.id, script) ∉ H :=
    fun hm => hno (a.heard ▸ List.mem_map_of_mem (f := Prod.fst) hm)
  obtain ⟨v, -, -, ft⟩ := a.fair h ht
  refine ⟨hno, ?_⟩
  cases hq : t.place.isQueued with
  | true => exact .inl (h.untold ht hq)
  | false =>
    by_cases hn : m.newsOf t = []
    · exact .inl hn
    · have hover : t.place = .over := by
        by_contra hp
        have hask : t.place.isAsking = true := by
          revert hq hp
          cases t.place <;> simp [TurnPlace.isQueued, TurnPlace.isAsking]
        obtain ⟨-, -, script, hm, -⟩ := ft.asking hask
        exact unheard script hm
      obtain ⟨cs, result, hns, ⟨script, hm, -⟩ | ⟨-, rfl, e, rfl⟩⟩ := ft.settled hover hn
      · exact absurd hm (unheard script)
      · rw [decide_eq_true hmeant] at hns
        exact .inr hns

/-- An interrupt that comes while an engine answers leaves the answer as it is. -/
theorem Attributed.late (a : m.Attributed A H) (h : m.Sound B none) (ht₀ : t₀ ∈ A) (hp₀ : t₀.place.isAsking = true)
    (ht : t ∈ m.turns) (hid : t.id = t₀.id) : ∃ script, (t.id, script) ∈ H ∧ (t.place = .over →
      ∃ cs : List Chunk, m.newsOf t = .started :: cs.map .chunk ++ [.interrupted (Engine.reply script).toOption]) := by
  have hasked : t.id ∈ m.asked := by
    rw [hid, a.reached t₀ ht₀, hp₀]
  have hmeant : t.id ∈ A.map Turn.id := hid ▸ List.mem_map_of_mem ht₀
  obtain ⟨v, -, -, ft⟩ := a.fair h ht
  obtain ⟨⟨id, script⟩, hm, rfl⟩ := List.mem_map.mp (a.heard ▸ hasked)
  by_cases hp : t.place = .over
  · have hn : m.newsOf t ≠ [] := by
      rw [h.newsOf_eq ht]
      exact (h.asked t.id hasked).2
    obtain ⟨cs, result, hns, ⟨script, hm, rfl⟩ | ⟨hno, -⟩⟩ := ft.settled hp hn
    · refine ⟨script, hm, fun _ => ⟨cs, ?_⟩⟩
      rw [hns, decide_eq_true hmeant]
      cases Engine.reply script <;> rfl
    · exact absurd hm (hno script)
  · exact ⟨script, hm, fun hp' => absurd hp' hp⟩

end Manager

/-- In every run an interrupt reaches the oldest turn of its session that has not ended, and no other one. -/
theorem interrupts_reach_oldest_turn (engines : List Engine) (history : Log.History)
    (startupTimeout promptLines : Nat) (moves : List Move) :
    let s := Scene.start engines history startupTimeout promptLines
    let m := (s.run moves).manager
    let meant := s.observe Scene.meant moves
    let heard := s.observe Scene.heard moves
    -- A session counts its turns that have not ended. Without one an interrupt changes nothing.
    (∀ v ∈ m.sessions, v.pending = (m.live v.id).length ∧ (v.interrupted = true → 0 < v.pending)) ∧
    (∀ id, m.live id = [] → (m.interrupt id).2 = m) ∧
    -- An interrupt that comes while an engine answers a turn uses the token of this turn and of no other.
    (∀ id t, (m.interrupt id).1 = .ok () → (m.live id).head? = some t → t.place.isAsking = true →
      (m.interrupt id).2.turns = m.turns.map fun u => if u.id = t.id then { u with cut := true } else u) ∧
    -- Until a session is closed, exactly the turns that interrupts were meant for are interrupted.
    (∀ t ∈ m.turns, ∀ v ∈ m.sessions, v.id = t.session → v.closed = false →
      (t.place.isAsking = true → (t.cut = true ↔ t.id ∈ meant.map Turn.id)) ∧
      (t.place = .over → ((∃ text, .interrupted text ∈ m.newsOf t) ↔ t.id ∈ meant.map Turn.id))) ∧
    -- If one came before the turn had the lock, no engine is asked and there is no text.
    (∀ t₀ ∈ meant, t₀.place.isAsking = false → ∀ t ∈ m.turns, t.id = t₀.id →
      t.id ∉ m.asked ∧ (∀ c, .chunk c ∉ m.newsOf t) ∧
      (t.place = .over → ∀ v ∈ m.sessions, v.id = t.session → v.closed = false →
        m.newsOf t = [.started, .interrupted none])) ∧
    -- Otherwise the text is what the engine answered.
    (∀ t₀ ∈ meant, t₀.place.isAsking = true → ∀ t ∈ m.turns, t.id = t₀.id →
      ∃ script, (t.id, script) ∈ heard ∧ (t.place = .over →
        ∃ cs : List Chunk, m.newsOf t = .started :: cs.map .chunk ++ [.interrupted (Engine.reply script).toOption])) := by
  intro s m meant heard
  obtain ⟨B, h⟩ : ∃ B, m.Sound B none := Scene.run_sound engines history startupTimeout promptLines moves
  have a : m.Attributed meant heard := Scene.run_attributed engines history startupTimeout promptLines moves
  refine ⟨fun v hv => ?_, fun id => a.interrupt_idle, fun id t => a.interrupt_turns, ?_, ?_, ?_⟩
  · have f := a.sessions v hv
    refine ⟨f.pending, fun hi => ?_⟩
    rw [f.pending]
    exact List.length_pos_iff.mpr (f.flagged hi)
  · intro t ht v hv hvt hc
    have ft := (a.sessions v hv).turns t (Manager.mem_turnsOf.mpr ⟨ht, hvt.symm⟩)
    refine ⟨fun hp => ?_, fun hp => a.ends_interrupted h ht hp (h.tells_end ht hp hv hvt hc)⟩
    rw [(ft.asking hp).2.1, hc]
    simp
  · intro t₀ ht₀ hp₀ t ht hid
    obtain ⟨hno, hnews⟩ := a.early h ht₀ hp₀ ht hid
    refine ⟨hno, fun c => ?_, fun hp v hv hvt hc => hnews.resolve_left (h.tells_end ht hp hv hvt hc)⟩
    rcases hnews with hnews | hnews <;> simp [hnews]
  · intro t₀ ht₀ hp₀ t ht hid
    exact a.late h ht₀ hp₀ ht hid

/-- The first interrupt stops the first turn, the second keeps the turn after it from the engine. -/
example :
    let engine : Engine :=
      { id := "mock", scripts := [⟨[.event (.answer "port taken"), .untilInterrupted], .ok ()⟩, .answer "see log"] }
    let s := Scene.start [engine] (.empty 10) 30000 50
    let moves := [.start "web" none, .complete 0, .message "s1" "why", .message "s1" "and now", .poll, .interrupt "s1",
      .poll, .poll, .poll, .interrupt "s1", .poll, .poll]
    (s.observe Scene.meant moves).map Turn.id = [0, 1] ∧ (s.run moves).manager.asked = [0, 2] := by
  decide +kernel

end StackDeck.Diagnosis
