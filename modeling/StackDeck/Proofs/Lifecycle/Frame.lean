import StackDeck.Proofs.Lifecycle.Step

namespace StackDeck.Lifecycle

variable {β : Type}

namespace Machine

variable {m m' m'' : Machine β} {id epoch : Nat}

/-- Only one task goes on: the others stay as they are, and what the backend is asked for is asked by it. -/
structure Frame (id : Nat) (m m' : Machine β) : Prop where
  ids : m'.tasks.map Task.id = m.tasks.map Task.id
  others : ∀ k, k ≠ id → m'.tasks[k]? = m.tasks[k]?
  asked : ∃ xs, m'.asked = m.asked ++ xs ∧ ∀ x ∈ xs, x.1 = id
  now : m'.now = m.now

theorem Frame.of_same (ht : m'.tasks = m.tasks) (ha : m'.asked = m.asked) (hn : m'.now = m.now) :
    Frame id m m' :=
  ⟨by rw [ht], fun k _ => by rw [ht], ⟨[], by rw [ha, List.append_nil], by simp⟩, hn⟩

theorem Frame.trans (h : Frame id m m') (h' : Frame id m' m'') : Frame id m m'' := by
  obtain ⟨xs, hx, hxs⟩ := h.asked
  obtain ⟨ys, hy, hys⟩ := h'.asked
  refine ⟨h'.ids.trans h.ids, fun k hk => (h'.others k hk).trans (h.others k hk), ⟨xs ++ ys, ?_, ?_⟩,
    h'.now.trans h.now⟩
  · rw [hy, hx, List.append_assoc]
  · intro x hm
    exact (List.mem_append.mp hm).elim (hxs x) (hys x)

theorem Frame.numbered (h : Frame id m m') (hn : Numbered m.tasks) : Numbered m'.tasks := by
  have hl : m'.tasks.length = m.tasks.length := by simpa using congrArg List.length h.ids
  rw [Numbered, h.ids, hl]
  exact hn

theorem map_other (hn : Numbered m.tasks) (f : Task β → Task β) {k : Nat} (hk : k ≠ id) :
    (m.tasks.map fun t => if t.id == id then f t else t)[k]? = m.tasks[k]? := by
  rw [List.getElem?_map]
  cases ht : m.tasks[k]? with
  | none => rfl
  | some t =>
    have he : t.id ≠ id := by
      rw [hn.id_eq ht]
      exact hk
    simp [he]

theorem map_ids (f : Task β → Task β) (hf : ∀ t, (f t).id = t.id) :
    (m.tasks.map fun t => if t.id == id then f t else t).map Task.id = m.tasks.map Task.id := by
  rw [List.map_map]
  refine List.map_congr_left fun t _ => ?_
  simp only [Function.comp_apply]
  split
  · exact hf t
  · rfl

theorem frame_place (hn : Numbered m.tasks) (p : Place β) : Frame id m (m.place id epoch p) :=
  ⟨map_ids _ fun _ => rfl, fun _ hk => map_other hn _ hk, ⟨[], (List.append_nil _).symm, by simp⟩, rfl⟩

theorem frame_work (d : Duty) (cancelled : Bool) (op : Operation β) :
    Frame id m (m.work id d epoch cancelled op) := by
  refine ⟨by simp, by simp, ⟨asks id d op, work_asked .., ?_⟩, work_now ..⟩
  intro x hx
  cases op with
  | fresh s => rw [List.mem_singleton.mp hx]
  | asleep _ _ _ | held | ended _ => cases hx

theorem frame_finish (r : Except BackendError Unit) (success : Notice) :
    Frame id m (m.finish epoch r success) := by
  by_cases h : m.controller.epoch = epoch
  · rw [finish_current h]
    exact .of_same rfl rfl rfl
  · rw [finish_superseded h]
    exact .of_same rfl rfl rfl

theorem frame_over (hn : Numbered m.tasks) (r : Except BackendError Unit) (success : Notice) :
    Frame id m ((m.finish epoch r success).place id epoch .over) := by
  have hf : Frame id m (m.finish epoch r success) := frame_finish r success
  exact hf.trans (frame_place (hf.numbered hn) .over)

theorem frame_pollBoot (hn : Numbered m.tasks) (token : Nat) (op : Operation β) :
    Frame id m (m.pollBoot id epoch token op) := by
  have hw : Frame id m (m.work id .boot epoch (m.cancelled.contains token) op) := frame_work ..
  rcases op.poll_ended_or_underway m.now (m.cancelled.contains token) m.world with ⟨r, hr⟩ | hu
  · rw [pollBoot_ended hr]
    exact hw.trans (frame_over (hw.numbered hn) r .started)
  · rw [pollBoot_underway rfl hu]
    exact hw.trans (frame_place (hw.numbered hn) _)

theorem frame_afterTeardown (hn : Numbered m.tasks) (r : Except BackendError Unit) (thenBoot : Bool) :
    Frame id m (m.afterTeardown id epoch r thenBoot) := by
  cases r with
  | error e =>
    rw [afterTeardown_failed]
    exact frame_over hn _ _
  | ok _ =>
    cases thenBoot with
    | false =>
      rw [afterTeardown_last]
      exact frame_over hn _ _
    | true =>
      by_cases h : m.controller.epoch = epoch
      · rw [afterTeardown_boot h]
        have hs : Frame id m ({ m with controller := m.controller.startBoot }.publish .starting) :=
          .of_same rfl rfl rfl
        exact hs.trans (frame_pollBoot (hs.numbered hn) _ _)
      · rw [afterTeardown_superseded h]
        exact frame_place hn .over

theorem frame_pollTeardown (hn : Numbered m.tasks) (deadline : Option Nat) (op : Operation β) (thenBoot : Bool) :
    Frame id m (m.pollTeardown id epoch deadline op thenBoot) := by
  have hw : Frame id m (m.work id .teardown epoch false op) := frame_work ..
  rcases op.poll_ended_or_underway m.now false m.world with ⟨r, hr⟩ | hu
  · rw [pollTeardown_ended hr]
    exact hw.trans (frame_afterTeardown (hw.numbered hn) r thenBoot)
  · by_cases hd : deadline.getD (m.now + m.teardownTimeout) ≤ m.now
    · rw [pollTeardown_late rfl hu hd]
      exact hw.trans (frame_afterTeardown (hw.numbered hn) _ thenBoot)
    · rw [pollTeardown_underway rfl hu hd]
      exact hw.trans (frame_place (hw.numbered hn) _)

/-! ### Calls -/

/-- A call takes up an operation: it leaves the work to a new task and asks the backend for nothing yet. -/
structure Spawns (m m' : Machine β) : Prop where
  backend : m'.backend = m.backend
  world : m'.world = m.world
  asked : m'.asked = m.asked
  now : m'.now = m.now
  tasks : ∃ epoch p, m'.tasks = m.tasks ++ [⟨m.nextTask, epoch, p⟩] ∧
    ((∃ token, p = .boot token (.fresh m.backend.boot)) ∨
      (∃ thenBoot, p = .teardown none (.fresh m.backend.teardown) thenBoot) ∨ ∃ b, p = .await b none)
  notices : ∃ n, m'.notices = m.notices ++ [n] ∧ (n = .starting ∨ n = .stopping)

theorem beginBoot_spawns (running : Nat) : (m.beginBoot running).2 = m ∨ m.Spawns (m.beginBoot running).2 := by
  unfold beginBoot
  cases m.controller.ensureIdle with
  | error e => exact .inl rfl
  | ok _ =>
    by_cases h : 0 < running
    · simp [h]
    · simp only [h, if_false]
      exact .inr ⟨rfl, rfl, rfl, rfl, ⟨_, _, rfl, .inl ⟨_, rfl⟩⟩, .starting, rfl, .inl rfl⟩

theorem down_spawns : m.down.2 = m ∨ m.Spawns m.down.2 := by
  unfold down
  cases m.controller.ensureIdle with
  | error e => exact .inl rfl
  | ok _ => exact .inr ⟨rfl, rfl, rfl, rfl, ⟨_, _, rfl, .inr (.inl ⟨_, rfl⟩)⟩, .stopping, rfl, .inr rfl⟩

theorem restart_spawns : m.restart.2 = m ∨ m.Spawns m.restart.2 := by
  unfold restart
  cases m.controller.ensureIdle with
  | error e => exact .inl rfl
  | ok _ => exact .inr ⟨rfl, rfl, rfl, rfl, ⟨_, _, rfl, .inr (.inl ⟨_, rfl⟩)⟩, .stopping, rfl, .inr rfl⟩

theorem cancel_spawns : m.cancel.2 = m ∨ m.Spawns m.cancel.2 := by
  unfold cancel
  cases m.controller.phase with
  | idle | stopping => exact .inl rfl
  | starting =>
    cases m.controller.bootTask with
    | none => exact .inr ⟨rfl, rfl, rfl, rfl, ⟨_, _, rfl, .inr (.inl ⟨_, rfl⟩)⟩, .stopping, rfl, .inr rfl⟩
    | some b => exact .inr ⟨rfl, rfl, rfl, rfl, ⟨_, _, rfl, .inr (.inr ⟨_, rfl⟩)⟩, .stopping, rfl, .inr rfl⟩

/-- No task goes on. There may be new ones, and time may have passed. -/
structure Still (m m' : Machine β) : Prop where
  tasks : m.tasks <+: m'.tasks
  asked : m'.asked = m.asked
  now : m.now ≤ m'.now

theorem Still.refl (m : Machine β) : m.Still m := ⟨List.prefix_refl _, rfl, Nat.le_refl _⟩

theorem Spawns.still (h : m.Spawns m') : m.Still m' := by
  obtain ⟨_, _, ht, _⟩ := h.tasks
  exact ⟨ht ▸ List.prefix_append _ _, h.asked, Nat.le_of_eq h.now.symm⟩

theorem still_of_spawns (h : m' = m ∨ m.Spawns m') : m.Still m' := by
  rcases h with rfl | h
  · exact .refl m'
  · exact h.still

theorem attend_still (v : Visit β) : m.Still (m.attend v).2 := by
  cases v with
  | asking => exact .refl m
  | counted running => exact still_of_spawns (beginBoot_spawns running)
  | acting name a op =>
    simp only [Machine.attend]
    cases (op.poll m.now false m.world).2.2 <;> exact ⟨List.prefix_refl _, rfl, Nat.le_refl _⟩

end Machine

namespace Scene

variable {s : Scene β}

/-- A call goes on with the machine alone. -/
theorem attend_eq {k : Nat} {v : Visit β} (hv : s.visits[k]? = some v) :
    (s.attend k).machine = (s.machine.attend v).2 ∧ (s.attend k).visits =
      match (s.machine.attend v).1 with
      | .waiting v => s.visits.set k v
      | .answered _ => s.visits.eraseIdx k := by
  simp only [attend, hv]
  split <;> simp_all [become]

theorem move_still {mv : Move β} (h : ∀ id, mv ≠ .poll id) : s.machine.Still (s.move mv).machine := by
  cases mv with
  | arrive r =>
    simp only [move]
    cases s.machine.arrive r <;> exact .refl _
  | attend k =>
    cases hv : s.visits[k]? with
    | none =>
      simp only [move, attend, hv]
      exact .refl _
    | some v =>
      simp only [move, (attend_eq hv).1]
      exact Machine.attend_still v
  | leave k => exact .refl _
  | down => exact Machine.still_of_spawns Machine.down_spawns
  | restart => exact Machine.still_of_spawns Machine.restart_spawns
  | cancel => exact Machine.still_of_spawns Machine.cancel_spawns
  | poll id => exact absurd rfl (h id)
  | pass ms => exact ⟨List.prefix_refl _, rfl, Nat.le_add_right _ _⟩
  | touch f => exact ⟨List.prefix_refl _, rfl, Nat.le_refl _⟩

end Scene

end StackDeck.Lifecycle
