import StackDeck.Proofs.Lifecycle.Situation

namespace StackDeck.Lifecycle.Machine

variable {β : Type} {m m' : Machine β} {olds : List (Task β)} {id epoch : Nat} {q : Situation} {es : List Signal}

/-! ### The newest task -/

theorem Holds.place_tasks (h : m.Holds olds id epoch) (p : Place β) :
    (m.place id epoch p).tasks = olds ++ [⟨id, epoch, p⟩] := by
  obtain ⟨t, ht, rfl⟩ := h.tasks
  exact Machine.place_tasks h.numbered ht epoch p

theorem Holds.arrives (h : m.Holds olds id epoch) {p : Place β}
    (ht : m'.tasks = olds ++ [⟨id, epoch, p⟩]) (he : m'.controller.epoch = epoch)
    {ns : List Notice} (hn : m'.notices = m.notices ++ ns) (hs : signals ns = es)
    (hz : es.countP (fun s => s = .starting ∨ s = .stopping) = 0) (hi : m'.In q) : m.Arrives es m' q := by
  obtain ⟨t, hmt, rfl⟩ := h.tasks
  have hnum : Numbered olds ∧ t.id = olds.length := numbered_concat.mp (hmt ▸ h.numbered)
  have hc := h.current
  refine ⟨⟨?_, ?_, ?_⟩, hi, ⟨ns, hn, hs⟩, by omega, ?_⟩
  · rw [ht]
    exact numbered_concat.mpr hnum
  · simp only [ht, List.map_append, List.map_cons, List.map_nil, List.pairwise_append]
    refine ⟨h.ascending, by simp, ?_⟩
    intro e hm f hf
    obtain ⟨u, hu, rfl⟩ := List.mem_map.mp hm
    rw [List.mem_singleton.mp hf]
    exact h.below u hu
  · intro e hl
    have hle : epoch = e := by simpa [ht] using hl
    exact hle.symm.trans he.symm
  · simp [hmt, ht]

section work

variable {id' epoch' : Nat} {d : Duty} {cancelled : Bool} {op : Operation β}

theorem Holds.work (h : m.Holds olds id epoch) : (m.work id' d epoch' cancelled op).Holds olds id epoch := by
  refine ⟨?_, ?_, ?_, h.ascending, h.below, h.others⟩
  · simpa using h.tasks
  · simpa using h.current
  · simpa using h.numbered

theorem Arrives.of_work (h : (m.work id' d epoch' cancelled op).Arrives es m' q) : m.Arrives es m' q := by
  obtain ⟨ps, hw⟩ := work_notices id' d epoch' cancelled op m
  obtain ⟨ns, hns, hs⟩ := h.told
  refine ⟨h.sound, h.inside, ⟨ps.map .progress ++ ns, ?_, ?_⟩, ?_, ?_⟩
  · rw [hns, hw, List.append_assoc]
  · rw [signals_append, signals_progress, hs, List.nil_append]
  · simpa using h.epoch
  · simpa using h.keeps

end work

/-- The end of the current operation brings the stack to rest. -/
theorem Holds.finish (h : m.Holds olds id epoch) (r : Except BackendError Unit) (success : Notice) {s : Signal}
    (hs : signals [verdict success r] = [s]) (hz : ¬ (s = .starting ∨ s = .stopping)) :
    m.Arrives [s] ((m.finish epoch r success).place id epoch .over) .rest := by
  rw [finish_current h.current]
  have ht : (({ m with controller := m.controller.rest r }.publish (verdict success r)).place id epoch
      .over).tasks = olds ++ [⟨id, epoch, .over⟩] := h.place_tasks .over
  refine h.arrives ht h.current rfl hs (by simp [hz]) ⟨?_, rfl, rfl, rfl⟩
  rw [ht]
  intro t hm
  rcases List.mem_append.mp hm with hm | hm
  · exact h.others t hm
  · rw [List.mem_singleton.mp hm]

/-- The newest task goes on with a boot. -/
theorem Holds.pollBoot (h : m.Holds olds id epoch) (hp : m.controller.phase = .starting)
    (hc : m.controller.cancel = some epoch) (hb : m.controller.bootTask = some id)
    (again : Bool) (op : Operation β) :
    m.Advances (.booting again) [] (m.pollBoot id epoch epoch op) := by
  rcases op.poll_ended_or_underway m.now (m.cancelled.contains epoch) m.world with ⟨r, hr⟩ | hu
  · rw [pollBoot_ended hr]
    cases r with
    | ok _ =>
      exact ⟨[.started], .rest, (Situation.Step.started again).steps,
        (h.work.finish (.ok ()) .started rfl (by decide)).of_work⟩
    | error e =>
      exact ⟨[.failed], .rest, (Situation.Step.bootFailed again).steps,
        (h.work.finish (.error e) .started rfl (by decide)).of_work⟩
  · rw [pollBoot_underway rfl hu]
    have hw : (m.work id .boot epoch (m.cancelled.contains epoch) op).Holds olds id epoch := h.work
    have ht := hw.place_tasks (.boot epoch (op.poll m.now (m.cancelled.contains epoch) m.world).2.2)
    have he := h.current
    refine ⟨[], .booting again, .refl _, (hw.arrives ht hw.current (List.append_nil _).symm rfl rfl ?_).of_work⟩
    exact ⟨olds, _, _, ht, h.others, by rw [place_controller, work_epoch, he],
      by rw [place_controller, work_phase, hp], by rw [place_controller, work_cancel, work_epoch, hc, he],
      by rw [place_controller, work_bootTask, hb]⟩

/-- The newest task goes on with a teardown. A restart's teardown is followed by a boot in the same step. -/
theorem Holds.afterTeardown (h : m.Holds olds id epoch) {thenBoot : Bool} (hq : q.TearsDown thenBoot)
    (hb : thenBoot = true → m.controller.bootTask = some id) (r : Except BackendError Unit) :
    m.Advances q [] (m.afterTeardown id epoch r thenBoot) := by
  cases r with
  | error e =>
    rw [afterTeardown_failed]
    exact ⟨[.failed], .rest, (Situation.Step.teardownFailed hq).steps,
      h.finish (.error e) .stopped rfl (by decide)⟩
  | ok _ =>
    cases thenBoot with
    | false =>
      rw [afterTeardown_last]
      exact ⟨[.stopped], .rest, (Situation.Step.stopped hq).steps, h.finish (.ok ()) .stopped rfl (by decide)⟩
    | true =>
      cases hq
      rw [afterTeardown_boot h.current]
      have hs : ({ m with controller := m.controller.startBoot }.publish .starting).Holds olds id (epoch + 1) :=
        ⟨h.tasks, by rw [← h.current]; rfl, h.numbered, h.ascending,
          fun t ht => Nat.lt_succ_of_lt (h.below t ht), h.others⟩
      obtain ⟨es, q, steps, arr⟩ := hs.pollBoot rfl (by rw [← h.current]; rfl) (hb rfl) true (.fresh m.backend.boot)
      obtain ⟨ns, hns, hes⟩ := arr.told
      refine ⟨.starting :: es, q, by simpa using Situation.Steps.next .boot steps, arr.sound, arr.inside,
        ⟨.starting :: ns, ?_, ?_⟩, ?_, arr.keeps⟩
      · rw [hns]
        simp [publish]
      · rw [← hes]
        rfl
      · rw [arr.epoch, List.countP_cons_of_pos (by decide)]
        have : (m.controller.startBoot).epoch = m.controller.epoch + 1 := rfl
        show m.controller.startBoot.epoch + _ = _
        omega

theorem Holds.pollTeardown (h : m.Holds olds id epoch) {thenBoot : Bool} (hq : q.TearsDown thenBoot)
    (hp : m.controller.phase = .stopping) (hc : m.controller.cancel = none)
    (hb : m.controller.bootTask = if thenBoot then some id else none) (deadline : Option Nat)
    (op : Operation β) : m.Advances q [] (m.pollTeardown id epoch deadline op thenBoot) := by
  have hw : (m.work id .teardown epoch false op).Holds olds id epoch := h.work
  have after (r : Except BackendError Unit) :
      m.Advances q [] ((m.work id .teardown epoch false op).afterTeardown id epoch r thenBoot) := by
    obtain ⟨es, q', steps, arr⟩ := hw.afterTeardown hq (fun hb' => by simp [hb, hb']) r
    exact ⟨es, q', steps, arr.of_work⟩
  rcases op.poll_ended_or_underway m.now false m.world with ⟨r, hr⟩ | hu
  · rw [pollTeardown_ended hr]
    exact after r
  · by_cases hd : deadline.getD (m.now + m.teardownTimeout) ≤ m.now
    · rw [pollTeardown_late rfl hu hd]
      exact after _
    · rw [pollTeardown_underway rfl hu hd]
      have ht := hw.place_tasks (.teardown (some (deadline.getD (m.now + m.teardownTimeout)))
        (op.poll m.now false m.world).2.2 thenBoot)
      refine ⟨[], q, .refl _, (hw.arrives ht hw.current (List.append_nil _).symm rfl rfl ?_).of_work⟩
      rw [in_of_tearsDown hq]
      exact ⟨olds, _, _, _, ht, h.others, rfl, by rw [place_controller, work_phase, hp],
        by rw [place_controller, work_cancel, hc], by rw [place_controller, work_bootTask, hb]⟩

/-! ### Every task -/

/-- Nothing has happened that a situation depends on. -/
theorem Advances.stay (h : m.Sound) (hi : m.In q) : m.Advances q [] m :=
  ⟨[], q, .refl _, h, hi, ⟨[], (List.append_nil _).symm, rfl⟩, rfl, List.dropLast_prefix _⟩

theorem Arrives.of_same {m₀ : Machine β} (h : m₀.Arrives es m' q) (hn : m₀.notices = m.notices)
    (he : m₀.controller.epoch = m.controller.epoch) (ht : m₀.tasks.map Task.epoch = m.tasks.map Task.epoch) :
    m.Arrives es m' q :=
  ⟨h.sound, h.inside, hn ▸ h.told, he ▸ h.epoch, ht ▸ h.keeps⟩

theorem Sound.of_same (h : m.Sound) (hi : m'.tasks.map Task.id = m.tasks.map Task.id)
    (ht : m'.tasks.map Task.epoch = m.tasks.map Task.epoch)
    (he : m'.controller.epoch = m.controller.epoch) : m'.Sound := by
  have hl : m'.tasks.length = m.tasks.length := by simpa using congrArg List.length hi
  refine ⟨?_, ht ▸ h.ascending, fun e hm => (h.newest e (ht ▸ hm)).trans he.symm⟩
  rw [Numbered, hi, hl]
  exact h.numbered

/-- The task of a cancel goes on: it waits for the boot, or drops it when the grace is over. -/
theorem Sound.pollAwait (h : m.Sound) {b t : Task β} (ht : m.tasks = olds ++ [b, t]) (ho : AllOver olds)
    (hb : b.place = .over ∨ ∃ token op, b.place = .boot token op) (hp : m.controller.phase = .stopping)
    (hc : m.controller.cancel = none) (hbt : m.controller.bootTask = none) (again : Bool)
    (deadline : Option Nat) : m.Advances (.awaiting again) [] (m.pollAwait t.id t.epoch b.id deadline) := by
  have hbm : b ∈ m.tasks := by simp [ht]
  have revert {m₀ : Machine β} (hm : m₀.Holds (olds ++ [{ b with place := .over }]) t.id t.epoch)
      (hs : m₀.controller = m.controller) (hn : m₀.notices = m.notices)
      (hk : m₀.tasks.map Task.epoch = m.tasks.map Task.epoch) :
      m.Advances (.awaiting again) [] (m₀.pollTeardown t.id t.epoch none (.fresh m.backend.teardown) false) := by
    obtain ⟨es, q, steps, arr⟩ := hm.pollTeardown (.reverting again) (hs ▸ hp) (hs ▸ hc) (hs ▸ hbt) none
      (.fresh m.backend.teardown)
    exact ⟨es, q, .next (.revert again) steps, arr.of_same hn (by rw [hs]) hk⟩
  have hoO : AllOver (olds ++ [{ b with place := .over }]) := by
    intro u hu
    rcases List.mem_append.mp hu with hu | hu
    · exact ho u hu
    · rw [List.mem_singleton.mp hu]
  have hb' := isOver_of_mem h.numbered hbm
  by_cases ended : b.isOver = true
  · rw [pollAwait_over (hb'.trans ended)]
    have hbe : { b with place := .over } = b := by rw [← Task.isOver_iff.mp ended]
    refine revert (h.holds ?_ hoO) rfl rfl rfl
    rw [hbe, ht, List.append_assoc]
    rfl
  · have hf : m.isOver b.id = false := by simpa [ended] using hb'
    by_cases late : deadline.getD (m.now + cancelGrace) ≤ m.now
    · rw [pollAwait_late hf late]
      have hta : (m.abort b.id).tasks = olds ++ { b with place := .over } :: [t] := abort_tasks h.numbered ht
      have hk : (m.abort b.id).tasks.map Task.epoch = m.tasks.map Task.epoch := by simp [hta, ht]
      have hsa : (m.abort b.id).Sound := h.of_same (by simp [hta, ht]) hk rfl
      exact revert (hsa.holds (by rw [hta, List.append_assoc]; rfl) hoO) rfl rfl hk
    · rw [pollAwait_waits hf late]
      have hpt : m.tasks = (olds ++ [b]) ++ t :: [] := by simp [ht]
      have htp := Machine.place_tasks h.numbered hpt t.epoch
        (.await b.id (some (deadline.getD (m.now + cancelGrace))))
      refine ⟨[], .awaiting again, .refl _, h.of_same ?_ ?_ rfl, ?_, ⟨[], (List.append_nil _).symm, rfl⟩, rfl, ?_⟩
      · simp [htp, ht]
      · simp [htp, ht]
      · exact ⟨olds, b, _, _, by rw [htp, List.append_assoc]; rfl, ho, hb, rfl, hp, hc, hbt⟩
      · rw [htp, ht]
        simp

/-- A cancelled boot that goes on changes its world and its own place, and nothing else. -/
theorem Sound.pollCancelled (h : m.Sound) {b t : Task β} (ht : m.tasks = olds ++ [b, t]) (token : Nat)
    (op : Operation β) : ∃ p, (m.pollBoot b.id b.epoch token op).tasks = olds ++ [⟨b.id, b.epoch, p⟩, t] ∧
      (p = .over ∨ ∃ op', p = .boot token op') ∧
      (m.pollBoot b.id b.epoch token op).controller = m.controller ∧
      (m.pollBoot b.id b.epoch token op).notices = m.notices := by
  have ha := h.ascending
  simp only [ht, List.map_append, List.map_cons, List.map_nil, List.pairwise_append, List.pairwise_cons] at ha
  have hlt : b.epoch < t.epoch := ha.2.1.1 t.epoch (by simp)
  have he := h.newest t.epoch (by simp [ht])
  have hne : m.controller.epoch ≠ b.epoch := by omega
  obtain ⟨hwc, hwn⟩ := work_superseded b.id .boot b.epoch (m.cancelled.contains token) op m hne
  have hwt (p : Place β) : ((m.work b.id .boot b.epoch (m.cancelled.contains token) op).place b.id b.epoch p).tasks =
      olds ++ ⟨b.id, b.epoch, p⟩ :: [t] :=
    Machine.place_tasks (by simpa using h.numbered) (by simpa using ht) b.epoch p
  rcases op.poll_ended_or_underway m.now (m.cancelled.contains token) m.world with ⟨r, hr⟩ | hu
  · rw [pollBoot_ended hr, finish_superseded (by rw [hwc]; exact hne)]
    exact ⟨.over, hwt .over, .inl rfl, hwc, hwn⟩
  · rw [pollBoot_underway rfl hu]
    exact ⟨_, hwt _, .inr ⟨_, rfl⟩, hwc, hwn⟩

theorem poll_of_mem (h : m.Sound) {t : Task β} (ht : t ∈ m.tasks) :
    m.poll t.id = match t.place with
      | .boot token op => m.pollBoot t.id t.epoch token op
      | .teardown deadline op thenBoot => m.pollTeardown t.id t.epoch deadline op thenBoot
      | .await target deadline => m.pollAwait t.id t.epoch target deadline
      | .over => m := by
  have hf := task?_of_mem h.numbered ht
  cases hp : t.place <;> simp [poll, hf, hp]

/-- Whichever task goes on, the machine comes to a next situation. -/
theorem Sound.poll (h : m.Sound) (hi : m.In q) (id : Nat) : m.Advances q [] (m.poll id) := by
  cases hf : m.task? id with
  | none =>
    rw [poll_of_isOver (by simp [isOver, hf])]
    exact .stay h hi
  | some t =>
    obtain ⟨hm, rfl⟩ := mem_of_task? hf
    by_cases ended : t.place = .over
    · rw [poll_of_mem h hm, ended]
      exact .stay h hi
    · have hold {us : List (Task β)} (ho : AllOver us) : t ∉ us := fun ht => ended (ho t ht)
      have down {b : Bool} (hq : q.TearsDown b) : m.Advances q [] (m.poll t.id) := by
        obtain ⟨olds, u, d, op, ht, ho, hpl, hp, hc, hbt⟩ := (in_of_tearsDown hq).mp hi
        have htu : t = u := by simpa [ht, hold ho] using hm
        subst htu
        rw [poll_of_mem h hm, hpl]
        exact (h.holds ht ho).pollTeardown hq hp hc hbt d op
      cases q with
      | rest => exact absurd (hi.1 t hm) ended
      | stopping => exact down .stopping
      | restarting => exact down .restarting
      | reverting again => exact down (.reverting again)
      | booting again =>
        obtain ⟨olds, u, op, ht, ho, hpl, hp, hc, hbt⟩ := hi
        have htu : t = u := by simpa [ht, hold ho] using hm
        subst htu
        have hh := h.holds ht ho
        rw [poll_of_mem h hm, hpl, hh.current]
        exact hh.pollBoot hp (hh.current ▸ hc) hbt again op
      | awaiting again =>
        obtain ⟨olds, b, u, d, ht, ho, hb, hpl, hp, hc, hbt⟩ := hi
        have htu : t = b ∨ t = u := by simpa [ht, hold ho] using hm
        rcases htu with rfl | rfl
        · obtain ⟨token, op, hpb⟩ := hb.resolve_left ended
          rw [poll_of_mem h hm, hpb]
          obtain ⟨p, hpt, hpp, hpc, hpn⟩ := h.pollCancelled ht token op
          refine ⟨[], .awaiting again, .refl _, h.of_same (by simp [hpt, ht]) (by simp [hpt, ht]) (by rw [hpc]), ?_,
            ⟨[], by rw [hpn, List.append_nil], rfl⟩, by rw [hpc]; rfl, by rw [hpt, ht]; simp⟩
          refine ⟨olds, _, u, d, hpt, ho, ?_, hpl, hpc ▸ hp, hpc ▸ hc, hpc ▸ hbt⟩
          rcases hpp with hpp | ⟨op', ho'⟩
          · exact .inl hpp
          · exact .inr ⟨token, op', ho'⟩
        · rw [poll_of_mem h hm, hpl]
          exact h.pollAwait ht ho hb hp hc hbt again d

/-! ### Calls -/

theorem Sound.spawns (h : m.Sound) {p : Place β} {s : Signal} {n : Notice}
    (ht : m'.tasks = m.tasks ++ [⟨m.tasks.length, m.controller.epoch + 1, p⟩])
    (he : m'.controller.epoch = m.controller.epoch + 1) (hn : m'.notices = m.notices ++ [n])
    (hs : signals [n] = [s]) (hz : s = .starting ∨ s = .stopping) (hi : m'.In q) : m.Arrives [s] m' q := by
  refine ⟨⟨?_, ?_, ?_⟩, hi, ⟨[n], hn, hs⟩, by simp [he, hz], ?_⟩
  · rw [ht]
    exact numbered_concat.mpr ⟨h.numbered, rfl⟩
  · simp only [ht, List.map_append, List.map_cons, List.map_nil, List.pairwise_append]
    refine ⟨h.ascending, by simp, ?_⟩
    intro e hm f hf
    obtain ⟨t, htm, rfl⟩ := List.mem_map.mp hm
    have hle := h.le htm
    rw [List.mem_singleton.mp hf]
    omega
  · intro e hl
    rw [he]
    simpa [ht, eq_comm] using hl
  · rw [ht, List.map_append]
    exact (List.dropLast_prefix _).trans (List.prefix_append _ _)

theorem Sound.down (h : m.Sound) (hi : m.In q) : m.Advances q (accepted .down m.down.1) m.down.2 := by
  rcases hi.ensureIdle with ⟨rfl, he⟩ | ⟨e, he⟩
  · simp only [Machine.down, he]
    exact ⟨[.stopping], .stopping, Situation.Step.down.steps, h.spawns rfl rfl rfl rfl (.inr rfl)
      ⟨m.tasks, _, none, _, rfl, hi.1, rfl, rfl, rfl, rfl⟩⟩
  · simp only [Machine.down, he]
    exact .stay h hi

theorem Sound.restart (h : m.Sound) (hi : m.In q) : m.Advances q (accepted .restart m.restart.1) m.restart.2 := by
  rcases hi.ensureIdle with ⟨rfl, he⟩ | ⟨e, he⟩
  · simp only [Machine.restart, he]
    exact ⟨[.stopping], .restarting, Situation.Step.restart.steps, h.spawns rfl rfl rfl rfl (.inr rfl)
      ⟨m.tasks, _, none, _, rfl, hi.1, rfl, rfl, rfl, rfl⟩⟩
  · simp only [Machine.restart, he]
    exact .stay h hi

theorem Sound.beginBoot (h : m.Sound) (hi : m.In q) (running : Nat) :
    m.Advances q (accepted .up (m.beginBoot running).1) (m.beginBoot running).2 := by
  rcases hi.ensureIdle with ⟨rfl, he⟩ | ⟨e, he⟩
  · by_cases hr : 0 < running
    · simp only [Machine.beginBoot, he, hr, if_true]
      exact .stay h hi
    · simp only [Machine.beginBoot, he, hr, if_false]
      exact ⟨[.starting], .booting false, Situation.Step.up.steps, h.spawns rfl rfl rfl rfl (.inl rfl)
        ⟨m.tasks, _, _, rfl, hi.1, rfl, rfl, rfl, rfl⟩⟩
  · simp only [Machine.beginBoot, he]
    exact .stay h hi

/-- A cancel is accepted in a boot alone, and always finds the task to wait for. -/
theorem Sound.cancel (h : m.Sound) (hi : m.In q) : m.Advances q (accepted .cancel m.cancel.1) m.cancel.2 := by
  have hp := hi.phase
  cases q with
  | booting again =>
    obtain ⟨olds, t, op, ht, ho, hpl, _, _, hbt⟩ := hi
    simp only [Machine.cancel, hp, Situation.phase, hbt]
    refine ⟨[.stopping], .awaiting again, (Situation.Step.cancel again).steps,
      h.spawns rfl rfl rfl rfl (.inr rfl) ⟨olds, t, ⟨m.tasks.length, m.controller.epoch + 1, .await t.id none⟩, none,
        ?_, ho, .inr ⟨_, _, hpl⟩, rfl, rfl, rfl, rfl⟩⟩
    simp only [spawn, publish, ht, List.append_assoc]
    rfl
  | rest | awaiting again | stopping | restarting | reverting again =>
    simp only [Machine.cancel, hp, Situation.phase]
    exact .stay h hi

theorem Sound.attend (h : m.Sound) (hi : m.In q) (v : Visit β) :
    match m.attend v with
    | (.waiting _, m') => m.Advances q [] m'
    | (.answered r, m') => m.Advances q (v.accepted r) m' := by
  cases v with
  | asking => exact .stay h hi
  | counted running => exact h.beginBoot hi running
  | acting name a op =>
    have same {m' : Machine β} {n : List Notice} (ht : m'.tasks = m.tasks) (hc : m'.controller = m.controller)
        (hn : m'.notices = m.notices ++ n) (hs : signals n = []) : m.Advances q [] m' := by
      have hi' : m'.In q := by
        cases q <;> simpa only [Machine.In, Machine.TearsDown, ht, hc] using hi
      refine ⟨[], q, .refl _, h.of_same (by rw [ht]) (by rw [ht]) (by rw [hc]), hi', ⟨n, hn, hs⟩, by rw [hc]; rfl, ?_⟩
      rw [ht]
      exact List.dropLast_prefix _
    simp only [Machine.attend]
    cases (op.poll m.now false m.world).2.2 with
    | ended r => exact same rfl rfl rfl rfl
    | fresh _ | asleep _ _ _ | held => exact same rfl rfl (List.append_nil _).symm rfl

end StackDeck.Lifecycle.Machine
