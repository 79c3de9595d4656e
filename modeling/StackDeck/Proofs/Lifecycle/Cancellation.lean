import StackDeck.Proofs.Lifecycle.Chronicle
import StackDeck.Proofs.Lifecycle.Frame

/-!
What a cancel brings about. Its task waits until the boot is over, or until the grace is, and then asks the
backend once to tear the stack down.
-/

namespace StackDeck.Lifecycle

variable {β : Type}

/-- A task is over, or goes on with a teardown that no boot follows. -/
def Place.WindsDown : Place β → Prop
  | .over => True
  | .teardown _ op thenBoot => op.isUnderway ∧ thenBoot = false
  | _ => False

namespace Machine

variable {m₀ m m' : Machine β} {b id epoch : Nat} {q : Situation}

/-! ### The asked operations -/

theorem finish_asked (r : Except BackendError Unit) (success : Notice) :
    (m.finish epoch r success).asked = m.asked := by
  unfold finish
  split <;> rfl

theorem finish_tasks (r : Except BackendError Unit) (success : Notice) :
    (m.finish epoch r success).tasks = m.tasks := by
  unfold finish
  split <;> rfl

theorem pollBoot_asked (token : Nat) (op : Operation β) :
    (m.pollBoot id epoch token op).asked = m.asked ++ asks id .boot op := by
  rcases op.poll_ended_or_underway m.now (m.cancelled.contains token) m.world with ⟨r, hr⟩ | hu
  · rw [pollBoot_ended hr, place_asked, finish_asked, work_asked]
  · rw [pollBoot_underway rfl hu, place_asked, work_asked]

theorem place_self (hn : Numbered m.tasks) (h : id < m.tasks.length) (p : Place β) :
    (m.place id epoch p).tasks[id]? = some ⟨id, epoch, p⟩ := by
  have ht : m.tasks[id]? = some m.tasks[id] := List.getElem?_eq_getElem h
  have hid : m.tasks[id].id = id := hn.id_eq ht
  simp only [place, List.getElem?_map, ht, Option.map_some]
  simp [hid]

theorem afterTeardown_over (hn : Numbered m.tasks) (h : id < m.tasks.length) (r : Except BackendError Unit) :
    (m.afterTeardown id epoch r false).asked = m.asked ∧
      ∃ t, (m.afterTeardown id epoch r false).tasks[id]? = some t ∧ t.place = .over := by
  rw [afterTeardown_last]
  refine ⟨by rw [place_asked, finish_asked], _, place_self ?_ ?_ .over, rfl⟩
  · rw [finish_tasks]
    exact hn
  · rw [finish_tasks]
    exact h

/-- A teardown that no boot follows goes on or is over, and asks for no more than itself. -/
theorem pollTeardown_windsDown (epoch : Nat) (hn : Numbered m.tasks) (h : id < m.tasks.length)
    (deadline : Option Nat) (op : Operation β) :
    (m.pollTeardown id epoch deadline op false).asked = m.asked ++ asks id .teardown op ∧
      ∃ t, (m.pollTeardown id epoch deadline op false).tasks[id]? = some t ∧ t.place.WindsDown := by
  have hwn : Numbered (m.work id .teardown epoch false op).tasks := by simpa using hn
  have hwl : id < (m.work id .teardown epoch false op).tasks.length := by simpa using h
  have last (r : Except BackendError Unit) :
      ((m.work id .teardown epoch false op).afterTeardown id epoch r false).asked =
          m.asked ++ asks id .teardown op ∧
        ∃ t, ((m.work id .teardown epoch false op).afterTeardown id epoch r false).tasks[id]? = some t ∧
          t.place.WindsDown := by
    obtain ⟨ha, t, ht, hp⟩ := afterTeardown_over hwn hwl r
    refine ⟨by rw [ha, work_asked], t, ht, ?_⟩
    rw [hp]
    exact trivial
  rcases op.poll_ended_or_underway m.now false m.world with ⟨r, hr⟩ | hu
  · rw [pollTeardown_ended hr]
    exact last r
  · by_cases hd : deadline.getD (m.now + m.teardownTimeout) ≤ m.now
    · rw [pollTeardown_late rfl hu hd]
      exact last _
    · rw [pollTeardown_underway rfl hu hd]
      exact ⟨by rw [place_asked, work_asked], _, place_self hwn hwl _, hu, rfl⟩

/-! ### The two halves of a cancel -/

/-- The task of a cancel accepted in `m₀` waits for the boot `b`, and since then only that boot was asked for. -/
structure Waits (m₀ : Machine β) (b : Nat) (m : Machine β) : Prop where
  place : ∃ t due, m.tasks[m₀.nextTask]? = some t ∧ t.place = .await b due ∧
    ∀ d, due = some d → m₀.now + cancelGrace ≤ d
  asked : ∃ xs, m.asked = m₀.asked ++ xs ∧ ∀ x ∈ xs, x = (b, .boot)
  now : m₀.now ≤ m.now

/-- The task of a cancel accepted in `m₀` has asked for a teardown, once and after all that the boot `b` asked
for, and the boot is over. -/
structure Reverts (m₀ : Machine β) (b : Nat) (m : Machine β) : Prop where
  boot : ∃ t, m.tasks[b]? = some t ∧ t.place = .over
  place : ∃ t, m.tasks[m₀.nextTask]? = some t ∧ t.place.WindsDown
  asked : ∃ xs ys, m.asked = m₀.asked ++ xs ++ (m₀.nextTask, .teardown) :: ys ∧
    (∀ x ∈ xs, x = (b, .boot)) ∧ ∀ y ∈ ys, y.1 ≠ b ∧ y.1 ≠ m₀.nextTask

theorem getElem?_of_prefix {ts us : List (Task β)} (h : ts <+: us) {k : Nat} {t : Task β}
    (ht : ts[k]? = some t) : us[k]? = some t := by
  obtain ⟨r, rfl⟩ := h
  rw [List.getElem?_append_left (List.getElem?_eq_some_iff.mp ht).1, ht]

theorem Waits.of_still (h : m₀.Waits b m) (hs : m.Still m') : m₀.Waits b m' := by
  obtain ⟨t, due, ht, hp, hd⟩ := h.place
  exact ⟨⟨t, due, getElem?_of_prefix hs.tasks ht, hp, hd⟩, hs.asked ▸ h.asked, Nat.le_trans h.now hs.now⟩

theorem Reverts.of_still (h : m₀.Reverts b m) (hs : m.Still m') : m₀.Reverts b m' := by
  obtain ⟨t, ht, hp⟩ := h.boot
  obtain ⟨u, hu, hw⟩ := h.place
  exact ⟨⟨t, getElem?_of_prefix hs.tasks ht, hp⟩, ⟨u, getElem?_of_prefix hs.tasks hu, hw⟩, hs.asked ▸ h.asked⟩

/-- Another task neither wakes the boot nor asks in its name or in that of the cancel. -/
theorem Reverts.frame (h : m₀.Reverts b m) (f : Frame id m m') (hb : id ≠ b) (hc : id ≠ m₀.nextTask) :
    m₀.Reverts b m' := by
  obtain ⟨xs, ys, ha, hx, hy⟩ := h.asked
  obtain ⟨zs, hz, hzs⟩ := f.asked
  refine ⟨by rw [f.others b hb.symm]; exact h.boot, by rw [f.others _ hc.symm]; exact h.place,
    xs, ys ++ zs, ?_, hx, ?_⟩
  · rw [hz, ha, List.append_assoc]
    rfl
  · intro z hm
    rcases List.mem_append.mp hm with hm | hm
    · exact hy z hm
    · rw [hzs z hm]
      exact ⟨hb, hc⟩

theorem abort_getElem? {k : Nat} {t : Task β} (ht : m.tasks[k]? = some t) (target : Nat) :
    ∃ u, (m.abort target).tasks[k]? = some u ∧ (u.place = .over ∨ u.place = t.place) := by
  simp only [abort, List.getElem?_map, ht, Option.map_some]
  split
  · exact ⟨_, rfl, .inl rfl⟩
  · exact ⟨_, rfl, .inr rfl⟩

theorem Reverts.abort (h : m₀.Reverts b m) (target : Nat) : m₀.Reverts b (m.abort target) := by
  obtain ⟨t, ht, hp⟩ := h.boot
  obtain ⟨u, hu, hw⟩ := h.place
  obtain ⟨t', ht', hp'⟩ := abort_getElem? ht target
  obtain ⟨u', hu', hw'⟩ := abort_getElem? hu target
  refine ⟨⟨t', ht', ?_⟩, ⟨u', hu', ?_⟩, h.asked⟩
  · rcases hp' with hp' | hp'
    · exact hp'
    · exact hp'.trans hp
  · rcases hw' with hw' | hw'
    · rw [hw']
      exact trivial
    · rw [hw']
      exact hw

theorem numbered_abort (hn : Numbered m.tasks) (target : Nat) : Numbered (m.abort target).tasks := by
  have hids : (m.abort target).tasks.map Task.id = m.tasks.map Task.id := map_ids _ fun _ => rfl
  rw [Numbered, hids, hn]
  simp [Machine.abort]

theorem Reverts.poll (h : m₀.Reverts b m) (hs : m.Sound) (id : Nat) : m₀.Reverts b (m.poll id) := by
  by_cases ended : m.isOver id = true
  · rw [poll_of_isOver ended]
    exact h
  · cases hf : m.task? id with
    | none => exact absurd (by simp [isOver, hf]) ended
    | some t =>
      obtain ⟨hm, rfl⟩ := mem_of_task? hf
      have hk := hs.numbered.getElem?_id hm
      have hno : t.place ≠ .over := fun hp =>
        ended (by rw [isOver_of_mem hs.numbered hm, Task.isOver_iff.mpr hp])
      -- The boot is over and the teardown only winds down, so that any other task leaves both as they are.
      have hb : t.id ≠ b := by
        rintro rfl
        obtain ⟨u, hu, hp⟩ := h.boot
        exact hno (by rw [← hp, Option.some.inj (hk.symm.trans hu)])
      have winds (hc : t.id = m₀.nextTask) : t.place.WindsDown := by
        obtain ⟨u, hu, hw⟩ := h.place
        rw [← hc, hk] at hu
        rw [Option.some.inj hu]
        exact hw
      rw [poll_of_mem hs hm]
      cases hp : t.place with
      | boot token op =>
        refine h.frame (frame_pollBoot hs.numbered token op) hb ?_
        intro hc
        have hw := winds hc
        rw [hp] at hw
        exact hw
      | teardown deadline op thenBoot =>
        by_cases hc : t.id = m₀.nextTask
        · have hw := winds hc
          rw [hp] at hw
          obtain ⟨hop, rfl⟩ := hw
          obtain ⟨ha, hpl⟩ := pollTeardown_windsDown t.epoch hs.numbered (hs.numbered.id_lt hm) deadline op
          have f : Frame t.id m (m.pollTeardown t.id t.epoch deadline op false) :=
            frame_pollTeardown hs.numbered deadline op false
          rw [asks_of_isUnderway hop, List.append_nil] at ha
          exact ⟨by rw [f.others b hb.symm]; exact h.boot, hc ▸ hpl, ha ▸ h.asked⟩
        · exact h.frame (frame_pollTeardown hs.numbered deadline op thenBoot) hb hc
      | await target deadline =>
        have hc : t.id ≠ m₀.nextTask := by
          intro hc
          have hw := winds hc
          rw [hp] at hw
          exact hw
        cases ho : m.isOver target with
        | true =>
          simp only [pollAwait_over ho]
          exact h.frame (frame_pollTeardown hs.numbered _ _ _) hb hc
        | false =>
          by_cases late : deadline.getD (m.now + cancelGrace) ≤ m.now
          · simp only [pollAwait_late ho late]
            exact (h.abort target).frame (frame_pollTeardown (numbered_abort hs.numbered target) _ _ _) hb hc
          · simp only [pollAwait_waits ho late]
            exact h.frame (frame_place hs.numbered _) hb hc
      | _ => exact absurd hp hno

/-- A task waits only while the stack is stopping, next to the boot that it waits for. -/
theorem In.of_await (hi : m.In q) {t : Task β} (ht : t ∈ m.tasks) {due : Option Nat} (hp : t.place = .await b due) :
    m.controller.phase = .stopping ∧ ∃ olds u, m.tasks = olds ++ [u, t] ∧ AllOver olds ∧ u.id = b ∧
      (u.place = .over ∨ ∃ token op, u.place = .boot token op) := by
  have hold {us : List (Task β)} (ho : AllOver us) : t ∉ us := fun hm => by simp [ho t hm] at hp
  cases q with
  | rest => exact absurd ht (hold hi.1)
  | booting again =>
    obtain ⟨olds, u, op, hu, ho, hpl, _⟩ := hi
    have htu : t = u := by simpa [hu, hold ho] using ht
    subst htu
    simp [hpl] at hp
  | stopping | restarting | reverting again =>
    obtain ⟨olds, u, d, op, hu, ho, hpl, _⟩ := hi
    have htu : t = u := by simpa [hu, hold ho] using ht
    subst htu
    simp [hpl] at hp
  | awaiting again =>
    obtain ⟨olds, u, v, d, hu, ho, hb, hpl, hph, _⟩ := hi
    have htu : t = u ∨ t = v := by simpa [hu, hold ho] using ht
    rcases htu with rfl | rfl
    · simp [hp] at hb
    · rw [hpl] at hp
      injection hp with hid
      exact ⟨hph, olds, u, hu, ho, hid, hb⟩

/-- Once the boot is over the task of the cancel asks for the teardown. -/
theorem Waits.reverts (h : m₀.Waits b m) (hn : Numbered m.tasks) {u : Task β} (hu : m.tasks[b]? = some u)
    (hp : u.place = .over) (hb : b ≠ m₀.nextTask) (epoch : Nat) :
    m₀.Reverts b (m.pollTeardown m₀.nextTask epoch none (.fresh m.backend.teardown) false) := by
  obtain ⟨t, due, ht, _⟩ := h.place
  obtain ⟨xs, ha, hx⟩ := h.asked
  obtain ⟨hask, hpl⟩ := pollTeardown_windsDown epoch hn (List.getElem?_eq_some_iff.mp ht).1 none
    (.fresh m.backend.teardown)
  have f : Frame m₀.nextTask m (m.pollTeardown m₀.nextTask epoch none (.fresh m.backend.teardown) false) :=
    frame_pollTeardown hn none _ false
  refine ⟨⟨u, by rw [f.others b hb, hu], hp⟩, hpl, xs, [], ?_, hx, by simp⟩
  rw [hask, ha]
  rfl

theorem Waits.poll_reverts (h : m₀.Waits b m) (hs : m.Sound) (hi : m.In q) {t : Task β} {due : Option Nat}
    (ht : m.tasks[m₀.nextTask]? = some t) (hp : t.place = .await b due)
    (hd : m.isOver b = true ∨ due.getD (m.now + cancelGrace) ≤ m.now) :
    m₀.Reverts b (m.poll m₀.nextTask) := by
  have hm : t ∈ m.tasks := List.mem_of_getElem? ht
  have hid : t.id = m₀.nextTask := hs.numbered.id_eq ht
  obtain ⟨_, olds, u, hts, _, rfl, _⟩ := hi.of_await hm hp
  have hum : u ∈ m.tasks := by simp [hts]
  have hu := hs.numbered.getElem?_id hum
  have hne : u.id ≠ m₀.nextTask := by
    intro he
    rw [he, ht] at hu
    have htu := hs.ascending
    rw [← Option.some.inj hu] at hts
    simp [hts, List.pairwise_append] at htu
  rw [← hid, poll_of_mem hs hm, hp]
  cases ho : m.isOver u.id with
  | true =>
    simp only [pollAwait_over ho]
    have hup : u.place = .over := Task.isOver_iff.mp ((isOver_of_mem hs.numbered hum).symm.trans ho)
    exact hid ▸ h.reverts hs.numbered hu hup hne t.epoch
  | false =>
    have late : due.getD (m.now + cancelGrace) ≤ m.now := hd.resolve_left (by simp [ho])
    simp only [pollAwait_late ho late]
    have ha : m₀.Waits u.id (m.abort u.id) := by
      refine ⟨?_, h.asked, h.now⟩
      have hc : (m.abort u.id).tasks[m₀.nextTask]? = m.tasks[m₀.nextTask]? := map_other hs.numbered _ hne.symm
      rw [hc]
      exact h.place
    have hu' : (m.abort u.id).tasks[u.id]? = some { u with place := .over } := by simp [Machine.abort, hu]
    exact hid ▸ ha.reverts (numbered_abort hs.numbered u.id) hu' rfl hne t.epoch

theorem Waits.poll_waits (h : m₀.Waits b m) (hs : m.Sound) {t : Task β} {due : Option Nat}
    (ht : m.tasks[m₀.nextTask]? = some t) (hp : t.place = .await b due) (ho : m.isOver b = false)
    (late : ¬ due.getD (m.now + cancelGrace) ≤ m.now) :
    m₀.Waits b (m.poll m₀.nextTask) ∧ ∃ t', (m.poll m₀.nextTask).tasks[m₀.nextTask]? = some t' ∧
      t'.place = .await b (some (due.getD (m.now + cancelGrace))) := by
  have hm : t ∈ m.tasks := List.mem_of_getElem? ht
  have hid : t.id = m₀.nextTask := hs.numbered.id_eq ht
  have he : m.poll m₀.nextTask =
      m.place m₀.nextTask t.epoch (.await b (some (due.getD (m.now + cancelGrace)))) := by
    rw [← hid, poll_of_mem hs hm, hp]
    exact pollAwait_waits ho late
  have hself : (m.place m₀.nextTask t.epoch (.await b (some (due.getD (m.now + cancelGrace))))).tasks[
      m₀.nextTask]? = some ⟨m₀.nextTask, t.epoch, .await b (some (due.getD (m.now + cancelGrace)))⟩ :=
    place_self hs.numbered (List.getElem?_eq_some_iff.mp ht).1 _
  rw [he]
  refine ⟨⟨⟨_, _, hself, rfl, ?_⟩, h.asked, h.now⟩, _, hself, rfl⟩
  intro d hd
  obtain ⟨t₀, due₀, ht₀, hp₀, hd₀⟩ := h.place
  rw [Option.some.inj (ht₀.symm.trans ht), hp] at hp₀
  injection hp₀ with _ hdue
  have hn := h.now
  cases due with
  | none =>
    have : d = m.now + cancelGrace := (Option.some.inj hd).symm
    omega
  | some e =>
    have : e = d := Option.some.inj hd
    exact hd₀ d (by rw [← hdue, this])

/-- A boot that goes on while a cancel waits for it asks for itself at most. -/
theorem Waits.poll_boot (h : m₀.Waits b m) (hs : m.Sound) (hi : m.In q) : m₀.Waits b (m.poll b) := by
  obtain ⟨t, due, ht, hp, hd⟩ := h.place
  obtain ⟨_, olds, u, hts, _, rfl, hub⟩ := hi.of_await (List.mem_of_getElem? ht) hp
  have hum : u ∈ m.tasks := by simp [hts]
  rw [poll_of_mem hs hum]
  rcases hub with hub | ⟨token, op, hub⟩
  · rw [hub]
    exact h
  · rw [hub]
    have hne : m₀.nextTask ≠ u.id := by
      intro he
      rw [he, hs.numbered.getElem?_id hum] at ht
      rw [← Option.some.inj ht, hub] at hp
      cases hp
    have f : Frame u.id m (m.pollBoot u.id u.epoch token op) := frame_pollBoot hs.numbered token op
    obtain ⟨xs, ha, hx⟩ := h.asked
    refine ⟨⟨t, due, by rw [f.others _ hne, ht], hp, hd⟩, ⟨xs ++ asks u.id .boot op, ?_, ?_⟩, f.now ▸ h.now⟩
    · rw [pollBoot_asked, ha, List.append_assoc]
    · intro x hm
      rcases List.mem_append.mp hm with hm | hm
      · exact hx x hm
      · cases op with
        | fresh s => exact List.mem_singleton.mp hm
        | asleep _ _ _ | held | ended _ => cases hm

/-- Only the task of the cancel itself goes over to the teardown, and not before the boot or the grace is over. -/
theorem Waits.poll (h : m₀.Waits b m) (hs : m.Sound) (hi : m.In q) (id : Nat) :
    m₀.Waits b (m.poll id) ∨ (id = m₀.nextTask ∧ (m.isOver b = true ∨ m₀.now + cancelGrace ≤ m.now) ∧
      m₀.Reverts b (m.poll id)) := by
  obtain ⟨t, due, ht, hp, hd⟩ := h.place
  by_cases hc : id = m₀.nextTask
  · subst hc
    by_cases go : m.isOver b = true ∨ due.getD (m.now + cancelGrace) ≤ m.now
    · refine .inr ⟨rfl, go.imp_right fun late => ?_, h.poll_reverts hs hi ht hp go⟩
      cases due with
      | none =>
        have hle : m.now + cancelGrace ≤ m.now := late
        exact absurd hle (by unfold cancelGrace; omega)
      | some e => exact Nat.le_trans (hd e rfl) late
    · have ho : m.isOver b = false := by simpa using fun hb => go (.inl hb)
      exact .inl (h.poll_waits hs ht hp ho fun late => go (.inr late)).1
  · by_cases hb : id = b
    · subst hb
      exact .inl (h.poll_boot hs hi)
    · obtain ⟨_, olds, u, hts, ho, hub, _⟩ := hi.of_await (List.mem_of_getElem? ht) hp
      have ended : m.isOver id = true := by
        unfold isOver
        cases hf : m.task? id with
        | none => rfl
        | some v =>
          obtain ⟨hm, rfl⟩ := mem_of_task? hf
          have hid : t.id = m₀.nextTask := hs.numbered.id_eq ht
          rw [hts] at hm
          rcases List.mem_append.mp hm with hm | hm
          · exact Task.isOver_iff.mpr (ho v hm)
          · simp only [List.mem_cons, List.not_mem_nil, or_false] at hm
            rcases hm with rfl | rfl
            · exact absurd hub hb
            · exact absurd hid hc
      rw [poll_of_isOver ended]
      exact .inl h

theorem Waits.not_reverts (h : m₀.Waits b m) : ¬ m₀.Reverts b m := by
  intro hr
  obtain ⟨t, due, ht, hp, _⟩ := h.place
  obtain ⟨u, hu, hw⟩ := hr.place
  rw [← Option.some.inj (ht.symm.trans hu), hp] at hw
  exact hw

/-- A cancel is accepted in a boot, and its task waits for it. -/
theorem In.cancel_waits (hi : m.In q) (hp : m.controller.phase = .starting) :
    ∃ b, m.controller.bootTask = some b ∧ m.cancel.1 = .ok () ∧ m.Waits b m.cancel.2 := by
  have hq : q.phase = .starting := hi.phase.symm.trans hp
  cases q with
  | booting again =>
    obtain ⟨olds, t, op, _, _, _, _, _, hb⟩ := hi
    refine ⟨t.id, hb, ?_⟩
    simp only [Machine.cancel, hp, hb]
    refine ⟨trivial, ⟨⟨m.nextTask, m.controller.epoch + 1, .await t.id none⟩, none, ?_, rfl, by simp⟩,
      ⟨[], (List.append_nil _).symm, by simp⟩, Nat.le_refl _⟩
    exact List.getElem?_concat_length
  | rest | awaiting again | stopping | restarting | reverting again => cases hq

end Machine

namespace Scene

variable {s : Scene β} {q : Situation} {m₀ : Machine β} {b : Nat}

theorem Lawful.move_waits (h : s.Lawful q) (hw : m₀.Waits b s.machine) (mv : Move β) :
    m₀.Waits b (s.move mv).machine ∨ (mv = .poll m₀.nextTask ∧
      (s.machine.isOver b = true ∨ m₀.now + cancelGrace ≤ s.machine.now) ∧
      m₀.Reverts b (s.move mv).machine) := by
  by_cases hm : ∃ id, mv = .poll id
  · obtain ⟨id, rfl⟩ := hm
    rcases hw.poll h.sound h.inside id with hw' | ⟨rfl, hd, hr⟩
    · exact .inl hw'
    · exact .inr ⟨rfl, hd, hr⟩
  · exact .inl (hw.of_still (move_still fun id he => hm ⟨id, he⟩))

theorem Lawful.move_reverts (h : s.Lawful q) (hr : m₀.Reverts b s.machine) (mv : Move β) :
    m₀.Reverts b (s.move mv).machine := by
  by_cases hm : ∃ id, mv = .poll id
  · obtain ⟨id, rfl⟩ := hm
    exact hr.poll h.sound id
  · exact hr.of_still (move_still fun id he => hm ⟨id, he⟩)

theorem Lawful.run_cancelled (h : s.Lawful q) (hw : m₀.Waits b s.machine) (moves : List (Move β)) :
    m₀.Waits b (s.run moves).machine ∨ m₀.Reverts b (s.run moves).machine := by
  have keep := run_keeps (P := fun s => (∃ q, s.Lawful q) ∧ (m₀.Waits b s.machine ∨ m₀.Reverts b s.machine))
    ?_ ⟨⟨q, h⟩, .inl hw⟩ moves
  · exact keep.2
  · rintro s mv ⟨⟨q, h⟩, hs⟩
    obtain ⟨es, q', g⟩ := move_goes h.sound h.inside mv
    refine ⟨⟨q', g.lawful h⟩, ?_⟩
    rcases hs with hw | hr
    · exact (h.move_waits hw mv).imp_right fun hr => hr.2.2
    · exact .inr (h.move_reverts hr mv)

end Scene

end StackDeck.Lifecycle
