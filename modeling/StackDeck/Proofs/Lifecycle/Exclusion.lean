import StackDeck.Proofs.Backend.Rehearsal
import StackDeck.Proofs.Lifecycle.Cancellation

namespace StackDeck.Lifecycle

variable {β : Type}

/-- The backend is at work for a task. -/
def Place.isUnderway : Place β → Bool
  | .boot _ op => op.isUnderway
  | .teardown _ op _ => op.isUnderway
  | _ => false

namespace Machine

def underway (m : Machine β) : List (Task β) := m.tasks.filter fun t => t.place.isUnderway

variable {m m' : Machine β} {q : Situation} {id : Nat}

theorem mem_underway {t : Task β} : t ∈ m.underway ↔ t ∈ m.tasks ∧ t.place.isUnderway = true :=
  List.mem_filter

theorem not_underway_of_allOver {olds : List (Task β)} (ho : AllOver olds) :
    olds.filter (fun t => t.place.isUnderway) = [] := by
  refine List.filter_eq_nil_iff.mpr fun t ht => ?_
  simp [ho t ht, Place.isUnderway]

theorem underway_newest {olds : List (Task β)} {t : Task β} (ht : m.tasks = olds ++ [t]) (ho : AllOver olds) :
    m.underway = [t].filter fun t => t.place.isUnderway := by
  rw [underway, ht, List.filter_append, not_underway_of_allOver ho, List.nil_append]

/-- The backend is at work for the task that has something left to do, or for the boot on which it waits. -/
theorem In.underway (hi : m.In q) :
    m.underway = [] ∨ ∃ t ∈ m.tasks, m.underway = [t] ∧ ∀ u ∈ m.tasks, u.place ≠ .over →
      u = t ∨ ∃ due, u.place = .await t.id due := by
  have newest {olds : List (Task β)} {t : Task β} (ht : m.tasks = olds ++ [t]) (ho : AllOver olds) :
      m.underway = [] ∨ ∃ t ∈ m.tasks, m.underway = [t] ∧ ∀ u ∈ m.tasks, u.place ≠ .over →
        u = t ∨ ∃ due, u.place = .await t.id due := by
    rw [underway_newest ht ho]
    by_cases hu : t.place.isUnderway = true
    · refine .inr ⟨t, by simp [ht], by simp [hu], ?_⟩
      intro u hm hno
      rw [ht] at hm
      rcases List.mem_append.mp hm with hm | hm
      · exact absurd (ho u hm) hno
      · exact .inl (List.mem_singleton.mp hm)
    · exact .inl (by simp [hu])
  cases q with
  | rest => exact .inl (not_underway_of_allOver hi.1)
  | booting again =>
    obtain ⟨olds, t, op, ht, ho, _⟩ := hi
    exact newest ht ho
  | stopping | restarting | reverting again =>
    obtain ⟨olds, t, d, op, ht, ho, _⟩ := hi
    exact newest ht ho
  | awaiting again =>
    obtain ⟨olds, b, t, due, ht, ho, _, hp, _⟩ := hi
    have hu : m.underway = [b].filter fun t => t.place.isUnderway := by
      have htn : t.place.isUnderway = false := by
        rw [hp]
        rfl
      have hf : [b, t].filter (fun t => t.place.isUnderway) = [b].filter fun t => t.place.isUnderway := by
        simp [htn, List.filter_cons]
      rw [Machine.underway, ht, List.filter_append, not_underway_of_allOver ho, List.nil_append, hf]
    rw [hu]
    by_cases hb : b.place.isUnderway = true
    · refine .inr ⟨b, by simp [ht], by simp [hb], ?_⟩
      intro u hm hno
      rw [ht] at hm
      rcases List.mem_append.mp hm with hm | hm
      · exact absurd (ho u hm) hno
      · simp only [List.mem_cons, List.not_mem_nil, or_false] at hm
        rcases hm with rfl | rfl
        · exact .inl rfl
        · exact .inr ⟨due, hp⟩
    · exact .inl (by simp [hb])

theorem In.underway_le (hi : m.In q) : m.underway.length ≤ 1 := by
  rcases hi.underway with h | ⟨t, _, h, _⟩ <;> simp [h]

/-- Where the backend is at work for one task at most, it is so after that task has gone on. -/
theorem Frame.underway (f : Frame id m m') (hn : Numbered m.tasks) (h : ∀ t ∈ m.underway, t.id = id) :
    ∀ t ∈ m'.underway, t.id = id := by
  intro t ht
  by_contra hne
  obtain ⟨hm, hu⟩ := mem_underway.mp ht
  have hk := (f.numbered hn).getElem?_id hm
  rw [f.others t.id hne] at hk
  exact hne (h t (mem_underway.mpr ⟨List.mem_of_getElem? hk, hu⟩))

/-- While a task waits the backend can only be at work for the boot on which it waits. -/
theorem In.underway_of_await (hi : m.In q) {t : Task β} (ht : t ∈ m.tasks) {b : Nat} {due : Option Nat}
    (hp : t.place = .await b due) : ∀ u ∈ m.underway, u.id = b := by
  intro u hu
  rcases hi.underway with h | ⟨v, _, h, hv⟩
  · simp [h] at hu
  · have huv : u = v := by simpa [h] using hu
    subst huv
    rcases hv t ht (by simp [hp]) with rfl | ⟨due', hp'⟩
    · have hut := (mem_underway.mp hu).2
      rw [hp] at hut
      cases hut
    · rw [hp] at hp'
      injection hp' with hb
      exact hb.symm

/-- While a task is at work the backend is at work for no other. -/
theorem In.underway_of_work (hi : m.In q) {t : Task β} (ht : t ∈ m.tasks) (hno : t.place ≠ .over)
    (hna : ∀ b due, t.place ≠ .await b due) : ∀ u ∈ m.underway, u.id = t.id := by
  intro u hu
  rcases hi.underway with h | ⟨v, _, h, hv⟩
  · simp [h] at hu
  · rw [h] at hu
    rcases hv t ht hno with rfl | ⟨due, hp⟩
    · rw [List.mem_singleton.mp hu]
    · exact absurd hp (hna v.id due)

/-- A task that asks something of the backend is the only one for which the backend is at work. -/
theorem Sound.poll_asks (hs : m.Sound) (hi : m.In q) (id : Nat) :
    ∃ xs, (m.poll id).asked = m.asked ++ xs ∧
      ∀ x ∈ xs, x.1 = id ∧ ∀ t ∈ (m.poll id).underway, t.id = id := by
  have of {m₀ m' : Machine β} (f : Frame id m₀ m') (hn : Numbered m₀.tasks) (ha : m₀.asked = m.asked)
      (h : ∀ t ∈ m₀.underway, t.id = id) :
      ∃ xs, m'.asked = m.asked ++ xs ∧ ∀ x ∈ xs, x.1 = id ∧ ∀ t ∈ m'.underway, t.id = id := by
    obtain ⟨xs, hx, hxs⟩ := f.asked
    exact ⟨xs, ha ▸ hx, fun x hm => ⟨hxs x hm, f.underway hn h⟩⟩
  have still {m' : Machine β} (ha : m'.asked = m.asked) :
      ∃ xs, m'.asked = m.asked ++ xs ∧ ∀ x ∈ xs, x.1 = id ∧ ∀ t ∈ m'.underway, t.id = id :=
    ⟨[], by rw [ha, List.append_nil], by simp⟩
  cases hf : m.task? id with
  | none => exact still (by rw [poll_of_isOver (by simp [isOver, hf])])
  | some t =>
    obtain ⟨hm, rfl⟩ := mem_of_task? hf
    rw [poll_of_mem hs hm]
    cases hp : t.place with
    | boot token op =>
      exact of (frame_pollBoot hs.numbered token op) hs.numbered rfl
        (hi.underway_of_work hm (by simp [hp]) (by simp [hp]))
    | teardown due op thenBoot =>
      exact of (frame_pollTeardown hs.numbered due op thenBoot) hs.numbered rfl
        (hi.underway_of_work hm (by simp [hp]) (by simp [hp]))
    | await b due =>
      -- The backend can only be at work for the boot, which is over by now.
      have boot := hi.underway_of_await hm hp
      cases ho : m.isOver b with
      | true =>
        simp only [pollAwait_over ho]
        refine of (frame_pollTeardown hs.numbered _ _ _) hs.numbered rfl ?_
        intro u hu
        obtain ⟨hum, huu⟩ := mem_underway.mp hu
        rw [← boot u hu, isOver_of_mem hs.numbered hum, Task.isOver_iff] at ho
        rw [ho] at huu
        cases huu
      | false =>
        by_cases late : due.getD (m.now + cancelGrace) ≤ m.now
        · simp only [pollAwait_late ho late]
          refine of (frame_pollTeardown (numbered_abort hs.numbered b) _ _ _) (numbered_abort hs.numbered b) rfl ?_
          intro u hu
          obtain ⟨hum, huu⟩ := mem_underway.mp hu
          obtain ⟨v, hv, rfl⟩ := List.mem_map.mp hum
          by_cases hb : v.id = b
          · simp [hb, Place.isUnderway] at huu
          · have huv : v.place.isUnderway = true := by simpa [hb] using huu
            exact absurd (boot v (mem_underway.mpr ⟨hv, huv⟩)) hb
        · simp only [pollAwait_waits ho late]
          exact still rfl
    | _ => exact still rfl

end Machine

namespace Scene

variable {s : Scene β} {q : Situation}

theorem Lawful.move_asks (h : s.Lawful q) (mv : Move β) :
    ∃ xs, (s.move mv).machine.asked = s.machine.asked ++ xs ∧
      ∀ x ∈ xs, ∀ t ∈ (s.move mv).machine.underway, t.id = x.1 := by
  by_cases hm : ∃ id, mv = .poll id
  · obtain ⟨id, rfl⟩ := hm
    obtain ⟨xs, ha, hx⟩ := h.sound.poll_asks h.inside id
    refine ⟨xs, ha, ?_⟩
    intro x hm t ht
    rw [(hx x hm).1]
    exact (hx x hm).2 t ht
  · have hs : s.machine.Still (s.move mv).machine := move_still fun id he => hm ⟨id, he⟩
    exact ⟨[], by rw [hs.asked, List.append_nil], by simp⟩

theorem Reliable.told {I up down : β → Prop} (h : s.Reliable I up down) (mv : Move β) :
    ∀ n ∈ (s.move mv).machine.notices.drop s.machine.notices.length,
      n.Fits up down (s.move mv).machine.world := by
  by_cases hm : ∃ f, mv = .touch f
  · obtain ⟨f, rfl⟩ := hm
    intro n hn
    simp [Scene.move] at hn
  · obtain ⟨ns, hns, hf⟩ := (h.move fun f he => absurd ⟨f, he⟩ hm).2.told
    rw [hns, List.drop_left]
    exact hf

end Scene

/-- In every run over a played stack whose services have distinct names, the backend is at work for one task at
most and asked for something by no other; a cancel waits until the boot is over or the grace is and then asks
for one teardown, after which the boot takes no step; and a stack is told to have started or stopped only where
all its services run or none does. -/
theorem boot_and_teardown_never_overlap (world : Rehearsal) (distinct : world.Distinct) (teardownTimeout : Nat)
    (moves : List (Move Rehearsal))
    (touches : ∀ f, .touch f ∈ moves → ∀ w, Rehearsal.Distinct w → Rehearsal.Distinct (f w)) :
    let s := (Scene.start Rehearsal.backend world teardownTimeout).run moves
    let m := s.machine
    (m.underway.length ≤ 1 ∧ ∀ mv, ∃ xs, (s.move mv).machine.asked = m.asked ++ xs ∧
      ∀ x ∈ xs, ∀ t ∈ (s.move mv).machine.underway, t.id = x.1) ∧
    (m.controller.phase = .starting → ∃ b, m.controller.bootTask = some b ∧ m.cancel.1 = .ok () ∧
      ∀ later, let s' := (s.move .cancel).run later
        let m' := s'.machine
        (m.Waits b m' ∨ m.Reverts b m') ∧
        (m'.controller.phase ≠ .stopping → m.Reverts b m') ∧
        (m.Waits b m' → ∀ mv, m.Reverts b (s'.move mv).machine →
          mv = .poll m.nextTask ∧ (m'.isOver b = true ∨ m.now + cancelGrace ≤ m'.now)) ∧
        (∀ t ∈ m'.tasks, t.id = m.nextTask → ∀ due, t.place = .await b due →
          if m'.isOver b = true ∨ due.getD (m'.now + cancelGrace) ≤ m'.now then m.Reverts b (m'.poll t.id)
          else ∃ u ∈ (m'.poll t.id).tasks, u.id = t.id ∧
            u.place = .await b (some (due.getD (m'.now + cancelGrace)))) ∧
        (m.Reverts b m' → m'.poll b = m')) ∧
    (∀ mv, let m' := (s.move mv).machine
      (.started ∈ m'.notices.drop m.notices.length → ∀ v ∈ m'.world.roster, v.running = true) ∧
      (.stopped ∈ m'.notices.drop m.notices.length → ∀ v ∈ m'.world.roster, v.running = false)) := by
  intro s m
  obtain ⟨q, h⟩ := (Scene.start_lawful Rehearsal.backend world teardownTimeout).run moves
  have reliable : s.Reliable Rehearsal.Distinct (Rehearsal.AllRunning true) (Rehearsal.AllRunning false) :=
    (Scene.start_reliable Rehearsal.backend_honest distinct teardownTimeout).run touches
  refine ⟨⟨h.inside.underway_le, h.move_asks⟩, ?_, ?_⟩
  · intro hp
    obtain ⟨b, hb, hok, hw⟩ := h.inside.cancel_waits hp
    refine ⟨b, hb, hok, ?_⟩
    intro later s' m'
    obtain ⟨es, q₁, g⟩ := Scene.move_goes h.sound h.inside .cancel
    obtain ⟨q', h'⟩ := (g.lawful h).run later
    have hwr : m.Waits b m' ∨ m.Reverts b m' := (g.lawful h).run_cancelled hw later
    refine ⟨hwr, ?_, ?_, ?_, ?_⟩
    · intro hne
      refine hwr.resolve_left fun hw' => ?_
      obtain ⟨t, due, ht, hpl, _⟩ := hw'.place
      exact hne (h'.inside.of_await (List.mem_of_getElem? ht) hpl).1
    · intro hw' mv hr
      rcases h'.move_waits hw' mv with hw'' | ⟨rfl, hd, _⟩
      · exact absurd hr hw''.not_reverts
      · exact ⟨rfl, hd⟩
    · intro t ht hid due hpl
      have hk : m'.tasks[m.nextTask]? = some t := hid ▸ h'.sound.numbered.getElem?_id ht
      have hw' : m.Waits b m' := by
        refine hwr.resolve_right fun hr => ?_
        obtain ⟨u, hu, hwd⟩ := hr.place
        rw [← Option.some.inj (hk.symm.trans hu), hpl] at hwd
        exact hwd
      rw [hid]
      split
      next hd => exact hw'.poll_reverts h'.sound h'.inside hk hpl hd
      next hd =>
        have ho : m'.isOver b = false := by simpa using fun ho => hd (.inl ho)
        obtain ⟨_, u, hu, hup⟩ := hw'.poll_waits h'.sound hk hpl ho fun late => hd (.inr late)
        obtain ⟨_, _, g'⟩ := Scene.move_goes h'.sound h'.inside (.poll m.nextTask)
        exact ⟨u, List.mem_of_getElem? hu, g'.sound.numbered.id_eq hu, hup⟩
    · intro hr
      obtain ⟨t, ht, hpl⟩ := hr.boot
      have hid : t.id = b := h'.sound.numbered.id_eq ht
      have hm : t ∈ m'.tasks := List.mem_of_getElem? ht
      refine Machine.poll_of_isOver ?_
      rw [← hid, Machine.isOver_of_mem h'.sound.numbered hm, Machine.Task.isOver_iff]
      exact hpl
  · intro mv m'
    exact ⟨reliable.told mv _, reliable.told mv _⟩

/-- A boot that heeds no cancel for a minute: whatever follows, the cancel waits for it or has dropped it. -/
theorem cancel_outlasts_stubborn_boot :
    let world : Rehearsal := { roster := [.plain "db" false, .plain "web" false], bootLag := some 60000 }
    let s := (Scene.start Rehearsal.backend world 120000).run [.arrive .up, .attend 0, .attend 0, .poll 0]
    world.Distinct ∧ s.machine.underway.length = 1 ∧ ∃ b, s.machine.controller.bootTask = some b ∧
      ∀ later, s.machine.Waits b ((s.move .cancel).run later).machine ∨
        s.machine.Reverts b ((s.move .cancel).run later).machine := by
  intro world s
  have distinct : world.Distinct := by decide
  obtain ⟨b, hb, _, hl⟩ := (boot_and_teardown_never_overlap world distinct 120000
    [.arrive .up, .attend 0, .attend 0, .poll 0] (by simp)).2.1 rfl
  exact ⟨distinct, rfl, b, hb, fun later => (hl later).1⟩

end StackDeck.Lifecycle
