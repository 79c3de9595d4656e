import StackDeck.Proofs.Lifecycle.Chronicle

namespace StackDeck.Lifecycle

variable {β : Type}

/-- Without a transition the phase stays, unless the stack comes to rest. -/
theorem Situation.Steps.phase_eq {q r : Situation} {es : List Entry} (h : q.Steps es r)
    (hz : es.countP Entry.isTransition = 0) : r.phase = q.phase ∨ r.phase = .idle := by
  induction h with
  | refl => exact .inl rfl
  | @next q r s es fs step _ ih =>
    rw [List.countP_append] at hz
    have hs : r.phase = q.phase ∨ r.phase = .idle := by
      cases step with
      | up | down | restart | cancel | boot => simp [Entry.isTransition] at hz
      | started | bootFailed | stopped | teardownFailed => exact .inr rfl
      | revert => exact .inl rfl
    rcases ih (by omega) with hr | hr
    · rw [hr]
      exact hs
    · exact .inr hr

namespace Machine

/-- The tasks that have something left to do and carry the current epoch. -/
def holders (m : Machine β) : List (Task β) :=
  m.tasks.filter fun t => !t.isOver && t.epoch == m.controller.epoch

variable {m : Machine β} {q : Situation}

theorem holders_of_newest (h : m.Sound) {olds : List (Task β)} {t : Task β} (ht : m.tasks = olds ++ [t])
    (hp : t.place ≠ .over) : m.holders = [t] := by
  have ha := h.ascending
  simp only [ht, List.map_append, List.pairwise_append, List.mem_map] at ha
  have he := h.newest t.epoch (by simp [ht])
  have ho : t.isOver = false := by simpa [← Task.isOver_iff] using hp
  have older : olds.filter (fun u => !u.isOver && u.epoch == m.controller.epoch) = [] := by
    refine List.filter_eq_nil_iff.mpr fun u hu => ?_
    have hlt := ha.2.2 u.epoch ⟨u, hu, rfl⟩ t.epoch (by simp)
    have hne : u.epoch ≠ m.controller.epoch := by omega
    simp [hne]
  rw [holders, ht, List.filter_append, older, List.nil_append]
  exact List.filter_cons_of_pos (by simp [ho, he])

theorem In.holders_eq (h : m.Sound) (hi : m.In q) :
    if q = .rest then m.holders = [] else ∃ t, m.holders = [t] := by
  cases q with
  | rest =>
    refine List.filter_eq_nil_iff.mpr fun t ht => ?_
    simp [Task.isOver_iff.mpr (hi.1 t ht)]
  | booting again =>
    obtain ⟨olds, t, op, ht, _, hp, _⟩ := hi
    exact ⟨t, holders_of_newest h ht (by simp [hp])⟩
  | awaiting again =>
    obtain ⟨olds, b, t, d, ht, _, _, hp, _⟩ := hi
    exact ⟨t, holders_of_newest h (ht.trans (List.append_cons olds b [t])) (by simp [hp])⟩
  | stopping | restarting | reverting again =>
    obtain ⟨olds, t, d, op, ht, _, hp, _⟩ := hi
    exact ⟨t, holders_of_newest h ht (by simp [hp])⟩

theorem In.starting (h : m.Sound) (hi : m.In q) (hp : m.controller.phase = .starting) :
    m.controller.cancel.isSome ∧ ∃ t ∈ m.holders, m.controller.bootTask = some t.id := by
  have hq : q.phase = .starting := hi.phase.symm.trans hp
  cases q with
  | booting again =>
    obtain ⟨olds, t, op, ht, _, hpl, _, hc, hb⟩ := hi
    refine ⟨by rw [hc]; rfl, t, ?_, hb⟩
    rw [holders_of_newest h ht (by simp [hpl])]
    exact List.mem_singleton_self t
  | rest | awaiting again | stopping | restarting | reverting again => cases hq

theorem In.idle (hi : m.In q) (hp : m.controller.phase = .idle) :
    m.controller.cancel = none ∧ m.controller.bootTask = none := by
  have hq : q.phase = .idle := hi.phase.symm.trans hp
  cases q with
  | rest => exact hi.2.2
  | booting again | awaiting again | stopping | restarting | reverting again => cases hq

theorem In.stopping (hi : m.In q) (hp : m.controller.phase = .stopping) : m.controller.cancel = none := by
  have hq : q.phase = .stopping := hi.phase.symm.trans hp
  cases q with
  | awaiting again =>
    obtain ⟨_, _, _, _, _, _, _, _, _, hc, _⟩ := hi
    exact hc
  | stopping | restarting | reverting again =>
    obtain ⟨_, _, _, _, _, _, _, _, hc, _⟩ := hi
    exact hc
  | rest | booting again => cases hq

/-- A superseded task has no say any more: it is over, or a boot that a cancel waits for. -/
theorem Sound.poll_superseded (h : m.Sound) (hi : m.In q) {t : Task β} (ht : t ∈ m.tasks)
    (hlt : t.epoch < m.controller.epoch) :
    (m.poll t.id).controller = m.controller ∧ (m.poll t.id).notices = m.notices := by
  have settled (hp : t.place = .over) :
      (m.poll t.id).controller = m.controller ∧ (m.poll t.id).notices = m.notices := by
    rw [poll_of_mem h ht, hp]
    exact ⟨rfl, rfl⟩
  have older {olds : List (Task β)} {u : Task β} (hu : m.tasks = olds ++ [u]) : t ∈ olds := by
    have he := h.newest u.epoch (by simp [hu])
    rw [hu] at ht
    rcases List.mem_append.mp ht with hm | hm
    · exact hm
    · rw [List.mem_singleton.mp hm] at hlt
      omega
  cases q with
  | rest => exact settled (hi.1 t ht)
  | booting again =>
    obtain ⟨olds, u, op, hu, ho, _⟩ := hi
    exact settled (ho t (older hu))
  | awaiting again =>
    obtain ⟨olds, b, u, d, hu, ho, hb, _⟩ := hi
    have hm := older (hu.trans (List.append_cons olds b [u]))
    rcases List.mem_append.mp hm with hm | hm
    · exact settled (ho t hm)
    · rw [List.mem_singleton.mp hm] at settled ⊢
      rcases hb with hb | ⟨token, op, hb⟩
      · exact settled hb
      · obtain ⟨_, _, _, hc, hn⟩ := h.pollCancelled hu token op
        rw [poll_of_mem h (by simp [hu]), hb]
        exact ⟨hc, hn⟩
  | stopping | restarting | reverting again =>
    obtain ⟨olds, u, d, op, hu, ho, _⟩ := hi
    exact settled (ho t (older hu))

end Machine

namespace Scene

variable {s : Scene β} {q : Situation}

/-- A superseded epoch stays with its task. -/
theorem Lawful.superseded (h : s.Lawful q) {id e : Nat} (he : (s.machine.tasks.map Task.epoch)[id]? = some e)
    (hlt : e < s.machine.controller.epoch) (moves : List (Move β)) :
    ((s.run moves).machine.tasks.map Task.epoch)[id]? = some e ∧
      e < (s.run moves).machine.controller.epoch := by
  have keep := run_keeps (P := fun s => (∃ q, s.Lawful q) ∧ (s.machine.tasks.map Task.epoch)[id]? = some e ∧
    e < s.machine.controller.epoch) ?_ ⟨⟨q, h⟩, he, hlt⟩ moves
  · exact keep.2
  · rintro s mv ⟨⟨q, h⟩, he, hlt⟩
    obtain ⟨es, q', g⟩ := move_goes h.sound h.inside mv
    have hb := (List.getElem?_eq_some_iff.mp he).1
    have hne : id ≠ (s.machine.tasks.map Task.epoch).length - 1 := by
      rintro rfl
      have := h.sound.newest e (List.getLast?_eq_getElem? ▸ he)
      omega
    have hd : (s.machine.tasks.map Task.epoch).dropLast[id]? = some e := by
      rw [List.getElem?_dropLast, if_pos (by omega), he]
    obtain ⟨r, hr⟩ := g.keeps
    have hg := g.epoch
    refine ⟨⟨q', g.lawful h⟩, ?_, by omega⟩
    rw [← hr, List.getElem?_append_left (List.getElem?_eq_some_iff.mp hd).1, hd]

theorem Lawful.run_epoch (h : s.Lawful q) (moves : List (Move β)) : ∃ es,
    (s.run moves).chronicle = s.chronicle ++ es ∧
    (s.run moves).machine.controller.epoch = s.machine.controller.epoch + es.countP Entry.isTransition := by
  have keep := run_keeps (P := fun t : Scene β => (∃ q, t.Lawful q) ∧ ∃ es, t.chronicle = s.chronicle ++ es)
    ?_ ⟨⟨q, h⟩, [], by simp⟩ moves
  · obtain ⟨⟨q', h'⟩, es, he⟩ := keep
    refine ⟨es, he, ?_⟩
    rw [h'.epoch, h.epoch, he, List.countP_append]
  · rintro t mv ⟨⟨q, h⟩, es, he⟩
    obtain ⟨fs, q', g⟩ := move_goes h.sound h.inside mv
    exact ⟨⟨q', g.lawful h⟩, es ++ fs, by rw [g.chronicle, he, List.append_assoc]⟩

/-- A task that is superseded stays so and has no say in any later step. -/
theorem Lawful.superseded_silent (h : s.Lawful q) {t : Task β} (ht : t ∈ s.machine.tasks)
    (hlt : t.epoch < s.machine.controller.epoch) (moves : List (Move β)) :
    let m' := (s.run moves).machine
    (∃ t' ∈ m'.tasks, t'.id = t.id ∧ t'.epoch = t.epoch ∧ t'.epoch < m'.controller.epoch) ∧
      (m'.poll t.id).controller = m'.controller ∧ (m'.poll t.id).notices = m'.notices := by
  intro m'
  obtain ⟨q', h'⟩ := h.run moves
  have hte : (s.machine.tasks.map Task.epoch)[t.id]? = some t.epoch := by
    rw [List.getElem?_map, h.sound.numbered.getElem?_id ht]
    rfl
  obtain ⟨he, hlt'⟩ := h.superseded hte hlt moves
  rw [List.getElem?_map] at he
  obtain ⟨t', hk, hte'⟩ := Option.map_eq_some_iff.mp he
  have hid : t'.id = t.id := h'.sound.numbered.id_eq hk
  have hm : t' ∈ m'.tasks := List.mem_of_getElem? hk
  have hlt'' : t'.epoch < m'.controller.epoch := by
    rw [hte']
    exact hlt'
  refine ⟨⟨t', hm, hid, hte', hlt''⟩, ?_⟩
  rw [← hid]
  exact h'.sound.poll_superseded h'.inside hm hlt''

/-- A transition that goes on to another phase has an epoch of its own. -/
theorem Lawful.epoch_lt (h : s.Lawful q) (mv : Move β)
    (hc : (s.move mv).machine.controller.phase ≠ s.machine.controller.phase)
    (hi : (s.move mv).machine.controller.phase ≠ .idle) :
    s.machine.controller.epoch < (s.move mv).machine.controller.epoch := by
  obtain ⟨es, q', g⟩ := move_goes h.sound h.inside mv
  have hp := h.inside.phase
  have hp' := g.inside.phase
  have he := g.epoch
  by_contra hle
  rcases g.steps.phase_eq (by omega) with hq | hq
  · exact hc (by rw [hp', hq, hp])
  · exact hi (by rw [hp', hq])

end Scene

/-- In every run the current epoch has one owner while the stack is not at rest and none while it is; epochs
rise with each transition; a task with an older epoch never again has a say in the controller or the notices;
and a boot can always be cancelled and waited for. -/
theorem current_epoch_has_one_owner (backend : Backend β) (world : β) (teardownTimeout : Nat)
    (moves : List (Move β)) :
    let s := (Scene.start backend world teardownTimeout).run moves
    let m := s.machine
    let c := m.controller
    ((c.phase ≠ .idle ↔ m.holders.length = 1) ∧ (c.phase = .idle → m.holders = [])) ∧
    ((∀ t ∈ m.tasks, t.epoch ≤ c.epoch) ∧
      (∀ later, ∃ es, (s.run later).chronicle = s.chronicle ++ es ∧
        (s.run later).machine.controller.epoch = c.epoch + es.countP Entry.isTransition) ∧
      (∀ mv, let c' := (s.move mv).machine.controller
        c'.phase ≠ c.phase → c'.phase ≠ .idle → c.epoch < c'.epoch)) ∧
    (∀ t ∈ m.tasks, t.epoch < c.epoch → ∀ later, let m' := (s.run later).machine
      (∃ t' ∈ m'.tasks, t'.id = t.id ∧ t'.epoch = t.epoch ∧ t'.epoch < m'.controller.epoch) ∧
      (m'.poll t.id).controller = m'.controller ∧ (m'.poll t.id).notices = m'.notices) ∧
    (c.phase = .starting → c.cancel.isSome ∧ ∃ t ∈ m.holders, c.bootTask = some t.id) ∧
    (c.phase = .idle → c.cancel = none ∧ c.bootTask = none) ∧
    (c.phase = .stopping → c.cancel = none) := by
  intro s m c
  obtain ⟨q, h⟩ := (Scene.start_lawful backend world teardownTimeout).run moves
  change s.Lawful q at h
  have hp : c.phase = q.phase := h.inside.phase
  have hh := Machine.In.holders_eq h.sound h.inside
  refine ⟨?_, ⟨fun t ht => h.sound.le ht, fun later => h.run_epoch later, fun mv => h.epoch_lt mv⟩,
    fun t ht hlt later => h.superseded_silent ht hlt later, h.inside.starting h.sound, h.inside.idle,
    h.inside.stopping⟩
  by_cases hr : q = .rest
  · rw [if_pos hr] at hh
    rw [hp, hr, hh]
    simp [Situation.phase]
  · rw [if_neg hr] at hh
    obtain ⟨t, ht⟩ := hh
    have hne : q.phase ≠ .idle := by cases q <;> simp_all [Situation.phase]
    rw [hp, ht]
    simp [hne]

end StackDeck.Lifecycle
