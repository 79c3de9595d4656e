import StackDeck.Proofs.Lifecycle.Frame

/-!
What a stack says of an outcome is true where it says so, if its backend can be relied on. `I` is what is known
of the world at any time, `up` and `down` are what a boot and a teardown bring about.
-/

namespace StackDeck

variable {β : Type}

/-- The backend keeps its world within `I` and ends no boot and no teardown well that it has not done. -/
structure Backend.Honest (b : Backend β) (I up down : β → Prop) : Prop where
  boot : ∀ w, I w → b.boot.Ensures I up w
  teardown : ∀ w, I w → b.teardown.Ensures I down w
  act : ∀ a name w, I w → (b.act a name).Ensures I (fun _ => True) w

namespace Lifecycle

/-- An outcome is what the world is like. -/
def Notice.Fits (up down : β → Prop) (w : β) : Notice → Prop
  | .started => up w
  | .stopped => down w
  | _ => True

def Place.Ensures (I up down : β → Prop) : Place β → Prop
  | .boot _ op => op.Ensures I up
  | .teardown _ op _ => op.Ensures I down
  | .await .. => True
  | .over => True

def Visit.Ensures (I : β → Prop) : Visit β → Prop
  | .acting _ _ op => op.Ensures I fun _ => True
  | _ => True

variable {I up down : β → Prop}

namespace Machine

/-- The world is within `I`, and the backend and all that it was asked to do can be relied on. -/
structure Reliable (I up down : β → Prop) (m : Machine β) : Prop where
  honest : m.backend.Honest I up down
  world : I m.world
  tasks : ∀ t ∈ m.tasks, t.place.Ensures I up down

/-- The machine stays reliable, and what it tells fits its world. -/
structure Truthful (I up down : β → Prop) (m m' : Machine β) : Prop where
  reliable : m'.Reliable I up down
  told : ∃ ns, m'.notices = m.notices ++ ns ∧ ∀ n ∈ ns, n.Fits up down m'.world

variable {m m' : Machine β} {id epoch : Nat} {r : Except BackendError Unit}

theorem Reliable.boot (h : m.Reliable I up down) : (Operation.fresh m.backend.boot).Ensures I up :=
  h.honest.boot

theorem Reliable.teardown (h : m.Reliable I up down) : (Operation.fresh m.backend.teardown).Ensures I down :=
  h.honest.teardown

theorem Reliable.silent (h : m'.Reliable I up down) (hn : m'.notices = m.notices) : m.Truthful I up down m' :=
  ⟨h, [], by rw [hn, List.append_nil], by simp⟩

theorem Reliable.place (h : m.Reliable I up down) {p : Place β} (hp : p.Ensures I up down) :
    (m.place id epoch p).Reliable I up down := by
  refine ⟨h.honest, h.world, ?_⟩
  intro t ht
  obtain ⟨u, hu, rfl⟩ := List.mem_map.mp ht
  split
  · exact hp
  · exact h.tasks u hu

theorem Reliable.over (h : m.Reliable I up down) : (m.place id epoch .over).Reliable I up down :=
  h.place (p := .over) trivial

theorem Truthful.place (h : m.Truthful I up down m') {p : Place β} (hp : p.Ensures I up down) :
    m.Truthful I up down (m'.place id epoch p) :=
  ⟨h.reliable.place hp, h.told⟩

theorem Truthful.over (h : m.Truthful I up down m') : m.Truthful I up down (m'.place id epoch .over) :=
  h.place (p := .over) trivial

theorem Reliable.abort (h : m.Reliable I up down) : (m.abort id).Reliable I up down := by
  refine ⟨h.honest, h.world, ?_⟩
  intro t ht
  obtain ⟨u, hu, rfl⟩ := List.mem_map.mp ht
  split
  · exact trivial
  · exact h.tasks u hu

theorem Reliable.finish (h : m.Reliable I up down) {success : Notice}
    (hs : r = .ok () → success.Fits up down m.world) : m.Truthful I up down (m.finish epoch r success) := by
  by_cases he : m.controller.epoch = epoch
  · rw [finish_current he]
    refine ⟨⟨h.honest, h.world, h.tasks⟩, [verdict success r], rfl, ?_⟩
    intro n hn
    rw [List.mem_singleton.mp hn]
    cases r with
    | ok _ => exact hs rfl
    | error e => exact trivial
  · rw [finish_superseded he]
    exact h.silent rfl

section work

variable {P : β → Prop} {d : Duty} {cancelled : Bool} {op : Operation β}

theorem Reliable.work (h : m.Reliable I up down) (ho : op.Ensures I P) :
    (m.work id d epoch cancelled op).Reliable I up down := by
  refine ⟨by simpa using h.honest, ?_, by simpa using h.tasks⟩
  rw [work_world]
  exact (ho.poll h.world m.now cancelled).world

/-- What is reported on the way promises nothing. -/
theorem Truthful.of_work (h : (m.work id d epoch cancelled op).Truthful I up down m') :
    m.Truthful I up down m' := by
  obtain ⟨ps, hw⟩ := work_notices id d epoch cancelled op m
  obtain ⟨ns, hn, hf⟩ := h.told
  refine ⟨h.reliable, ps.map .progress ++ ns, by rw [hn, hw, List.append_assoc], ?_⟩
  intro n hm
  rcases List.mem_append.mp hm with hm | hm
  · obtain ⟨p, _, rfl⟩ := List.mem_map.mp hm
    exact trivial
  · exact hf n hm

end work

theorem Reliable.pollBoot (h : m.Reliable I up down) {op : Operation β} (ho : op.Ensures I up) (token : Nat) :
    m.Truthful I up down (m.pollBoot id epoch token op) := by
  have left := ho.poll h.world m.now (m.cancelled.contains token)
  have hw : (m.work id .boot epoch (m.cancelled.contains token) op).Reliable I up down := h.work ho
  rcases op.poll_ended_or_underway m.now (m.cancelled.contains token) m.world with ⟨r, hr⟩ | hu
  · rw [pollBoot_ended hr]
    refine ((hw.finish ?_).over).of_work
    rintro rfl
    rw [work_world]
    exact left.outcome hr
  · rw [pollBoot_underway rfl hu]
    have ht : m.Truthful I up down (m.work id .boot epoch (m.cancelled.contains token) op) :=
      (hw.silent rfl).of_work
    exact ht.place (p := .boot token _) (left.rest hu)

theorem Reliable.afterTeardown (h : m.Reliable I up down) (hr : r = .ok () → down m.world) (thenBoot : Bool) :
    m.Truthful I up down (m.afterTeardown id epoch r thenBoot) := by
  cases r with
  | error e =>
    rw [afterTeardown_failed]
    exact (h.finish (r := .error e) nofun).over
  | ok _ =>
    cases thenBoot with
    | false =>
      rw [afterTeardown_last]
      exact (h.finish hr).over
    | true =>
      by_cases he : m.controller.epoch = epoch
      · rw [afterTeardown_boot he]
        have hs : ({ m with controller := m.controller.startBoot }.publish .starting).Reliable I up down :=
          ⟨h.honest, h.world, h.tasks⟩
        obtain ⟨hb, ns, hn, hf⟩ := hs.pollBoot h.boot (epoch + 1)
        refine ⟨hb, .starting :: ns, ?_, ?_⟩
        · rw [hn]
          simp [publish]
        · intro n hm
          rcases List.mem_cons.mp hm with rfl | hm
          · exact trivial
          · exact hf n hm
      · rw [afterTeardown_superseded he]
        exact h.over.silent rfl

theorem Reliable.pollTeardown (h : m.Reliable I up down) {op : Operation β} (ho : op.Ensures I down)
    (deadline : Option Nat) (thenBoot : Bool) :
    m.Truthful I up down (m.pollTeardown id epoch deadline op thenBoot) := by
  have left := ho.poll h.world m.now false
  have hw : (m.work id .teardown epoch false op).Reliable I up down := h.work ho
  rcases op.poll_ended_or_underway m.now false m.world with ⟨r, hr⟩ | hu
  · rw [pollTeardown_ended hr]
    refine (hw.afterTeardown ?_ thenBoot).of_work
    rintro rfl
    rw [work_world]
    exact left.outcome hr
  · by_cases hd : deadline.getD (m.now + m.teardownTimeout) ≤ m.now
    · rw [pollTeardown_late rfl hu hd]
      exact (hw.afterTeardown (r := .error _) nofun thenBoot).of_work
    · rw [pollTeardown_underway rfl hu hd]
      have ht : m.Truthful I up down (m.work id .teardown epoch false op) := (hw.silent rfl).of_work
      exact ht.place (p := .teardown _ _ thenBoot) (left.rest hu)

theorem Reliable.pollAwait (h : m.Reliable I up down) (target : Nat) (deadline : Option Nat) :
    m.Truthful I up down (m.pollAwait id epoch target deadline) := by
  cases ho : m.isOver target with
  | true =>
    rw [pollAwait_over ho]
    exact h.pollTeardown h.teardown none false
  | false =>
    by_cases late : deadline.getD (m.now + cancelGrace) ≤ m.now
    · rw [pollAwait_late ho late]
      have ht : (m.abort target).Truthful I up down
          ((m.abort target).pollTeardown id epoch none (.fresh m.backend.teardown) false) :=
        h.abort.pollTeardown h.teardown none false
      exact ⟨ht.reliable, ht.told⟩
    · rw [pollAwait_waits ho late]
      exact (h.place (p := .await target _) trivial).silent rfl

theorem Reliable.poll (h : m.Reliable I up down) (id : Nat) : m.Truthful I up down (m.poll id) := by
  cases hf : m.task? id with
  | none =>
    rw [poll_of_isOver (by simp [isOver, hf])]
    exact h.silent rfl
  | some t =>
    have hp := h.tasks t (mem_of_task? hf).1
    simp only [Machine.poll, hf]
    cases hpl : t.place with
    | boot token op =>
      rw [hpl] at hp
      exact h.pollBoot hp token
    | teardown deadline op thenBoot =>
      rw [hpl] at hp
      exact h.pollTeardown hp deadline thenBoot
    | await target deadline => exact h.pollAwait target deadline
    | _ => exact h.silent rfl

theorem Reliable.spawns (h : m.Reliable I up down) (hs : m.Spawns m') : m.Truthful I up down m' := by
  obtain ⟨epoch, p, ht, hp⟩ := hs.tasks
  obtain ⟨n, hn, hsn⟩ := hs.notices
  have hpe : p.Ensures I up down := by
    rcases hp with ⟨_, rfl⟩ | ⟨_, rfl⟩ | ⟨_, rfl⟩
    · exact h.boot
    · exact h.teardown
    · exact trivial
  refine ⟨⟨hs.backend ▸ h.honest, hs.world ▸ h.world, ?_⟩, [n], hn, ?_⟩
  · intro t hm
    rw [ht] at hm
    rcases List.mem_append.mp hm with hm | hm
    · exact h.tasks t hm
    · rw [List.mem_singleton.mp hm]
      exact hpe
  · intro n' hm
    rw [List.mem_singleton.mp hm]
    rcases hsn with rfl | rfl <;> exact trivial

theorem Reliable.call (h : m.Reliable I up down) (hs : m' = m ∨ m.Spawns m') : m.Truthful I up down m' := by
  rcases hs with rfl | hs
  · exact h.silent rfl
  · exact h.spawns hs

theorem Reliable.attend (h : m.Reliable I up down) {v : Visit β} (hv : v.Ensures I) :
    m.Truthful I up down (m.attend v).2 ∧ ∀ v', (m.attend v).1 = .waiting v' → v'.Ensures I := by
  cases v with
  | asking =>
    refine ⟨h.silent rfl, ?_⟩
    intro v' hw
    cases hw
    exact trivial
  | counted running => exact ⟨h.call (beginBoot_spawns running), by simp [Machine.attend]⟩
  | acting name a op =>
    have left := Operation.Ensures.poll hv h.world m.now false
    have hw : ({ m with world := (op.poll m.now false m.world).2.1 } : Machine β).Reliable I up down :=
      ⟨h.honest, left.world, h.tasks⟩
    simp only [Machine.attend]
    cases ho : (op.poll m.now false m.world).2.2 with
    | ended r =>
      refine ⟨⟨⟨hw.honest, hw.world, hw.tasks⟩, [_], rfl, ?_⟩, by simp⟩
      intro n hn
      rw [List.mem_singleton.mp hn]
      exact trivial
    | fresh _ =>
      have hu := op.poll_ended_or_underway m.now false m.world
      simp [ho, Operation.isUnderway] at hu
    | asleep _ _ _ | held =>
      refine ⟨hw.silent rfl, ?_⟩
      intro v' hv'
      cases hv'
      rw [ho] at left
      exact left.rest rfl

end Machine

namespace Scene

variable {s : Scene β}

/-- The machine is reliable, and so are the actions of the calls in flight. -/
structure Reliable (I up down : β → Prop) (s : Scene β) : Prop where
  machine : s.machine.Reliable I up down
  visits : ∀ v ∈ s.visits, v.Ensures I

theorem Reliable.move (h : s.Reliable I up down) {mv : Move β} (ht : ∀ f, mv = .touch f → ∀ w, I w → I (f w)) :
    (s.move mv).Reliable I up down ∧ s.machine.Truthful I up down (s.move mv).machine := by
  have of {s' : Scene β} (hm : s.machine.Truthful I up down s'.machine) (hv : s'.visits ⊆ s.visits) :
      s'.Reliable I up down ∧ s.machine.Truthful I up down s'.machine :=
    ⟨⟨hm.reliable, fun v hm => h.visits v (hv hm)⟩, hm⟩
  have still : s.machine.Truthful I up down s.machine := h.machine.silent rfl
  cases mv with
  | arrive r =>
    simp only [Scene.move]
    cases hr : s.machine.arrive r with
    | error e => exact of still (List.Subset.refl _)
    | ok v =>
      refine ⟨⟨h.machine, ?_⟩, still⟩
      intro u hu
      rcases List.mem_append.mp hu with hu | hu
      · exact h.visits u hu
      · rw [List.mem_singleton.mp hu]
        unfold Machine.arrive at hr
        cases hi : s.machine.controller.ensureIdle with
        | error e => simp [hi] at hr
        | ok _ =>
          cases r <;> simp only [hi, Except.ok.injEq] at hr <;> subst hr
          · exact trivial
          · exact h.machine.honest.act _ _
  | attend k =>
    simp only [Scene.move]
    cases hv : s.visits[k]? with
    | none =>
      simp only [Scene.attend, hv]
      exact of still (List.Subset.refl _)
    | some v =>
      obtain ⟨hm, hvs⟩ := attend_eq hv
      obtain ⟨ht, hw⟩ := h.machine.attend (h.visits v (List.mem_of_getElem? hv))
      rw [← hm] at ht
      refine ⟨⟨ht.reliable, ?_⟩, ht⟩
      intro u hu
      rw [hvs] at hu
      cases ha : (s.machine.attend v).1 with
      | answered r =>
        rw [ha] at hu
        exact h.visits u (List.mem_of_mem_eraseIdx hu)
      | waiting v' =>
        rw [ha] at hu
        rcases List.mem_or_eq_of_mem_set hu with hu | rfl
        · exact h.visits u hu
        · exact hw _ ha
  | leave k => exact of still (List.eraseIdx_subset)
  | down => exact of (h.machine.call Machine.down_spawns) (List.Subset.refl _)
  | restart => exact of (h.machine.call Machine.restart_spawns) (List.Subset.refl _)
  | cancel => exact of (h.machine.call Machine.cancel_spawns) (List.Subset.refl _)
  | poll id => exact of (h.machine.poll id) (List.Subset.refl _)
  | pass ms =>
    have hm : ({ s.machine with now := s.machine.now + ms } : Machine β).Reliable I up down :=
      ⟨h.machine.honest, h.machine.world, h.machine.tasks⟩
    exact of (hm.silent rfl) (List.Subset.refl _)
  | touch f =>
    have hm : ({ s.machine with world := f s.machine.world } : Machine β).Reliable I up down :=
      ⟨h.machine.honest, ht f rfl _ h.machine.world, h.machine.tasks⟩
    exact of (hm.silent rfl) (List.Subset.refl _)

theorem start_reliable {backend : Backend β} (hb : backend.Honest I up down) {world : β} (hw : I world)
    (teardownTimeout : Nat) : (start backend world teardownTimeout).Reliable I up down := by
  refine ⟨⟨hb, hw, ?_⟩, ?_⟩
  · intro t ht
    simp [start] at ht
  · intro v hv
    simp [start] at hv

theorem Reliable.run (h : s.Reliable I up down) {moves : List (Move β)}
    (ht : ∀ f, .touch f ∈ moves → ∀ w, I w → I (f w)) : (s.run moves).Reliable I up down := by
  induction moves generalizing s with
  | nil => exact h
  | cons mv r ih =>
    have hm : (s.move mv).Reliable I up down := (h.move fun f hf => ht f (hf ▸ List.mem_cons_self)).1
    exact ih hm fun f hf => ht f (by simp [hf])

end Scene

end Lifecycle

end StackDeck
