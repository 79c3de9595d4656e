import StackDeck.Proofs.Lifecycle.Exclusion
import StackDeck.Proofs.Lifecycle.Refusal

/-!
Actions on single services beside the operations on the whole stack. An action is let in only at rest, but it
leaves no mark on the stack, so an operation may be accepted while the action is still going on.
-/

namespace StackDeck.Lifecycle

variable {β : Type}

namespace Machine

variable {m : Machine β} {q : Situation}

/-- At rest the backend is at work for no task. -/
theorem In.underway_rest (h : m.In .rest) : m.underway = [] := not_underway_of_allOver h.1

theorem In.idle_or_refuses (h : m.In q) (name : String) (a : ServiceAction) :
    (m.controller.phase = .idle ∧ m.underway = []) ∨
      ∃ e, e.isConflict = true ∧ m.arrive (.service name a) = .error e := by
  rcases m.arrive_cases (.service name a) with ⟨hp, _⟩ | ⟨_, e, he, hc⟩
  · have hq : q = .rest := h.eq_rest hp
    subst hq
    exact .inl ⟨hp, h.underway_rest⟩
  · exact .inr ⟨e, hc, he⟩

end Machine

namespace Scene

variable {s : Scene β} {q : Situation} {name : String} {a : ServiceAction}

theorem arrive_refused {r : Request} {e : Fault} (h : s.machine.arrive r = .error e) : s.move (.arrive r) = s := by
  simp only [move, h]

theorem Lawful.arrive (h : s.Lawful q) (r : Request) : (s.move (.arrive r)).Lawful q := by
  obtain ⟨hm, hc⟩ := arrive_keeps r s
  exact ⟨hm ▸ h.sound, hm ▸ h.inside, hc ▸ h.steps, by rw [hm, hc, h.told], by rw [hm, hc, h.epoch]⟩

/-- What the backend does for an action shows in the world and in what is told of the service. -/
theorem attend_acting {k : Nat} {op : Operation β} (h : s.visits[k]? = some (.acting name a op)) :
    (s.attend k).machine.controller = s.machine.controller ∧ (s.attend k).machine.tasks = s.machine.tasks ∧
      (s.attend k).machine.asked = s.machine.asked ∧ (s.attend k).chronicle = s.chronicle := by
  rcases hp : op.poll s.machine.now false s.machine.world with ⟨ps, w, op'⟩
  cases op' with
  | ended result => simp [attend, h, Machine.attend, hp, become, Machine.noteAction, Machine.publish, signals,
      Notice.signal?, Visit.accepted]
  | fresh | asleep | held => simp [attend, h, Machine.attend, hp, become, signals]

end Scene

/-- In every run an action on a service is let in only at rest, while the backend neither boots nor tears down the
stack, and is refused without a trace otherwise. From then until the next operation is accepted the stack stays at
rest: the backend is asked neither to boot nor to tear down, and nothing is told of the stack. An action that goes
on leaves the stack as it is. -/
theorem action_apart_until_next_operation (backend : Backend β) (world : β) (teardownTimeout : Nat)
    (moves : List (Move β)) :
    let s := (Scene.start backend world teardownTimeout).run moves
    let m := s.machine
    (∀ name a, (m.controller.phase = .idle ∧ m.underway = []) ∨
      ∃ e, e.isConflict = true ∧ m.arrive (.service name a) = .error e ∧ s.move (.arrive (.service name a)) = s) ∧
    (∀ name a v, m.arrive (.service name a) = .ok v → let w := s.move (.arrive (.service name a))
      w.visits = s.visits ++ [.acting name a (.fresh (m.backend.act a name))] ∧
      ∀ later, (w.run later).opened = w.opened →
        let m' := (w.run later).machine
        m'.controller.phase = .idle ∧ m'.underway = [] ∧ (w.run later).chronicle = w.chronicle) ∧
    ∀ k name a op, s.visits[k]? = some (.acting name a op) → let s' := s.move (.attend k)
      s'.machine.controller = m.controller ∧ s'.machine.tasks = m.tasks ∧ s'.machine.asked = m.asked ∧
        s'.chronicle = s.chronicle := by
  intro s m
  obtain ⟨q, h⟩ := (Scene.start_lawful backend world teardownTimeout).run moves
  change s.Lawful q at h
  refine ⟨?_, ?_, fun k name a op hv => Scene.attend_acting hv⟩
  · intro name a
    rcases h.inside.idle_or_refuses name a with hi | ⟨e, he, hr⟩
    · exact .inl hi
    · exact .inr ⟨e, he, hr, Scene.arrive_refused hr⟩
  · intro name a v hv w
    rcases m.arrive_cases (.service name a) with ⟨hp, ha⟩ | ⟨_, e, ha, _⟩
    · have hq : q = .rest := h.inside.eq_rest hp
      subst hq
      refine ⟨?_, fun later ho => ?_⟩
      · change (s.move (.arrive (.service name a))).visits = _
        simp only [Scene.move, show s.machine.arrive (.service name a) = _ from ha]
      · obtain ⟨hl, hc⟩ := (h.arrive (.service name a)).run_unopened ho
        exact ⟨hl.inside.2.1, Machine.In.underway_rest hl.inside, hc⟩
    · rw [ha] at hv
      cases hv

/-- An action that takes a second, with a teardown in between: both are in progress at the same time, and the service
runs in a stack that was told to have stopped. -/
theorem action_outlasts_teardown :
    let backend := { Rehearsal.backend with act := fun a name => .pause 1000 false (Rehearsal.act a name) }
    let s := (Scene.start backend { roster := [.plain "web" false], teardownLag := some 500 } 120000).run
      [.arrive (.service "web" .start), .attend 0, .down, .poll 0]
    let s' := s.run [.pass 500, .poll 0, .pass 500]
    s.visits[0]? = some (.acting "web" .start (.asleep 1000 false (Rehearsal.act .start "web"))) ∧
      s.machine.underway.length = 1 ∧ s'.chronicle = [.call .down, .told .stopping, .told .stopped] ∧
      s'.reply? (.attend 0) = some (.ok ()) ∧ (s'.move (.attend 0)).machine.world.runningCount = 1 :=
  ⟨rfl, rfl, rfl, rfl, rfl⟩

end StackDeck.Lifecycle
